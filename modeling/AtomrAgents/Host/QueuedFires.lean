import AtomrAgents.Host.Triggers
import AtomrAgents.Shared.Operations

set_option autoImplicit false

/-! A rate limit that queues what exceeds it is asked again and again. Nothing takes a fire out of its queue,
so the next fire that is admitted overtakes all that are in there. -/

namespace AtomrAgents

open Shared

namespace RateLimit

abbrev FireLog := List (Int × RateDecision)

def attempt (state : FireLog × RateLimit) (nowMs : Int) : RateDecision × FireLog × RateLimit :=
  let (decision, limit) := state.2.checkAndRecord nowMs
  (decision, state.1 ++ [(nowMs, decision)], limit)

def queuedFires (log : FireLog) : List Int :=
  log.filterMap fun (nowMs, decision) => if decision = .queued then some nowMs else none

-- The first fires that were queued are released, and the others are in the queue. A queued fire is
-- released when a fire that was attempted later is admitted.
def InOrder (state : FireLog × RateLimit) : Prop :=
  ∃ released, state.2.queuedLen + released = (queuedFires state.1).length ∧
    state.2.queued = (queuedFires state.1).drop released ∧
    ∀ i j queued admitted, i < j → state.1[i]? = some (queued, .queued) →
      state.1[j]? = some (admitted, .allow) → (queuedFires (state.1.take i)).length < released

def Waits (state : FireLog × RateLimit) (nowMs : Int) : Prop :=
  state.2.queued = [] ∨ state.2.maxFires ≤ (state.2.evictBefore nowMs).window.length

abbrev Unovertaken (log : FireLog) : Prop :=
  log.Pairwise fun earlier later => ¬ (earlier.2 = .queued ∧ later.2 = .allow)

structure QueueInvariant (state : FireLog × RateLimit) : Prop where
  policy : state.2.onExceed = .queue
  queued : state.2.queued = queuedFires state.1
  unovertaken : Unovertaken state.1

variable {log : FireLog} {limit : RateLimit} {nowMs : Int}

theorem queuedFires_append (log : FireLog) (nowMs : Int) (decision : RateDecision) :
    queuedFires (log ++ [(nowMs, decision)]) =
      queuedFires log ++ if decision = .queued then [nowMs] else [] := by
  rw [queuedFires, List.filterMap_append]
  split
  · next same => simp [queuedFires, same]
  · next other => simp [queuedFires, other]

theorem queuedFires_eq_nil_iff : queuedFires log = [] ↔ ∀ fire ∈ log, fire.2 ≠ .queued := by
  simp [queuedFires, List.filterMap_eq_nil_iff]

theorem inOrder_iff (queued : limit.queued = queuedFires log) :
    InOrder (log, limit) ↔ Unovertaken log := by
  constructor
  · rintro ⟨released, counted, -, ahead⟩
    have none : released = 0 := by
      change limit.queued.length + released = (queuedFires log).length at counted
      rw [queued] at counted
      omega
    subst none
    apply List.pairwise_iff_getElem.mpr
    rintro i j hi hj before ⟨waits, admitted⟩
    have first : log[i]? = some (log[i].1, .queued) := by
      rw [List.getElem?_eq_getElem hi, ← waits]
    have second : log[j]? = some (log[j].1, .allow) := by
      rw [List.getElem?_eq_getElem hj, ← admitted]
    exact absurd (ahead i j _ _ before first second) (Nat.not_lt_zero _)
  · intro unovertaken
    refine ⟨0, congrArg List.length queued, queued, ?_⟩
    intro i j fire admitted before first second
    obtain ⟨hi, here⟩ := List.getElem?_eq_some_iff.mp first
    obtain ⟨hj, there⟩ := List.getElem?_eq_some_iff.mp second
    have apart := List.pairwise_iff_getElem.mp unovertaken i j hi hj before
    rw [here, there] at apart
    exact absurd ⟨rfl, rfl⟩ apart

theorem unovertaken_append (unovertaken : Unovertaken log) (nowMs : Int) (decision : RateDecision) :
    Unovertaken (log ++ [(nowMs, decision)]) ↔ decision = .allow → queuedFires log = [] := by
  rw [Unovertaken, List.pairwise_append, queuedFires_eq_nil_iff]
  constructor
  · rintro ⟨-, -, apart⟩ allowed fire member queued
    exact apart fire member _ (List.mem_singleton.mpr rfl) ⟨queued, allowed⟩
  · intro none
    refine ⟨unovertaken, List.pairwise_singleton _ _, ?_⟩
    rintro fire member later here ⟨queued, allowed⟩
    rw [List.mem_singleton.mp here] at allowed
    exact none allowed fire member queued

theorem QueueInvariant.attempt (invariant : QueueInvariant (log, limit)) (nowMs : Int) :
    (Waits (log, limit) nowMs ↔ InOrder (RateLimit.attempt (log, limit) nowMs).2) ∧
      (Waits (log, limit) nowMs → QueueInvariant (RateLimit.attempt (log, limit) nowMs).2) := by
  obtain ⟨policy, queued, unovertaken⟩ := invariant
  dsimp only at policy queued unovertaken
  rcases lt_or_ge (limit.evictBefore nowMs).window.length limit.maxFires with room | full
  · simp only [RateLimit.attempt, checkAndRecord_of_room room]
    have same : limit.queued = queuedFires (log ++ [(nowMs, .allow)]) := by
      rw [queuedFires_append, queued]
      exact (List.append_nil _).symm
    have waits : Waits (log, limit) nowMs ↔ queuedFires log = [] := by
      rw [Waits, queued]
      exact or_iff_left (not_le.mpr room)
    have order := unovertaken_append unovertaken nowMs .allow
    rw [inOrder_iff, order, waits]
    · exact ⟨by simp, fun none => ⟨policy, same, order.mpr fun _ => none⟩⟩
    · exact same
  · simp only [RateLimit.attempt, checkAndRecord_of_full full, policy]
    have same : limit.queued ++ [nowMs] = queuedFires (log ++ [(nowMs, .queued)]) := by
      rw [queuedFires_append, queued]
      rfl
    have order : Unovertaken (log ++ [(nowMs, .queued)]) :=
      (unovertaken_append unovertaken nowMs .queued).mpr nofun
    rw [inOrder_iff]
    · exact ⟨iff_of_true (.inr full) order, fun _ => ⟨policy, same, order⟩⟩
    · exact same

/-- From an empty limit on the queue stays in order just as long as no attempt finds room in the window
while fires are queued. -/
theorem queue_inOrder (maxFires : Nat) (per : Duration) (attempts : List Int) :
    Operations.Along attempt (fun state nowMs => InOrder (attempt state nowMs).2)
        ([], RateLimit.new maxFires per .queue) attempts ↔
      Operations.Along attempt Waits ([], RateLimit.new maxFires per .queue) attempts := by
  symm
  apply Operations.along_congr QueueInvariant
  · rintro ⟨log, limit⟩ nowMs invariant
    exact (invariant.attempt nowMs).1
  · rintro ⟨log, limit⟩ nowMs invariant waits
    exact (invariant.attempt nowMs).2 waits
  · exact ⟨rfl, rfl, List.Pairwise.nil⟩

section Example

def tenSeconds : Duration := .ofMillis 10000 (by decide)

-- The second fire is queued, and the third one is admitted once the window is free again.
theorem queue_inOrder_fails :
    ¬ Operations.Along attempt (fun state nowMs => InOrder (attempt state nowMs).2)
      ([], RateLimit.new 1 tenSeconds .queue) [0, 1, 10001] := by
  have ten : asI64 tenSeconds.asMillis = 10000 := by
    rw [show tenSeconds.asMillis = 10000 by decide]
    exact asI64_of_small (by decide)
  have h1 : subI64 1 10000 = -9999 := subI64_of_fits (by decide) (by decide)
  have h2 : subI64 10001 10000 = 1 := subI64_of_fits (by decide) (by decide)
  have first : attempt ([], RateLimit.new 1 tenSeconds .queue) 0 =
      (.allow, [(0, .allow)], { RateLimit.new 1 tenSeconds .queue with window := [0] }) := rfl
  have second : attempt ([(0, .allow)], { RateLimit.new 1 tenSeconds .queue with window := [0] }) 1 =
      (.queued, [(0, .allow), (1, .queued)],
        { RateLimit.new 1 tenSeconds .queue with window := [0], queued := [1] }) := by
    simp [attempt, checkAndRecord, evictBefore, RateLimit.new, ten, h1]
  have third : attempt ([(0, .allow), (1, .queued)],
      { RateLimit.new 1 tenSeconds .queue with window := [0], queued := [1] }) 10001 =
      (.allow, [(0, .allow), (1, .queued), (10001, .allow)],
        { RateLimit.new 1 tenSeconds .queue with window := [10001], queued := [1] }) := by
    simp [attempt, checkAndRecord, evictBefore, RateLimit.new, ten, h2]
  rintro ⟨-, -, order, -⟩
  rw [first, second, third, inOrder_iff rfl] at order
  exact absurd order (by decide)

end Example

end RateLimit

end AtomrAgents
