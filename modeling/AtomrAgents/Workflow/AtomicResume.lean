import AtomrAgents.Workflow.ResumeTurns

set_option autoImplicit false

/-! The check, the effect and the resolution of one call are three turns. Between the check and the resolution
of a call any other call on the interrupt can resolve it; the effect then stays behind. -/

namespace AtomrAgents.ResumeCall

open Shared

abbrev System := Threads Stores ResumeCall

/-- A call about to resolve its interrupt is the only one that is past its check on it. -/
def Isolated (system : System) (i : Nat) : Prop :=
  ∀ call, system.locals[i]? = some call → call.phase = .resolve →
    ∀ j other, j ≠ i → system.locals[j]? = some other → other.Exposed →
      other.request.interruptId ≠ call.request.interruptId

def Distinct (requests : List ResumeRequest) : Prop :=
  ∀ (i j : Nat) request request' record record', requests[i]? = some request →
    requests[j]? = some request' → request.effect = some (.outbox record) →
    request'.effect = some (.outbox record') → record.id = record'.id → i = j

structure Started (system : System) : Prop where
  begins : ∀ call ∈ system.locals, call = start call.request
  distinct : Distinct (system.locals.map (·.request))
  fresh : ∀ call ∈ system.locals, ∀ record, call.request.effect = some (.outbox record) →
    system.shared.outbox.get record.id = none

def Finished (system : System) : Prop :=
  ∀ call ∈ system.locals, ∃ result, call.phase = .returned result

structure Atomic (before : InMemoryOutboxStore) (system : System) : Prop where
  standing : ∀ (i : Nat) call, system.locals[i]? = some call → call.Standing system.shared →
    call.phase = .returned (.ok ())
  unique : ∀ (i j : Nat) call other, system.locals[i]? = some call → system.locals[j]? = some other →
    call.Standing system.shared → other.Standing system.shared →
    call.request.interruptId = other.request.interruptId → i = j
  outbox : ∃ saved, system.shared.outbox = before ++ saved ∧ ∀ record ∈ saved,
    ∃ call ∈ system.locals, ∃ own, call.request.effect = some (.outbox own) ∧
      record = bindRecord call.request.interruptId own ∧ call.phase = .returned (.ok ())

variable {call call' other : ResumeCall}

section Run

variable {system next : System} {i : Nat}

structure Sound (before : InMemoryOutboxStore) (system : System) : Prop where
  distinct : Distinct (system.locals.map (·.request))
  coherent : ∀ (i : Nat) call, system.locals[i]? = some call → call.Coherent system.shared
  outbox : ∃ saved, system.shared.outbox = before ++ saved ∧ ∀ record ∈ saved,
    ∃ request ∈ system.locals.map (·.request), ∃ own, request.effect = some (.outbox own) ∧
      record = bindRecord request.interruptId own

theorem requests_kept (turned : Threads.Turn turn system i call call' next)
    (own : Turned call system.shared call' next.shared) :
    next.locals.map (·.request) = system.locals.map (·.request) :=
  turned.map_locals _ own.request

theorem Sound.standing_other {before : InMemoryOutboxStore} (sound : Sound before system)
    (turned : Threads.Turn turn system i call call' next)
    (own : Turned call system.shared call' next.shared) {j : Nat} (different : j ≠ i)
    (found : system.locals[j]? = some other) :
    other.Standing next.shared ↔ other.Standing system.shared := by
  apply own.standing_other (sound.coherent i call turned.before)
  intro record record' effect effect' same
  have known := congrArg (Option.map (·.request)) turned.before
  have known' := congrArg (Option.map (·.request)) found
  rw [← List.getElem?_map] at known known'
  exact different (sound.distinct i j _ _ _ _ known known' effect effect' same).symm

theorem Sound.step {before : InMemoryOutboxStore} (sound : Sound before system)
    (turned : Threads.Turn turn system i call call' next) : Sound before next := by
  have own := turn_cases turned.takes
  have requests := requests_kept turned own
  refine ⟨by rw [requests]; exact sound.distinct, ?_, ?_⟩
  · apply turned.each (P := fun stores _ call => call.Coherent stores)
    · exact own.coherent (sound.coherent i call turned.before)
    · intro j other different found
      exact own.coherent_other (sound.standing_other turned own different found)
        (sound.coherent j other found)
  · obtain ⟨saved, outbox, owned⟩ := sound.outbox
    rw [requests]
    cases own.outbox (sound.coherent i call turned.before) with
    | inl same => exact ⟨saved, same.trans outbox, owned⟩
    | inr added =>
      obtain ⟨record, effect, grown⟩ := added
      refine ⟨saved ++ [bindRecord call.request.interruptId record], ?_, ?_⟩
      · rw [grown, outbox, List.append_assoc]
      · intro record' member
        rcases List.mem_append.mp member with earlier | here
        · exact owned record' earlier
        · rw [List.mem_singleton] at here
          exact ⟨call.request, List.mem_map_of_mem (List.mem_of_getElem? turned.before), record,
            effect, here⟩

theorem Started.sound (started : Started system) : Sound system.shared.outbox system where
  distinct := started.distinct
  coherent := by
    intro i call found
    have member := List.mem_of_getElem? found
    rw [started.begins call member, start]
    split
    · next none => simp [Coherent, none]
    · next effect some =>
      refine ⟨some, rfl, ?_⟩
      cases effect with
      | outbox record => simp [Standing, some, started.fresh call member record some]
      | saga step => simp [Standing, some]
  outbox := ⟨[], by simp, by simp⟩

/-- The invariant of an atomic run: an effect stands only while its call resolves the interrupt, and
once it has. -/
structure Clean (system : System) : Prop where
  standing : ∀ (i : Nat) call, system.locals[i]? = some call → call.Standing system.shared →
    call.phase = .resolve ∨
      call.phase = .returned (.ok ()) ∧ system.shared.registry.Resolved call.request.interruptId
  exposed : ∀ (i : Nat) call, system.locals[i]? = some call → call.Exposed →
    system.shared.registry.Open call.request.interruptId
  unique : ∀ (i j : Nat) call other, system.locals[i]? = some call → system.locals[j]? = some other →
    call.Standing system.shared → other.Standing system.shared →
    call.phase = .returned (.ok ()) → other.phase = .returned (.ok ()) →
    call.request.interruptId = other.request.interruptId → i = j

theorem Clean.step {before : InMemoryOutboxStore} (sound : Sound before system)
    (clean : Clean system) (isolated : Isolated system i)
    (turned : Threads.Turn turn system i call call' next) : Clean next := by
  have own := turn_cases turned.takes
  have coherent := sound.coherent i call turned.before
  have held := clean.exposed i call turned.before
  have theirs {j : Nat} {other : ResumeCall} (different : j ≠ i)
      (found : system.locals[j]? = some other) (standing : other.Standing next.shared) :
      other.phase = .resolve ∨ other.phase = .returned (.ok ()) ∧
        system.shared.registry.Resolved other.request.interruptId :=
    clean.standing j other found ((sound.standing_other turned own different found).mp standing)
  -- the interrupt that is resolved in this turn was open, so no other effect stands on it yet
  have first {j : Nat} {other : ResumeCall} (different : j ≠ i)
      (found : system.locals[j]? = some other) (standing : other.Standing next.shared)
      (ok : call'.phase = .returned (.ok ())) (ok' : other.phase = .returned (.ok ()))
      (same : call'.request.interruptId = other.request.interruptId) : False := by
    rcases theirs different found standing with resolving | ⟨-, resolved⟩
    · rw [resolving] at ok'
      cases ok'
    · rw [← same, own.request] at resolved
      exact (own.open_of_ok ok).not_resolved resolved
  refine ⟨?_, ?_, ?_⟩
  · apply turned.each (P := fun stores _ call => call.Standing stores →
      call.phase = .resolve ∨ call.phase = .returned (.ok ()) ∧
        stores.registry.Resolved call.request.interruptId)
    · exact own.standing_own coherent held
    · intro j other different found standing
      rcases theirs different found standing with resolving | ⟨ok, resolved⟩
      · exact .inl resolving
      · exact .inr ⟨ok, own.resolved_kept resolved⟩
  · apply turned.each (P := fun stores _ call => call.Exposed →
      stores.registry.Open call.request.interruptId)
    · exact own.exposed_own held
    · intro j other different found exposed
      apply own.open_other _ (clean.exposed j other found exposed)
      exact fun resolving => isolated call turned.before resolving j other different found exposed
  · intro j k one two found found' standing standing' ok ok' same
    by_cases mine : j = i <;> by_cases mine' : k = i
    · rw [mine, mine']
    · rw [mine, turned.after, Option.some_inj] at found
      subst found
      rw [turned.others k mine'] at found'
      exact (first mine' found' standing' ok ok' same).elim
    · rw [mine', turned.after, Option.some_inj] at found'
      subst found'
      rw [turned.others j mine] at found
      exact (first mine found standing ok' ok same.symm).elim
    · rw [turned.others j mine] at found
      rw [turned.others k mine'] at found'
      have before := (sound.standing_other turned own mine found).mp standing
      have before' := (sound.standing_other turned own mine' found').mp standing'
      exact clean.unique j k one two found found' before before' ok ok' same

theorem Started.clean (started : Started system) : Clean system := by
  have sound := started.sound
  -- nothing has been performed yet
  have idle (i : Nat) (call : ResumeCall) (found : system.locals[i]? = some call) :
      ¬ call.Standing system.shared ∧ ¬ call.Exposed := by
    have begins := started.begins call (List.mem_of_getElem? found)
    have coherent := sound.coherent i call found
    rw [start] at begins
    split at begins
    · next none => rw [begins]; simp [Standing, Exposed, none]
    · next effect some =>
      have at_ : call.phase = .check effect := by rw [begins]
      simp only [Coherent, at_] at coherent
      exact ⟨coherent.2.2, by simp [Exposed, at_]⟩
  exact ⟨fun i call found standing => absurd standing (idle i call found).1,
    fun i call found exposed => absurd exposed (idle i call found).2,
    fun i _ call _ found _ standing => absurd standing (idle i call found).1⟩

-- Call `j` is exposed on a resolved interrupt, or has already returned an error with its effect
-- standing.
structure Doomed (j : Nat) (doomed : ResumeCall) (system : System) : Prop where
  found : system.locals[j]? = some doomed
  resolved : system.shared.registry.Resolved doomed.request.interruptId
  stuck : doomed.Exposed ∨
    doomed.Standing system.shared ∧ ∃ e, doomed.phase = .returned (.error e)

theorem Doomed.step {before : InMemoryOutboxStore} (sound : Sound before system) {j : Nat}
    {doomed : ResumeCall} (stays : Doomed j doomed system)
    (turned : Threads.Turn turn system i call call' next) : ∃ doomed', Doomed j doomed' next := by
  have own := turn_cases turned.takes
  by_cases mine : j = i
  · subst mine
    have same := stays.found
    rw [turned.before, Option.some_inj] at same
    subst same
    refine ⟨call', turned.after, ?_, ?_⟩
    · rw [own.request]
      exact own.resolved_kept stays.resolved
    · rcases stays.stuck with exposed | ⟨_, e, returned⟩
      · exact own.doomed_own (sound.coherent j call turned.before) stays.resolved exposed
      · have takes := turned.takes
        simp [turn, returned] at takes
  · refine ⟨doomed, (turned.others j mine).trans stays.found, own.resolved_kept stays.resolved, ?_⟩
    rw [sound.standing_other turned own mine stays.found]
    exact stays.stuck

theorem Sound.doomed {before : InMemoryOutboxStore} (sound : Sound before system)
    (broken : ¬ Isolated system i) (turned : Threads.Turn turn system i call call' next) :
    ∃ j doomed, Doomed j doomed next := by
  simp only [Isolated, not_forall, not_not] at broken
  obtain ⟨resolving, found, at_, j, other, different, found', exposed, same⟩ := broken
  rw [turned.before, Option.some_inj] at found
  subst found
  refine ⟨j, other, (turned.others j different).trans found', ?_, .inl exposed⟩
  have present : call.request.interruptId ∈ system.shared.registry := by
    have coherent := sound.coherent j other found'
    rw [← same]
    unfold Exposed at exposed
    unfold Coherent at coherent
    split at exposed
    · next at_ => simp only [at_] at coherent; exact coherent.2.2.2
    · next at_ => simp only [at_] at coherent; exact coherent.2.2.2
    · next at_ => simp only [at_] at coherent; exact (coherent exposed).2
    · exact exposed.elim
  rw [same]
  have own := turn_cases turned.takes
  cases InMemoryInterruptRegistry.mem_iff.mp present with
  | inr resolved => exact own.resolved_kept resolved
  | inl open_ => exact own.resolves at_ open_

theorem run_sound {before : InMemoryOutboxStore} {schedule : List Nat} {last : System}
    (sound : Sound before system) (ran : Threads.run turn system schedule = some last) :
    Sound before last :=
  Threads.run_keeps (Sound before) (fun _ _ _ _ _ sound turned => sound.step turned) schedule system
    sound ran

theorem run_clean {before : InMemoryOutboxStore} {schedule : List Nat} {last : System}
    (sound : Sound before system) (clean : Clean system)
    (isolated : Threads.Along turn Isolated system schedule)
    (ran : Threads.run turn system schedule = some last) : Clean last := by
  have both := Threads.run_invariant Isolated
    (fun system => Sound before system ∧ Clean system) ?_ schedule system
    ⟨sound, clean⟩ isolated ran
  · exact both.2
  · intro system i call call' next ⟨sound, clean⟩ isolated turned
    exact ⟨sound.step turned, clean.step sound isolated turned⟩

theorem run_doomed {before : InMemoryOutboxStore} {schedule : List Nat} {last : System} {j : Nat}
    {doomed : ResumeCall} (sound : Sound before system) (stays : Doomed j doomed system)
    (ran : Threads.run turn system schedule = some last) : ∃ j doomed, Doomed j doomed last := by
  have both := Threads.run_keeps
    (fun system => Sound before system ∧ ∃ j doomed, Doomed j doomed system) ?_ schedule
    system ⟨sound, j, doomed, stays⟩ ran
  · exact both.2
  · intro system i call call' next ⟨sound, j, doomed, stays⟩ turned
    exact ⟨sound.step turned, j, stays.step sound turned⟩

theorem Clean.atomic {before : InMemoryOutboxStore} (sound : Sound before system)
    (clean : Clean system) (finished : Finished system) : Atomic before system := by
  have standing (i : Nat) (call : ResumeCall) (found : system.locals[i]? = some call)
      (stands : call.Standing system.shared) : call.phase = .returned (.ok ()) := by
    rcases clean.standing i call found stands with resolving | ⟨ok, _⟩
    · obtain ⟨result, returned⟩ := finished call (List.mem_of_getElem? found)
      rw [resolving] at returned
      cases returned
    · exact ok
  refine ⟨standing, ?_, ?_⟩
  · intro i j call other found found' stands stands' same
    exact clean.unique i j call other found found' stands stands' (standing i call found stands)
      (standing j other found' stands') same
  · obtain ⟨saved, outbox, owned⟩ := sound.outbox
    refine ⟨saved, outbox, fun record member => ?_⟩
    obtain ⟨request, listed, own, effect, bound⟩ := owned record member
    obtain ⟨call, caller, rfl⟩ := List.mem_map.mp listed
    obtain ⟨i, found⟩ := List.mem_iff_getElem?.mp caller
    refine ⟨call, caller, own, effect, bound, standing i call found ?_⟩
    have kept : record ∈ system.shared.outbox := by
      rw [outbox]
      exact List.mem_append_right before member
    simp only [Standing, effect, InMemoryOutboxStore.get, List.find?_isSome]
    exact ⟨record, kept, by simp [bound, bindRecord]⟩

theorem Doomed.not_atomic {before : InMemoryOutboxStore} {j : Nat} {doomed : ResumeCall}
    (stays : Doomed j doomed system) (finished : Finished system) : ¬ Atomic before system := by
  intro atomic
  obtain ⟨result, returned⟩ := finished doomed (List.mem_of_getElem? stays.found)
  rcases stays.stuck with exposed | ⟨standing, e, failed⟩
  · simp [Exposed, returned] at exposed
  · have ok := atomic.standing j doomed stays.found standing
    rw [failed] at ok
    cases ok

end Run

/-- A schedule that lets all calls return is atomic exactly if no interrupt is resolved while
another call on it is past its check. -/
theorem resume_atomic (initial : System) (started : Started initial) (schedule : List Nat)
    (final : System) (ran : Threads.run turn initial schedule = some final)
    (finished : Finished final) :
    Atomic initial.shared.outbox final ↔ Threads.Along turn Isolated initial schedule := by
  constructor
  · intro atomic
    by_contra broken
    -- the turn that is not isolated dooms a call, which stays doomed until all have returned
    obtain ⟨front, i, rest, reached, call, call', next, -, before, breaks, turned, after⟩ :=
      Threads.exists_break schedule initial ran broken
    have sound := run_sound started.sound before
    obtain ⟨j, doomed, stays⟩ := sound.doomed breaks turned
    obtain ⟨j, doomed, stays⟩ := run_doomed (sound.step turned) stays after
    exact stays.not_atomic finished atomic
  · intro isolated
    have clean := run_clean started.sound started.clean isolated ran
    exact clean.atomic (run_sound started.sound ran) finished

def approval (interruptId : String) : PendingInterrupt where
  interruptId
  workflow := "promotion"
  run := "run"
  step := 0
  requestedRole := none
  requestedClearance := none
  payload := .null
  createdAtMs := 0
  deadlineMs := none
  assignee := none
  status := .pending

def ledgerEntry (id : String) : OutboxRecord :=
  { id, interruptId := "", payload := .null, idempotencyKey := id, committed := false }

def rivals : System where
  shared := { registry := (∅ : InMemoryInterruptRegistry).insert "i1" (approval "i1"), outbox := [] }
  locals := [
    start { interruptId := "i1", resolution := ⟨.bool true⟩, effect := some (.outbox (ledgerEntry "o1")) },
    start { interruptId := "i1", resolution := ⟨.bool true⟩, effect := some (.outbox (ledgerEntry "o2")) }]

theorem rivals_started : Started rivals where
  begins := by
    intro call member
    simp only [rivals, List.mem_cons, List.not_mem_nil, or_false] at member
    rcases member with rfl | rfl <;> rfl
  distinct := by
    intro i j request request' record record' found found' effect effect' same
    match i, j with
    | 0, 0 | 1, 1 => rfl
    | 0, 1 | 1, 0 =>
      cases found
      cases found'
      cases effect
      cases effect'
      exact absurd same (by decide)
    | i + 2, _ => cases found
    | _, j + 2 => cases found'
  fresh := fun _ _ _ _ => rfl

-- Both calls pass their check, then both write: the second one returns an error and leaves its
-- record in the outbox.
theorem resume_atomic_fails :
    Started rivals ∧ ∃ final, Threads.run turn rivals [0, 1, 0, 0, 1, 1] = some final ∧
      Finished final ∧ ¬ Atomic rivals.shared.outbox final := by
  refine ⟨rivals_started, _, rfl, ?_, fun atomic => ?_⟩
  · intro call member
    rcases List.mem_cons.mp member with rfl | rest
    · exact ⟨_, rfl⟩
    · rcases List.mem_singleton.mp rest with rfl
      exact ⟨_, rfl⟩
  · have ok := atomic.standing 1 _ rfl rfl
    cases ok

theorem resume_atomic_rivals :
    ∃ final, Threads.run turn rivals [0, 0, 0, 1] = some final ∧
      (Atomic rivals.shared.outbox final ↔
        Threads.Along turn Isolated rivals [0, 0, 0, 1]) := by
  refine ⟨_, rfl, resume_atomic rivals rivals_started [0, 0, 0, 1] _ rfl ?_⟩
  intro call member
  rcases List.mem_cons.mp member with rfl | rest
  · exact ⟨_, rfl⟩
  · rcases List.mem_singleton.mp rest with rfl
    exact ⟨_, rfl⟩

end AtomrAgents.ResumeCall
