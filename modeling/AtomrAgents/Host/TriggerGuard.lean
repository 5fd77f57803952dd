import AtomrAgents.Host.Triggers
import AtomrAgents.Shared.Operations
import AtomrAgents.Shared.SlidingWindow

set_option autoImplicit false

namespace AtomrAgents

open Shared Shared.SlidingWindow

def instant (ms : Int) : Int := ms * 10 ^ 6

-- `limit`: the rate limit in force, with the fires that were admitted under it.
structure Guard where
  paused : Bool
  cooldown : Duration
  last : Option Int
  limit : Option (RateLimit × List Int)

namespace Guard

def start (enabled : Bool) : Guard where
  paused := !enabled
  cooldown := .zero
  last := none
  limit := none

def observe (guard : Guard) : TriggerRequest × TriggerReply → Guard
  | (.setCooldown cooldown, _) => { guard with cooldown }
  | (.setRateLimit limit, _) => { guard with limit := some (limit, []) }
  | (.pause, _) => { guard with paused := true }
  | (.resume, _) => { guard with paused := false }
  | (.tryFire nowMs, .outcome .fired) =>
    { guard with
      last := some nowMs
      limit := guard.limit.map fun (limit, fires) => (limit, fires ++ [nowMs]) }
  | (.tryFire _, _) => guard

structure Admits (guard : Guard) (nowMs : Int) : Prop where
  resumed : guard.paused = false
  cooled : ∀ last, guard.last = some last → guard.cooldown.nanos ≤ instant nowMs - instant last
  limited : ∀ limit fires, guard.limit = some (limit, fires) →
    Limited instant limit.per.nanos limit.maxFires (fires ++ [nowMs])

def Upheld (guard : Guard) : List (TriggerRequest × TriggerReply) → Prop
  | [] => True
  | event :: rest =>
    (∀ nowMs, event = (.tryFire nowMs, .outcome .fired) → guard.Admits nowMs) ∧
      (guard.observe event).Upheld rest

end Guard

namespace RateLimit

theorem checkAndRecord_cases (limit : RateLimit) (nowMs : Int) :
    (limit.evictBefore nowMs).window.length < limit.maxFires ∧
        limit.checkAndRecord nowMs = (.allow, { limit.evictBefore nowMs with
          window := (limit.evictBefore nowMs).window ++ [nowMs] }) ∨
      ∃ decision queued, decision ≠ .allow ∧
        limit.checkAndRecord nowMs = (decision, { limit.evictBefore nowMs with queued }) := by
  rcases lt_or_ge (limit.evictBefore nowMs).window.length limit.maxFires with room | full
  · exact .inl ⟨room, checkAndRecord_of_room room⟩
  · right
    rw [checkAndRecord_of_full full]
    cases limit.onExceed with
    | drop => exact ⟨.dropped, limit.queued, by decide, rfl⟩
    | queue => exact ⟨.queued, limit.queued ++ [nowMs], by decide, rfl⟩
    | backpressure => exact ⟨.backpressured, limit.queued, by decide, rfl⟩

end RateLimit

-- A span that has not passed has not passed in whole milliseconds either, and these fit.
def Measured (span : Duration) (nowMs past : Int) : Prop :=
  Fresh instant span.nanos nowMs past → nowMs - past < span.asMillis ∧ span.asMillis < 2 ^ 63

theorem measured_ofMillis {millis : Nat} (fits : millis < 2 ^ 64) (small : millis < 2 ^ 63)
    (nowMs past : Int) : Measured (.ofMillis millis fits) nowMs past := by
  intro fresh
  have same : (Duration.ofMillis millis fits).asMillis = millis :=
    Nat.mul_div_cancel millis (by decide)
  have short : instant nowMs - instant past < (millis * 10 ^ 6 : Nat) := fresh
  rw [same]
  refine ⟨?_, small⟩
  unfold instant at short
  omega

namespace TriggerEntry

-- The cooldown is measured, and so is the limit's window for each fire in it, if it comes to that.
structure Steady (entry : TriggerEntry) (nowMs : Int) : Prop where
  cooldown : entry.enabled = true → ∀ last, entry.lastFireMs = some last →
    Measured entry.cooldown nowMs last
  window : entry.enabled = true → entry.coolsDown nowMs = false →
    ∀ limit, entry.rateLimit = some limit → ∀ fire ∈ limit.window,
      Measured limit.per nowMs fire ∧
        (Fresh instant limit.per.nanos nowMs fire → -2 ^ 63 ≤ nowMs - limit.per.asMillis)

variable {entry : TriggerEntry} {nowMs : Int}

theorem tryFire_cases (entry : TriggerEntry) (nowMs : Int) :
    (∃ outcome, outcome ≠ .fired ∧ entry.tryFire nowMs = (outcome, entry)) ∨
      entry.enabled = true ∧ entry.coolsDown nowMs = false ∧
        entry.tryFire nowMs = entry.applyRateThenRecord nowMs := by
  unfold tryFire
  split
  · next enabled =>
    split
    · exact .inl ⟨.coolingDown, by decide, rfl⟩
    · next cooled => exact .inr ⟨enabled, by simpa using cooled, rfl⟩
  · exact .inl ⟨.paused, by decide, rfl⟩

theorem applyRateThenRecord_cases (entry : TriggerEntry) (nowMs : Int) :
    entry.rateLimit = none ∧ entry.applyRateThenRecord nowMs = (.fired, entry.record nowMs) ∨
      ∃ own, entry.rateLimit = some own ∧
        ((own.evictBefore nowMs).window.length < own.maxFires ∧
            entry.applyRateThenRecord nowMs = (.fired, { entry with
              rateLimit := some { own.evictBefore nowMs with
                window := (own.evictBefore nowMs).window ++ [nowMs] } }.record nowMs) ∨
          ∃ decision queued, entry.applyRateThenRecord nowMs = (.rateLimited decision,
            { entry with rateLimit := some { own.evictBefore nowMs with queued } })) := by
  unfold applyRateThenRecord
  cases entry.rateLimit with
  | none => exact .inl ⟨rfl, rfl⟩
  | some own =>
    right
    refine ⟨own, rfl, ?_⟩
    dsimp only
    rcases own.checkAndRecord_cases nowMs with ⟨room, allowed⟩ | ⟨decision, queued, refused, checked⟩
    · rw [allowed]
      exact .inl ⟨room, rfl⟩
    · rw [checked]
      cases decision with
      | allow => exact absurd rfl refused
      | dropped | queued | backpressured => exact .inr ⟨_, queued, rfl⟩

theorem Steady.cooled (steady : entry.Steady nowMs) (enabled : entry.enabled = true)
    (warm : entry.coolsDown nowMs = false) {last : Int} (recent : entry.lastFireMs = some last)
    (le : last ≤ nowMs) : entry.cooldown.nanos ≤ instant nowMs - instant last := by
  by_contra early
  obtain ⟨short, fits⟩ := steady.cooldown enabled last recent (not_le.mp early)
  have gap : subI64 nowMs last = nowMs - last := by
    apply subI64_of_fits
    · omega
    · omega
  rw [coolsDown, recent] at warm
  simp only [gap, asI64_of_small fits, decide_eq_false_iff_not] at warm
  omega

theorem Steady.retains (steady : entry.Steady nowMs) (enabled : entry.enabled = true)
    (warm : entry.coolsDown nowMs = false) {limit : RateLimit}
    (limited : entry.rateLimit = some limit) (stamp : nowMs < 2 ^ 63) {fires : List Int}
    (retains : Retains instant limit.per.nanos limit.window fires nowMs) :
    Retains instant limit.per.nanos (limit.evictBefore nowMs).window fires nowMs := by
  apply retains.dropWhile
  intro fire member fresh
  obtain ⟨measured, fits⟩ := steady.window enabled warm limit limited fire member
  obtain ⟨short, small⟩ := measured fresh
  have horizon : subI64 nowMs (asI64 limit.per.asMillis) = nowMs - limit.per.asMillis := by
    rw [asI64_of_small small]
    apply subI64_of_fits
    · exact fits fresh
    · omega
  rw [horizon, decide_eq_false_iff_not]
  omega

end TriggerEntry

namespace Guard

-- The entry is what the guard has observed; no attempt was made after `bound`.
structure Tracks (guard : Guard) (entry : TriggerEntry) (bound : Int) : Prop where
  enabled : entry.enabled = !guard.paused
  cooldown : entry.cooldown = guard.cooldown
  last : entry.lastFireMs = guard.last
  recent : ∀ last, guard.last = some last → last ≤ bound
  limit : ∀ limit fires, guard.limit = some (limit, fires) → ∃ own, entry.rateLimit = some own ∧
    own.maxFires = limit.maxFires ∧ own.per = limit.per ∧
    Retains instant limit.per.nanos own.window fires bound ∧
    Limited instant limit.per.nanos limit.maxFires fires

variable {guard : Guard} {entry : TriggerEntry} {bound nowMs : Int}

theorem tracks_start (enabled : Bool) (bound : Int) :
    (start enabled).Tracks { TriggerEntry.new with enabled } bound where
  enabled := (Bool.not_not enabled).symm
  cooldown := rfl
  last := rfl
  recent _ none := by cases none
  limit _ _ none := by cases none

theorem Tracks.later (tracks : guard.Tracks entry bound) (le : bound ≤ nowMs) :
    guard.Tracks entry nowMs where
  enabled := tracks.enabled
  cooldown := tracks.cooldown
  last := tracks.last
  recent last some := (tracks.recent last some).trans le
  limit limit fires some := by
    obtain ⟨own, here, maxFires, per, retains, limited⟩ := tracks.limit limit fires some
    have later : instant bound ≤ instant nowMs := by
      unfold instant
      omega
    exact ⟨own, here, maxFires, per, retains.mono later, limited⟩

theorem Tracks.cooled (tracks : guard.Tracks entry nowMs) (steady : entry.Steady nowMs)
    (enabled : entry.enabled = true) (warm : entry.coolsDown nowMs = false) :
    guard.paused = false ∧
      ∀ last, guard.last = some last → guard.cooldown.nanos ≤ instant nowMs - instant last := by
  constructor
  · have same := tracks.enabled
    rw [enabled] at same
    simpa using same.symm
  · intro last some
    rw [← tracks.cooldown]
    exact steady.cooled enabled warm (tracks.last.trans some) (tracks.recent last some)

theorem Tracks.evicted (tracks : guard.Tracks entry nowMs) (steady : entry.Steady nowMs)
    (enabled : entry.enabled = true) (warm : entry.coolsDown nowMs = false) (stamp : nowMs < 2 ^ 63)
    {own : RateLimit} (limited : entry.rateLimit = some own) {limit : RateLimit} {fires : List Int}
    (there : guard.limit = some (limit, fires)) :
    own.maxFires = limit.maxFires ∧ own.per = limit.per ∧
      Retains instant limit.per.nanos (own.evictBefore nowMs).window fires nowMs ∧
      Limited instant limit.per.nanos limit.maxFires fires := by
  obtain ⟨other, here, maxFires, per, retains, few⟩ := tracks.limit limit fires there
  rw [limited, Option.some_inj] at here
  subst here
  rw [← per] at retains few ⊢
  exact ⟨maxFires, rfl, steady.retains enabled warm limited stamp retains, few⟩

theorem Tracks.applyRateThenRecord (tracks : guard.Tracks entry nowMs) (steady : entry.Steady nowMs)
    (enabled : entry.enabled = true) (warm : entry.coolsDown nowMs = false) (stamp : nowMs < 2 ^ 63)
    {outcome : FireOutcome} {after : TriggerEntry}
    (applied : entry.applyRateThenRecord nowMs = (outcome, after)) :
    (outcome = .fired → guard.Admits nowMs) ∧
      (guard.observe (.tryFire nowMs, .outcome outcome)).Tracks after nowMs := by
  obtain ⟨resumed, cooled⟩ := tracks.cooled steady enabled warm
  rcases entry.applyRateThenRecord_cases nowMs with
    ⟨limited, fired⟩ | ⟨own, limited, ⟨room, fired⟩ | ⟨decision, queued, kept⟩⟩
  · rw [fired] at applied
    cases applied
    have unlimited (limit : RateLimit) (fires : List Int) : guard.limit ≠ some (limit, fires) := by
      intro there
      obtain ⟨own, here, -⟩ := tracks.limit limit fires there
      rw [limited] at here
      cases here
    refine ⟨fun _ => ⟨resumed, cooled, ?_⟩, tracks.enabled, tracks.cooldown, rfl, ?_, ?_⟩
    · intro limit fires there
      exact absurd there (unlimited limit fires)
    · rintro last ⟨⟩
      exact le_rfl
    · intro limit fires there
      obtain ⟨pair, earlier, -⟩ := Option.map_eq_some_iff.mp there
      exact absurd earlier (unlimited pair.1 pair.2)
  · rw [fired] at applied
    cases applied
    refine ⟨fun _ => ⟨resumed, cooled, ?_⟩, tracks.enabled, tracks.cooldown, rfl, ?_, ?_⟩
    · intro limit fires there
      obtain ⟨maxFires, -, retains, few⟩ := tracks.evicted steady enabled warm stamp limited there
      exact few.admit retains (maxFires ▸ room)
    · rintro last ⟨⟩
      exact le_rfl
    · intro limit fires there
      obtain ⟨⟨_, before⟩, earlier, same⟩ := Option.map_eq_some_iff.mp there
      cases same
      obtain ⟨maxFires, per, retains, few⟩ := tracks.evicted steady enabled warm stamp limited earlier
      exact ⟨_, rfl, maxFires, per, retains.admit, few.admit retains (maxFires ▸ room)⟩
  · rw [kept] at applied
    cases applied
    refine ⟨nofun, tracks.enabled, tracks.cooldown, tracks.last, tracks.recent, ?_⟩
    intro limit fires there
    obtain ⟨maxFires, per, retains, few⟩ := tracks.evicted steady enabled warm stamp limited there
    exact ⟨_, rfl, maxFires, per, retains, few⟩

theorem Tracks.tryFire (tracks : guard.Tracks entry nowMs) (steady : entry.Steady nowMs)
    (stamp : nowMs < 2 ^ 63) {outcome : FireOutcome} {after : TriggerEntry}
    (tried : entry.tryFire nowMs = (outcome, after)) :
    (outcome = .fired → guard.Admits nowMs) ∧
      (guard.observe (.tryFire nowMs, .outcome outcome)).Tracks after nowMs := by
  rcases entry.tryFire_cases nowMs with ⟨other, refused, same⟩ | ⟨enabled, warm, same⟩
  · rw [tried] at same
    cases same
    refine ⟨fun fired => absurd fired refused, ?_⟩
    have unmoved : guard.observe (.tryFire nowMs, .outcome outcome) = guard := by
      cases outcome with
      | fired => exact absurd rfl refused
      | paused | coolingDown | rateLimited decision => rfl
    rw [unmoved]
    exact tracks
  · rw [tried] at same
    exact tracks.applyRateThenRecord steady enabled warm stamp same.symm

end Guard

namespace TriggerControl

def attempt : TriggerRequest → Option Int
  | .tryFire nowMs => some nowMs
  | _ => none

def SteadyAttempt (id : String) (control : TriggerControl) (request : TriggerRequest) : Prop :=
  ∀ nowMs entry, request = .tryFire nowMs → control id = some entry → entry.Steady nowMs

variable {control : TriggerControl} {id : String} {guard : Guard} {entry : TriggerEntry} {bound : Int}

theorem change_of_registered (change : TriggerEntry → TriggerEntry) (registered : control id = some entry) :
    control.change id change = (.existed true, Function.update control id (some (change entry))) := by
  rw [TriggerControl.change, registered]

theorem request_tracks (registered : control id = some entry) (tracks : guard.Tracks entry bound)
    (request : TriggerRequest) (steady : SteadyAttempt id control request)
    (stamped : ∀ nowMs, attempt request = some nowMs → bound ≤ nowMs ∧ nowMs < 2 ^ 63) :
    (∀ nowMs, (request, (control.request id request).1) = (.tryFire nowMs, .outcome .fired) →
        guard.Admits nowMs) ∧
      ∃ after, (control.request id request).2 id = some after ∧
        (guard.observe (request, (control.request id request).1)).Tracks after
          ((attempt request).getD bound) := by
  cases request with
  | setCooldown cooldown =>
    refine ⟨nofun, { entry with cooldown }, ?_, ?_⟩
    · simp [TriggerControl.request, setCooldown, change_of_registered _ registered]
    · exact ⟨tracks.enabled, rfl, tracks.last, tracks.recent, tracks.limit⟩
  | setRateLimit limit =>
    refine ⟨nofun, { entry with rateLimit := some limit }, ?_, ?_⟩
    · simp [TriggerControl.request, setRateLimit, change_of_registered _ registered]
    · refine ⟨tracks.enabled, tracks.cooldown, tracks.last, tracks.recent, ?_⟩
      rintro limit fires ⟨⟩
      exact ⟨limit, rfl, rfl, rfl, retains_nil _ _, limited_nil _⟩
  | pause =>
    refine ⟨nofun, { entry with enabled := false }, ?_, ?_⟩
    · simp [TriggerControl.request, pause, change_of_registered _ registered]
    · exact ⟨rfl, tracks.cooldown, tracks.last, tracks.recent, tracks.limit⟩
  | resume =>
    refine ⟨nofun, { entry with enabled := true }, ?_, ?_⟩
    · simp [TriggerControl.request, resume, change_of_registered _ registered]
    · exact ⟨rfl, tracks.cooldown, tracks.last, tracks.recent, tracks.limit⟩
  | tryFire nowMs =>
    obtain ⟨le, stamp⟩ := stamped nowMs rfl
    have tried : entry.tryFire nowMs = ((entry.tryFire nowMs).1, (entry.tryFire nowMs).2) := rfl
    obtain ⟨admits, tracked⟩ :=
      (tracks.later le).tryFire (steady nowMs entry rfl registered) stamp tried
    refine ⟨?_, (entry.tryFire nowMs).2, ?_, ?_⟩
    · intro other fired
      simp only [TriggerControl.request, TriggerControl.tryFire, registered, Prod.mk.injEq,
        TriggerRequest.tryFire.injEq, TriggerReply.outcome.injEq] at fired
      obtain ⟨rfl, fired⟩ := fired
      exact admits fired
    · simp [TriggerControl.request, TriggerControl.tryFire, registered]
    · simpa [TriggerControl.request, TriggerControl.tryFire, registered, attempt] using tracked

theorem run_tracks (registered : control id = some entry) (tracks : guard.Tracks entry bound)
    (requests : List TriggerRequest) (ordered : (requests.filterMap attempt).Pairwise (· ≤ ·))
    (after : ∀ nowMs ∈ requests.filterMap attempt, bound ≤ nowMs)
    (stamps : ∀ nowMs ∈ requests.filterMap attempt, nowMs < 2 ^ 63)
    (steady : Operations.Along (fun control => control.request id) (SteadyAttempt id) control requests) :
    guard.Upheld (Operations.trace (fun control => control.request id) control requests) := by
  induction requests generalizing control guard entry bound with
  | nil => trivial
  | cons request rest ih =>
    have stamped : ∀ nowMs, attempt request = some nowMs → bound ≤ nowMs ∧ nowMs < 2 ^ 63 := by
      intro nowMs here
      have member : nowMs ∈ (request :: rest).filterMap attempt := by simp [here]
      exact ⟨after nowMs member, stamps nowMs member⟩
    obtain ⟨admits, entry, registered, tracked⟩ :=
      request_tracks registered tracks request steady.1 stamped
    refine ⟨admits, ?_⟩
    cases here : attempt request with
    | none =>
      rw [here, Option.getD_none] at tracked
      rw [List.filterMap_cons_none here] at ordered after stamps
      exact ih registered tracked ordered after stamps steady.2
    | some nowMs =>
      rw [here, Option.getD_some] at tracked
      rw [List.filterMap_cons_some here] at ordered after stamps
      obtain ⟨first, ordered⟩ := List.pairwise_cons.mp ordered
      exact ih registered tracked ordered first (fun later member =>
        stamps later (List.mem_cons_of_mem nowMs member)) steady.2

/-- From its registration on a trigger admits no fire while it is paused, none before its cooldown has
passed and no more than its rate limit allows in any window, as long as the attempts are steady. -/
theorem guard_upheld (control : TriggerControl) (id : String) (enabled : Bool)
    (requests : List TriggerRequest) (ordered : (requests.filterMap attempt).Pairwise (· ≤ ·))
    (stamps : ∀ nowMs ∈ requests.filterMap attempt, nowMs < 2 ^ 63)
    (steady : Operations.Along (fun control => control.request id) (SteadyAttempt id)
      (control.registerCron id enabled) requests) :
    (Guard.start enabled).Upheld (Operations.trace (fun control => control.request id)
      (control.registerCron id enabled) requests) := by
  obtain ⟨bound, after⟩ : ∃ bound, ∀ nowMs ∈ requests.filterMap attempt, bound ≤ nowMs := by
    cases here : requests.filterMap attempt with
    | nil => exact ⟨0, by simp⟩
    | cons first rest =>
      rw [here] at ordered
      refine ⟨first, fun nowMs member => ?_⟩
      rcases List.mem_cons.mp member with rfl | later
      · exact le_rfl
      · exact (List.pairwise_cons.mp ordered).1 nowMs later
  have registered : control.registerCron id enabled id = some { TriggerEntry.new with enabled } :=
    Function.update_self id _ control
  exact run_tracks registered (Guard.tracks_start enabled bound) requests ordered after stamps steady

section Example

def forever : Duration := .ofMillis (2 ^ 64 - 1) (by decide)

theorem asMillis_forever : asI64 forever.asMillis = -1 := by
  have same : forever.asMillis = 2 ^ 64 - 1 := by decide
  rw [same, asI64_of_fits (by decide)]
  decide

-- A cooldown of 2^64 - 1 milliseconds is -1 millisecond as `i64`.
theorem guard_upheld_fails :
    ¬ (Guard.start true).Upheld (Operations.trace (fun control => TriggerControl.request control "desk")
      (TriggerControl.registerCron (fun _ => none) "desk" true)
      [.setCooldown forever, .tryFire 0, .tryFire 1]) := by
  have gap : subI64 1 0 = 1 := subI64_of_fits (by decide) (by decide)
  rintro ⟨-, -, again, -⟩
  have fired := again 1 (by
    simp [TriggerControl.request, registerCron, setCooldown, TriggerControl.change,
      TriggerControl.tryFire, TriggerEntry.tryFire, TriggerEntry.coolsDown,
      TriggerEntry.applyRateThenRecord, TriggerEntry.record, TriggerEntry.new, gap,
      asMillis_forever])
  have passed := fired.cooled 0 (by
    simp [Guard.observe, TriggerControl.request, registerCron, setCooldown, TriggerControl.change,
      TriggerControl.tryFire, TriggerEntry.tryFire, TriggerEntry.coolsDown,
      TriggerEntry.applyRateThenRecord, TriggerEntry.record, TriggerEntry.new])
  revert passed
  decide

def second : Duration := .ofMillis 1000 (by decide)

def paced : List TriggerRequest := [.setCooldown second, .tryFire 0, .tryFire 1000]

theorem guard_upheld_paced :
    (Guard.start true).Upheld (Operations.trace (fun control => TriggerControl.request control "desk")
      (TriggerControl.registerCron (fun _ => none) "desk" true) paced) := by
  apply guard_upheld (fun _ => none) "desk" true paced
  · decide
  · decide
  · refine ⟨nofun, ?_, ?_, trivial⟩
    · rintro nowMs entry ⟨⟩ registered
      simp [TriggerControl.request, registerCron, setCooldown, TriggerControl.change,
        TriggerEntry.new] at registered
      subst registered
      exact ⟨nofun, nofun⟩
    · rintro nowMs entry ⟨⟩ registered
      simp [TriggerControl.request, registerCron, setCooldown, TriggerControl.change,
        TriggerControl.tryFire, TriggerEntry.tryFire, TriggerEntry.coolsDown,
        TriggerEntry.applyRateThenRecord, TriggerEntry.record, TriggerEntry.new] at registered
      subst registered
      refine ⟨?_, nofun⟩
      rintro - last -
      exact measured_ofMillis (by decide) (by decide) 1000 last

end Example

end TriggerControl

end AtomrAgents
