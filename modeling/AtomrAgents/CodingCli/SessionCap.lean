import AtomrAgents.CodingCli.Interactive

set_option autoImplicit false

namespace AtomrAgents.CodingCli

open Shared

def InteractiveCall.opens : InteractiveCall → Bool
  | .opening .. => true
  | _ => false

abbrev Sessions := Threads CodingCliHarness InteractiveCall

variable {threads next : Sessions} {answer : IsolatorAnswer} {harness harness' : CodingCliHarness}
  {own own' : InteractiveCall} {i : Nat}

-- The sessions that are registered, and those that will be if their starting succeeds.
def claimed (threads : Sessions) : Nat :=
  threads.shared.sessions.length + threads.locals.countP InteractiveCall.opens

def cap (threads : Sessions) : Nat := threads.shared.spec.maxConcurrentSessions

def FindsOwnRoom (threads : Sessions) (event : Nat × IsolatorAnswer) : Prop :=
  ∀ req req' id, threads.locals[event.1]? = some (.called (.start req id)) →
    threads.shared.beginStart event.2 req = .ok req' → claimed threads < cap threads

inductive Effect (answer : IsolatorAnswer) (harness : CodingCliHarness) (own own' : InteractiveCall)
    (harness' : CodingCliHarness) : Prop where
  | checked (req req' : CliRequest) (id : CliSessionId) (start : own = .called (.start req id))
      (begun : harness.beginStart answer req = .ok req') (opens : own'.opens = true)
      (same : harness'.sessions = harness.sessions)
  | registered (before : own.opens = true) (after : own'.opens = false)
      (more : harness'.sessions.length = harness.sessions.length + 1)
  | settled (before : own'.opens = true → own.opens = true)
      (fewer : harness'.sessions.length ≤ harness.sessions.length)

theorem turn_effect (takes : own.turn answer harness = some (own', harness')) :
    harness'.spec = harness.spec ∧ Effect answer harness own own' harness' := by
  cases own with
  | called request =>
    cases request with
    | start req id =>
      simp only [InteractiveCall.turn] at takes
      split at takes
      · cases takes
        exact ⟨rfl, .settled (fun opens => by cases opens) (Nat.le_refl _)⟩
      · next begun =>
        cases takes
        exact ⟨rfl, .checked req _ id rfl begun rfl rfl⟩
    | stop id =>
      simp only [InteractiveCall.turn] at takes
      split at takes
      all_goals
        cases takes
        exact ⟨rfl, .settled (fun opens => by cases opens) (Nat.le_refl _)⟩
  | opening stage id req =>
    simp only [InteractiveCall.turn, Option.some_inj] at takes
    cases stage <;> simp only [CodingCliHarness.openSession] at takes <;> split at takes
    all_goals first
      | cases takes
        exact ⟨rfl, .settled (fun _ => rfl) (Nat.le_refl _)⟩
      | split at takes
        all_goals
          cases takes
          exact ⟨rfl, .settled (fun _ => rfl) (Nat.le_refl _)⟩
      | cases takes
        exact ⟨rfl, .registered rfl rfl (by simp [SessionRegistry.insert])⟩
  | closing stage handle =>
    simp only [InteractiveCall.turn, Option.some_inj] at takes
    cases stage with
    | detaching =>
      cases takes
      exact ⟨rfl, .settled (fun opens => by cases opens) (Nat.le_refl _)⟩
    | killing =>
      simp only [CodingCliHarness.closeSession] at takes
      split at takes
      all_goals
        cases takes
        exact ⟨rfl, .settled (fun opens => by cases opens) (Nat.le_refl _)⟩
    | reaping =>
      cases takes
      exact ⟨rfl, .settled (fun opens => by cases opens) (List.length_filter_le _ _)⟩
  | started _ => cases takes
  | stopped _ => cases takes

theorem claimed_turn (turned : Threads.Turn (InteractiveCall.turn answer) threads i own own' next) :
    cap next = cap threads ∧
      ((∃ req req' id, own = .called (.start req id) ∧ threads.shared.beginStart answer req = .ok req') ∧
          claimed next = claimed threads + 1 ∨
        claimed next ≤ claimed threads) := by
  obtain ⟨spec, effect⟩ := turn_effect turned.takes
  have counted := turned.countP_locals InteractiveCall.opens
  refine ⟨by rw [cap, spec, cap], ?_⟩
  cases effect with
  | checked req req' id start begun opens same =>
    left
    refine ⟨⟨req, req', id, start, begun⟩, ?_⟩
    rw [start, opens] at counted
    simp only [InteractiveCall.opens, Bool.false_eq_true, if_false, if_true] at counted
    rw [claimed, same, claimed]
    omega
  | registered before after more =>
    right
    rw [before, after] at counted
    simp only [Bool.false_eq_true, if_false, if_true] at counted
    rw [claimed, more, claimed]
    omega
  | settled before fewer =>
    right
    rw [claimed, claimed]
    cases opens : own'.opens with
    | true =>
      rw [before opens, opens] at counted
      omega
    | false =>
      rw [opens] at counted
      simp only [Bool.false_eq_true, if_false] at counted
      omega

section Run

variable (spec : CodingCliHarnessSpec) (vendors : List CliVendorKind) (requests : List InteractiveRequest)

def calls : Sessions where
  shared := { spec, vendors, sessions := [] }
  locals := requests.map .called

theorem claimed_calls : claimed (calls spec vendors requests) = 0 := by
  simp [claimed, calls, InteractiveCall.opens]

theorem heard_claimed (event : Nat × IsolatorAnswer) (within : claimed threads ≤ cap threads)
    (room : FindsOwnRoom threads event) :
    let next := (Threads.heard InteractiveCall.turn threads event).2
    claimed next ≤ cap next ∧ cap next = cap threads := by
  obtain ⟨i, answer⟩ := event
  rcases Threads.heard_cases threads i answer with ⟨-, idle⟩ | ⟨own, own', turned⟩
  · rw [idle]
    exact ⟨within, rfl⟩
  · obtain ⟨same, ⟨⟨req, req', id, rfl, begun⟩, more⟩ | fewer⟩ := claimed_turn turned
    · have own := room req req' id turned.before begun
      dsimp only
      omega
    · dsimp only
      omega

theorem final_claimed (schedule : List (Nat × IsolatorAnswer)) (within : claimed threads ≤ cap threads)
    (room : Operations.Along (Threads.heard InteractiveCall.turn) FindsOwnRoom threads schedule) :
    let last := Operations.final (Threads.heard InteractiveCall.turn) threads schedule
    claimed last ≤ cap last ∧ cap last = cap threads := by
  have kept := Operations.final_invariant FindsOwnRoom
    (fun state => claimed state ≤ cap state ∧ cap state = cap threads)
    (fun state event held room => by
      have next := heard_claimed event held.1 room
      exact ⟨next.1, next.2.trans held.2⟩)
    threads schedule ⟨within, rfl⟩ room
  exact kept

def fine : IsolatorAnswer where
  isDir := true
  materialized := .ok ()
  spawned := .ok ()
  waited := .ok { code := some 0, success := true }

theorem heard_opening {stage : Opening} {id : CliSessionId} {req : CliRequest}
    (here : threads.locals[i]? = some (.opening stage id req)) :
    Threads.Turn (InteractiveCall.turn fine) threads i (.opening stage id req)
      (threads.shared.openSession fine id req stage).1 (Threads.heard InteractiveCall.turn threads (i, fine)).2 ∧
    (Threads.heard InteractiveCall.turn threads (i, fine)).2.shared =
      (threads.shared.openSession fine id req stage).2 := by
  rcases Threads.heard_cases threads i fine with ⟨stuck, -⟩ | ⟨own, own', turned⟩
  · have able : InteractiveCall.turn fine (.opening stage id req) threads.shared ≠ none := by
      simp [InteractiveCall.turn]
    exact absurd stuck (Threads.step_ne_none here able)
  · obtain rfl : own = .opening stage id req := Option.some_inj.mp (turned.before.symm.trans here)
    have takes := turned.takes
    simp only [InteractiveCall.turn, Option.some_inj] at takes
    rw [takes]
    exact ⟨turned, rfl⟩

theorem heard_advances {stage stage' : Opening} {id : CliSessionId} {req : CliRequest}
    (here : threads.locals[i]? = some (.opening stage id req))
    (stays : threads.shared.openSession fine id req stage = (.opening stage' id req, threads.shared)) :
    let next := (Threads.heard InteractiveCall.turn threads (i, fine)).2
    next.locals[i]? = some (.opening stage' id req) ∧ next.shared = threads.shared ∧
      next.locals.countP InteractiveCall.opens = threads.locals.countP InteractiveCall.opens := by
  obtain ⟨turned, shared⟩ := heard_opening here
  rw [stays] at turned shared
  have counted := turned.countP_locals InteractiveCall.opens
  simp only [InteractiveCall.opens, if_true] at counted
  exact ⟨turned.after, shared, by omega⟩

def Registers (threads : Sessions) : Prop :=
  ∃ events, let last := Operations.final (Threads.heard InteractiveCall.turn) threads events
    claimed last = claimed threads ∧ cap last = cap threads ∧
      last.locals.countP InteractiveCall.opens + 1 = threads.locals.countP InteractiveCall.opens

variable {id : CliSessionId} {req : CliRequest}

theorem registers_attaching (here : threads.locals[i]? = some (.opening .attaching id req)) :
    Registers threads := by
  obtain ⟨turned, shared⟩ := heard_opening here
  have registered : threads.shared.openSession fine id req .attaching =
      (.started (.ok (CodingCliHarness.handleOf id req)), { threads.shared with
        sessions := SessionRegistry.insert threads.shared.sessions (CodingCliHarness.handleOf id req) }) := rfl
  rw [registered] at turned shared
  have counted := turned.countP_locals InteractiveCall.opens
  simp only [InteractiveCall.opens, if_true, Bool.false_eq_true, if_false] at counted
  refine ⟨[(i, fine)], ?_⟩
  simp only [Operations.final, claimed, cap, shared, SessionRegistry.insert, List.length_append,
    List.length_singleton]
  exact ⟨by omega, trivial, by omega⟩

theorem Registers.earlier {stage stage' : Opening} (here : threads.locals[i]? = some (.opening stage id req))
    (stays : threads.shared.openSession fine id req stage = (.opening stage' id req, threads.shared))
    (later : ∀ {next : Sessions}, next.locals[i]? = some (.opening stage' id req) → Registers next) :
    Registers threads := by
  obtain ⟨there, shared, counted⟩ := heard_advances here stays
  obtain ⟨events, same, kept, fewer⟩ := later there
  refine ⟨(i, fine) :: events, ?_⟩
  simp only [Operations.final]
  refine ⟨same.trans ?_, kept.trans ?_, fewer.trans counted⟩
  · rw [claimed, shared, counted, claimed]
  · rw [cap, shared, cap]

theorem registers_opening {stage : Opening} (here : threads.locals[i]? = some (.opening stage id req)) :
    Registers threads := by
  have waiting {threads : Sessions} (here : threads.locals[i]? = some (.opening .waiting id req)) :
      Registers threads := Registers.earlier here rfl registers_attaching
  have creating {threads : Sessions} (here : threads.locals[i]? = some (.opening .creating id req)) :
      Registers threads := Registers.earlier here rfl waiting
  cases stage with
  | materializing => exact Registers.earlier here rfl creating
  | creating => exact creating here
  | waiting => exact waiting here
  | attaching => exact registers_attaching here

theorem claimed_overflows (excess : cap threads < claimed threads) :
    ∃ more, let last := Operations.final (Threads.heard InteractiveCall.turn) threads more
      cap threads < last.shared.sessions.length := by
  induction open_ : threads.locals.countP InteractiveCall.opens generalizing threads with
  | zero =>
    rw [claimed, open_] at excess
    exact ⟨[], excess⟩
  | succ n ih =>
    have some : 0 < threads.locals.countP InteractiveCall.opens := by omega
    obtain ⟨call, member, opens⟩ := List.countP_pos_iff.mp some
    obtain ⟨i, here⟩ := List.mem_iff_getElem?.mp member
    cases call with
    | opening stage id req =>
      obtain ⟨events, same, kept, fewer⟩ := registers_opening here
      obtain ⟨more, full⟩ := ih (by rw [same, kept]; exact excess) (by omega)
      refine ⟨events ++ more, ?_⟩
      rw [Operations.final_append]
      rwa [kept] at full
    | _ => cases opens

theorem heard_start {req' : CliRequest} (here : threads.locals[i]? = some (.called (.start req id)))
    (begun : threads.shared.beginStart answer req = .ok req') :
    let next := (Threads.heard InteractiveCall.turn threads (i, answer)).2
    claimed next = claimed threads + 1 ∧ cap next = cap threads := by
  have takes : InteractiveCall.turn answer (.called (.start req id)) threads.shared =
      some (.opening .materializing id req', threads.shared) := by
    simp only [InteractiveCall.turn, begun]
  have able : InteractiveCall.turn answer (.called (.start req id)) threads.shared ≠ none := by simp [takes]
  rcases Threads.heard_cases threads i answer with ⟨stuck, -⟩ | ⟨own, own', turned⟩
  · exact absurd stuck (Threads.step_ne_none here able)
  · obtain rfl : own = .called (.start req id) := Option.some_inj.mp (turned.before.symm.trans here)
    have did := turned.takes
    rw [takes, Option.some_inj, Prod.mk.injEq] at did
    obtain ⟨rfl, shared⟩ := did
    have counted := turned.countP_locals InteractiveCall.opens
    simp only [InteractiveCall.opens, if_true, Bool.false_eq_true, if_false] at counted
    dsimp only
    rw [claimed, cap, ← shared, claimed, cap]
    exact ⟨by omega, rfl⟩

/-- While each start finds room of its own the cap is kept. From a start that finds room another one has found,
the run may go past it: when all that have found room are registered. -/
theorem sessions_capped (schedule : List (Nat × IsolatorAnswer)) :
    (Operations.Along (Threads.heard InteractiveCall.turn) FindsOwnRoom (calls spec vendors requests) schedule →
      (Operations.final (Threads.heard InteractiveCall.turn) (calls spec vendors requests)
        schedule).shared.sessions.length ≤ spec.maxConcurrentSessions) ∧
    (¬ Operations.Along (Threads.heard InteractiveCall.turn) FindsOwnRoom (calls spec vendors requests) schedule →
      ∃ front more, front <+: schedule ∧ spec.maxConcurrentSessions <
        (Operations.final (Threads.heard InteractiveCall.turn) (calls spec vendors requests)
          (front ++ more)).shared.sessions.length) := by
  have within : claimed (calls spec vendors requests) ≤ cap (calls spec vendors requests) := by
    rw [claimed_calls]
    exact Nat.zero_le _
  constructor
  · intro room
    obtain ⟨kept, same⟩ := final_claimed schedule within room
    rw [same] at kept
    exact Nat.le_trans (Nat.le_add_right _ _) kept
  · intro broken
    obtain ⟨front, ⟨i, answer⟩, rest, rfl, room, breaks⟩ := Operations.exists_break _ schedule broken
    obtain ⟨-, same⟩ := final_claimed front within room
    unfold FindsOwnRoom at breaks
    push Not at breaks
    obtain ⟨req, req', id, here, begun, full⟩ := breaks
    obtain ⟨more, kept⟩ := heard_start here begun
    obtain ⟨rest', excess⟩ := claimed_overflows (by rw [more, kept]; exact Nat.lt_succ_of_le full)
    refine ⟨front, (i, answer) :: rest', List.prefix_append _ _, ?_⟩
    rw [Operations.final_append]
    rwa [kept, same] at excess

end Run

section Example

def project : CliRequest where
  vendor := .claude
  workdir := "/work"
  mode := .headless
  model := none

theorem oneSession_capped : (Operations.final (Threads.heard InteractiveCall.turn)
    (calls { defaultModel := none, maxConcurrentSessions := 1 } [.claude]
      [.start project "cli-sess-1", .start project "cli-sess-2"])
    [(0, fine), (0, fine), (0, fine), (0, fine), (0, fine), (1, fine)]).shared.sessions.length ≤ 1 := by
  apply (sessions_capped _ _ _ _).1
  refine ⟨?_, ?_, ?_, ?_, ?_, ?_, trivial⟩ <;> intro req req' id here begun
  · decide
  · cases here
  · cases here
  · cases here
  · cases here
  · cases here
    cases begun

-- Both calls check the registry before one of them has registered its session.
theorem sessions_overflow : ¬ ∀ (spec : CodingCliHarnessSpec) vendors requests schedule,
    (Operations.final (Threads.heard InteractiveCall.turn) (calls spec vendors requests)
      schedule).shared.sessions.length ≤ spec.maxConcurrentSessions := by
  intro kept
  have bound := kept { defaultModel := none, maxConcurrentSessions := 1 } [.claude]
    [.start project "cli-sess-1", .start project "cli-sess-2"]
    [(0, fine), (1, fine), (0, fine), (0, fine), (0, fine), (0, fine), (1, fine), (1, fine), (1, fine), (1, fine)]
  exact absurd bound (by decide)

end Example

end AtomrAgents.CodingCli
