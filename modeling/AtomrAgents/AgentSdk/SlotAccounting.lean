import AtomrAgents.AgentSdk.SlotTurns
import AtomrAgents.Shared.Operations

set_option autoImplicit false

/-! A session that is being started holds a slot, and so does a registered one. A `stop_session` gives back
the slot of the session that it removes, which another `stop_session` may have removed since it looked the
session up. -/

namespace AtomrAgents

open Shared

namespace AgentSdkHarness

def start (spec : AgentSdkHarnessSpec) (projection : List (String × List UInt8))
    (sandbox : Option SandboxHarness) (requests : List AgentSdkRequest) :
    Threads AgentSdkHarness AgentSdkCall where
  shared := { spec, projection, sessions := [], live := 0, sandbox, workspaces := fun _ => none }
  locals := requests.map .called

structure SlotsHeld (spec : AgentSdkHarnessSpec) (threads : Threads AgentSdkHarness AgentSdkCall) :
    Prop where
  counted : threads.shared.live =
    threads.shared.sessions.length + threads.locals.countP AgentSdkCall.starting
  capped : threads.shared.sessions.length ≤ spec.maxConcurrentSessions

def Wraps (threads next : Threads AgentSdkHarness AgentSdkCall) : Prop :=
  threads.shared.live = 0 ∧ next.shared.live = usizeSize - 1

-- A `stop_session` that comes to remove its session finds it once, and no workspace to tear down.
def StopsOnce (threads : Threads AgentSdkHarness AgentSdkCall) (event : Nat × AgentSdkAnswer) : Prop :=
  ∀ id, threads.locals[event.1]? = some (.closing id) →
    threads.shared.sessions.count id = 1 ∧ ¬ threads.shared.TearsDown id

structure SlotInvariant (spec : AgentSdkHarnessSpec) (threads : Threads AgentSdkHarness AgentSdkCall) :
    Prop where
  same : threads.shared.spec = spec
  accounted : Accounted spec.maxConcurrentSessions threads.shared.live threads.shared.sessions.length
    (threads.locals.countP AgentSdkCall.starting)
  owned : ∀ id, threads.shared.workspaces id ≠ none → id ∈ threads.shared.sessions
  quiet : threads.locals.countP AgentSdkCall.discards = 0

variable {spec : AgentSdkHarnessSpec} {threads next : Threads AgentSdkHarness AgentSdkCall}

theorem SlotInvariant.slotsHeld (invariant : SlotInvariant spec threads) : SlotsHeld spec threads where
  counted := invariant.accounted.counted
  capped := by
    obtain ⟨counted, capped⟩ := invariant.accounted
    omega

theorem slotInvariant_start (spec : AgentSdkHarnessSpec) (projection : List (String × List UInt8))
    (sandbox : Option SandboxHarness) (requests : List AgentSdkRequest) :
    SlotInvariant spec (start spec projection sandbox requests) where
  same := rfl
  accounted := by
    have none : (requests.map AgentSdkCall.called).countP AgentSdkCall.starting = 0 := by
      simp [List.countP_eq_zero, AgentSdkCall.starting]
    refine ⟨?_, Nat.zero_le _⟩
    rw [start, none]
    rfl
  owned id there := absurd rfl there
  quiet := by simp [start, List.countP_eq_zero, AgentSdkCall.discards]

theorem SlotInvariant.turned {answer : AgentSdkAnswer} {i : Nat} {own own' : AgentSdkCall}
    (invariant : SlotInvariant spec threads)
    (turned : Threads.Turn (AgentSdkCall.turn answer) threads i own own' next)
    (stays : ∀ id, own ≠ .closing id) : SlotInvariant spec next ∧ ¬ Wraps threads next := by
  obtain ⟨rfl, accounted, owned, quiet⟩ := invariant
  have own_keeps : own.discards = false := by
    have all := List.countP_eq_zero.mp quiet own (List.mem_of_getElem? turned.before)
    simpa using all
  obtain ⟨moved, keeps⟩ := AgentSdkCall.turn_slots turned.takes stays own_keeps
  have counted : next.locals.countP AgentSdkCall.starting + own.starting.toNat =
      threads.locals.countP AgentSdkCall.starting + own'.starting.toNat := by
    have counted := turned.countP_locals AgentSdkCall.starting
    cases held : own.starting <;> cases holds : own'.starting <;> simpa [held, holds] using counted
  refine ⟨⟨moved.spec_eq, moved.accounted counted accounted, moved.owned owned, ?_⟩, ?_⟩
  · have counted := turned.countP_locals AgentSdkCall.discards
    simpa [own_keeps, keeps, quiet] using counted
  · rintro ⟨none, wrapped⟩
    have le : next.shared.live ≤ 1 := moved.live_le_one counted accounted none
    rw [wrapped] at le
    exact absurd le (by decide)

structure Removed (id : AgentSessionId) (threads next : Threads AgentSdkHarness AgentSdkCall) : Prop where
  spec : next.shared.spec = threads.shared.spec
  sessions : next.shared.sessions = (threads.shared.unregister id).sessions
  workspaces : next.shared.workspaces = (threads.shared.unregister id).workspaces
  starting : next.locals.countP AgentSdkCall.starting = threads.locals.countP AgentSdkCall.starting

theorem removal {answer : AgentSdkAnswer} {i : Nat} {id : AgentSessionId} {own' : AgentSdkCall}
    (turned : Threads.Turn (AgentSdkCall.turn answer) threads i (.closing id) own' next) :
    Removed id threads next ∧
      ((¬ threads.shared.TearsDown id ∧ own'.discards = false ∧
          next.shared.live = AtomicUsize.fetchSub threads.shared.live) ∨
        (threads.shared.TearsDown id ∧ next.shared.live = threads.shared.live)) := by
  have takes : AgentSdkCall.remove id threads.shared = (own', next.shared) :=
    Option.some_inj.mp turned.takes
  have counted := turned.countP_locals AgentSdkCall.starting
  rcases threads.shared.remove_cases id with ⟨idle, stopped, view⟩ | ⟨tears, ⟨release, waits⟩, view⟩
  · rw [takes] at stopped view
    dsimp only at stopped view
    subst stopped
    refine ⟨⟨?_, ?_, ?_, ?_⟩, .inl ⟨idle, rfl, congrArg SlotView.live view⟩⟩
    · exact congrArg SlotView.spec view
    · exact congrArg SlotView.sessions view
    · exact congrArg SlotView.workspaces view
    · simpa [AgentSdkCall.starting] using counted
  · rw [takes] at waits view
    dsimp only at waits view
    subst waits
    refine ⟨⟨?_, ?_, ?_, ?_⟩, .inr ⟨tears, congrArg SlotView.live view⟩⟩
    · exact congrArg SlotView.spec view
    · exact congrArg SlotView.sessions view
    · exact congrArg SlotView.workspaces view
    · simpa [AgentSdkCall.starting] using counted

theorem SlotInvariant.removed {answer : AgentSdkAnswer} {i : Nat} {id : AgentSessionId}
    {own' : AgentSdkCall} (invariant : SlotInvariant spec threads)
    (turned : Threads.Turn (AgentSdkCall.turn answer) threads i (.closing id) own' next)
    (once : threads.shared.sessions.count id = 1) (idle : ¬ threads.shared.TearsDown id) :
    SlotInvariant spec next := by
  obtain ⟨rfl, accounted, owned, quiet⟩ := invariant
  have fewer := threads.shared.length_unregister id
  obtain ⟨removed, ⟨-, keeps, live⟩ | ⟨tears, -⟩⟩ := removal turned
  · refine ⟨removed.spec, ?_, ?_, ?_⟩
    · rw [live, removed.sessions, removed.starting]
      exact accounted.released (by omega)
    · intro other there
      rw [removed.workspaces] at there
      rw [removed.sessions]
      by_cases same : other = id
      · simp [unregister, same] at there
      · simp only [unregister, Function.update_of_ne same] at there
        simp [unregister, same, owned other there]
    · have counted := turned.countP_locals AgentSdkCall.discards
      rw [keeps, quiet] at counted
      simpa [AgentSdkCall.discards] using counted
  · exact absurd tears idle

theorem SlotInvariant.removed_once {answer : AgentSdkAnswer} {i : Nat} {id : AgentSessionId}
    {own' : AgentSdkCall} (invariant : SlotInvariant spec threads)
    (turned : Threads.Turn (AgentSdkCall.turn answer) threads i (.closing id) own' next)
    (held : SlotsHeld spec next) (steady : ¬ Wraps threads next) :
    threads.shared.sessions.count id = 1 ∧ ¬ threads.shared.TearsDown id := by
  have counted := invariant.accounted.counted
  have after := held.counted
  have fewer := threads.shared.length_unregister id
  obtain ⟨removed, ⟨idle, -, live⟩ | ⟨tears, live⟩⟩ := removal turned
  · refine ⟨?_, idle⟩
    rw [removed.sessions, removed.starting, live] at after
    rcases Nat.eq_zero_or_pos threads.shared.live with none | some
    · exact absurd ⟨none, by rw [live, none, AtomicUsize.fetchSub_zero]⟩ steady
    · rw [AtomicUsize.fetchSub_of_pos some] at after
      omega
  · rw [removed.sessions, removed.starting, live] at after
    -- a workspace is only torn down with a session that is registered
    obtain ⟨ws, sandbox, workspace, -, -⟩ := tears
    have member := invariant.owned id (by simp [workspace])
    have positive := List.count_pos_iff.mpr member
    omega

theorem usizeSize_pred_ne_zero : usizeSize - 1 ≠ 0 := by decide

theorem SlotInvariant.heard (invariant : SlotInvariant spec threads) (event : Nat × AgentSdkAnswer)
    (once : StopsOnce threads event) :
    SlotInvariant spec (Threads.heard AgentSdkCall.turn threads event).2 ∧
      ¬ Wraps threads (Threads.heard AgentSdkCall.turn threads event).2 := by
  obtain ⟨i, answer⟩ := event
  rcases Threads.heard_cases threads i answer with ⟨-, idle⟩ | ⟨own, own', turned⟩
  · rw [idle]
    refine ⟨invariant, ?_⟩
    rintro ⟨none, wrapped⟩
    exact usizeSize_pred_ne_zero (wrapped.symm.trans none)
  · by_cases removes : ∃ id, own = .closing id
    · obtain ⟨id, rfl⟩ := removes
      obtain ⟨one, idle⟩ := once id turned.before
      refine ⟨invariant.removed turned one idle, ?_⟩
      rintro ⟨none, -⟩
      have counted := invariant.accounted.counted
      have le := List.count_le_length (a := id) (l := threads.shared.sessions)
      omega
    · exact invariant.turned turned fun id same => removes ⟨id, same⟩

theorem SlotInvariant.stopsOnce_iff (invariant : SlotInvariant spec threads)
    (event : Nat × AgentSdkAnswer) :
    StopsOnce threads event ↔
      SlotsHeld spec (Threads.heard AgentSdkCall.turn threads event).2 ∧
        ¬ Wraps threads (Threads.heard AgentSdkCall.turn threads event).2 := by
  constructor
  · intro once
    obtain ⟨kept, steady⟩ := invariant.heard event once
    exact ⟨kept.slotsHeld, steady⟩
  · rintro ⟨held, steady⟩ id here
    obtain ⟨i, answer⟩ := event
    rcases Threads.heard_cases threads i answer with ⟨stuck, -⟩ | ⟨own, own', turned⟩
    · have able : AgentSdkCall.turn answer (.closing id) threads.shared ≠ none := by
        simp [AgentSdkCall.turn]
      exact absurd stuck (Threads.step_ne_none here able)
    · have same : own = .closing id := Option.some_inj.mp (turned.before.symm.trans here)
      subst same
      exact invariant.removed_once turned held steady

/-- In a run of any calls the slots are in order after every turn just when each `stop_session` finds its
session as it removes it, once, and no workspace that it has to wait for. -/
theorem slots_accounted (spec : AgentSdkHarnessSpec) (projection : List (String × List UInt8))
    (sandbox : Option SandboxHarness) (requests : List AgentSdkRequest)
    (schedule : List (Nat × AgentSdkAnswer)) :
    Operations.Along (Threads.heard AgentSdkCall.turn)
        (fun threads event =>
          SlotsHeld spec (Threads.heard AgentSdkCall.turn threads event).2 ∧
            ¬ Wraps threads (Threads.heard AgentSdkCall.turn threads event).2)
        (start spec projection sandbox requests) schedule ↔
      Operations.Along (Threads.heard AgentSdkCall.turn) StopsOnce
        (start spec projection sandbox requests) schedule := by
  symm
  apply Operations.along_congr (SlotInvariant spec)
  · intro threads event invariant
    exact invariant.stopsOnce_iff event
  · intro threads event invariant once
    exact (invariant.heard event once).1
  · exact slotInvariant_start spec projection sandbox requests

section Example

def cloud : AgentSdkHarnessSpec where
  defaultModel := some "claude-opus-4-8"
  fallbackModel := none
  defaultSettingSources := [.project]
  defaultEffort := none
  maxConcurrentSessions := 16
  defaultMaxTurns := none
  workspace :=
    { enabled := false, profile := .pythonAndNpm, backend := none, onClose := .discard, reuseWarm := true }
  fits := by decide

def fine : AgentSdkAnswer where
  isDir := true
  materialized := .ok ()
  sandbox := { provisioned := .ok { id := "sbx-1", profile := .pythonAndNpm }, tornDown := .ok () }
  written := .ok ()
  snapshot := .ok "snap-1"
  connected := .ok "agent-sess-1"
  sent := .ok ()
  closed := .ok ()
  outcome := .ok { subtype := "success", result := none, isError := false }

-- The session is started, and two calls stop it: both look it up before one of them removes it.
theorem slots_accounted_fails :
    ¬ Operations.Along (Threads.heard AgentSdkCall.turn)
      (fun threads event =>
        SlotsHeld cloud (Threads.heard AgentSdkCall.turn threads event).2 ∧
          ¬ Wraps threads (Threads.heard AgentSdkCall.turn threads event).2)
      (start cloud [] none [.open_ (.session { config := .default, initialPrompt := none }),
        .stop "agent-sess-1", .stop "agent-sess-1"])
      [(0, fine), (0, fine), (1, fine), (2, fine), (1, fine), (2, fine)] := by
  rintro ⟨-, -, -, -, -, ⟨-, steady⟩, -⟩
  exact steady ⟨by rfl, by rfl⟩

end Example

end AgentSdkHarness

end AtomrAgents
