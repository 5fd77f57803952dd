import AtomrAgents.AgentSdk.SlotAccounting
import AtomrAgents.Sandbox.Quota

set_option autoImplicit false

namespace AtomrAgents

open Shared

namespace AgentSdkHarness

def registry (harness : AgentSdkHarness) : Option (Table SandboxInfo.id) :=
  harness.sandbox.map (·.sandboxes)

structure Restored (before after : AgentSdkHarness) : Prop where
  sessions : after.sessions = before.sessions
  live : after.live = before.live
  registry : after.registry = before.registry

def Added (before after : AgentSdkHarness) (id : SandboxId) : Prop :=
  ∃ info sandboxes, info.id = id ∧ before.registry = some sandboxes ∧
    sandboxes.find id = none ∧ after.registry = some (sandboxes.upsert info)

structure Holds (before : AgentSdkHarness) (slot : Bool) (sandbox : Option SandboxId)
    (after : AgentSdkHarness) : Prop where
  sessions : after.sessions = before.sessions
  live : after.live = before.live + slot.toNat
  registry : match sandbox with
    | none => after.registry = before.registry
    | some id => Added before after id

variable {before after harness : AgentSdkHarness} {answer : AgentSdkAnswer} {slot : Bool}
  {sandbox : Option SandboxId} {id : SandboxId} {ws : SessionWorkspace}

theorem Holds.restored (holds : Holds before false none harness) : Restored before harness :=
  ⟨holds.sessions, holds.live, holds.registry⟩

theorem Holds.refl (harness : AgentSdkHarness) : Holds harness false none harness :=
  ⟨rfl, rfl, rfl⟩

theorem Added.not_restored (added : Added before after id) : ¬ Restored before after := by
  rintro ⟨-, -, registry⟩
  obtain ⟨info, sandboxes, rfl, there, absent, more⟩ := added
  rw [more, there, Option.some_inj] at registry
  have length := congrArg (fun table => table.rows.length) registry
  simp [Table.rows_upsert_of_absent absent] at length

theorem Holds.of_view (holds : Holds before slot sandbox harness) (view : after.view = harness.view)
    (registry : after.registry = harness.registry) : Holds before slot sandbox after where
  sessions := (congrArg SlotView.sessions view).trans holds.sessions
  live := (congrArg SlotView.live view).trans holds.live
  registry := by
    have kept := holds.registry
    cases sandbox with
    | none => exact registry.trans kept
    | some id =>
      obtain ⟨info, sandboxes, same, there, absent, more⟩ := kept
      exact ⟨info, sandboxes, same, there, absent, registry.trans more⟩

theorem Holds.releaseSlot (holds : Holds before true sandbox harness) :
    Holds before false sandbox harness.releaseSlot where
  sessions := holds.sessions
  live := by
    have live : harness.live = before.live + 1 := holds.live
    simp [AgentSdkHarness.releaseSlot, live, AtomicUsize.fetchSub_of_pos]
  registry := holds.registry

theorem workspaceRequest_sandboxes (cfg : SandboxWorkspaceConfig) (sandbox : SandboxHarness) :
    (workspaceRequest cfg sandbox).2.sandboxes = sandbox.sandboxes := by
  unfold workspaceRequest
  split <;> rfl

theorem beginWorkspace_registry (harness : AgentSdkHarness) :
    harness.beginWorkspace.2.registry = harness.registry := by
  unfold beginWorkspace registry
  split
  · split
    · rfl
    · next sandbox there =>
      have same := workspaceRequest_sandboxes harness.spec.workspace sandbox
      rw [there, Option.map_some, ← same]
      generalize workspaceRequest harness.spec.workspace sandbox = request
      rcases request.2.beginCreate_cases request.1 with ⟨e, refused⟩ | ⟨-, begun⟩
      · simp [refused]
      · simp [begun]
  · rfl

theorem Holds.finishWorkspace (holds : Holds before slot none harness)
    (fresh : ∀ info sandboxes, answer.sandbox.provisioned = .ok info →
      harness.registry = some sandboxes → sandboxes.find info.id = none) :
    match harness.finishWorkspace answer with
    | (.ok info, after) => Holds before slot (some info.id) after
    | (.error _, after) => Holds before slot none after := by
  have view := harness.finishWorkspace_view answer
  unfold AgentSdkHarness.finishWorkspace at view ⊢
  cases there : harness.sandbox with
  | none => exact holds
  | some sandbox =>
    rw [there] at view
    have here : harness.registry = some sandbox.sandboxes := by
      rw [AgentSdkHarness.registry, there, Option.map_some]
    cases provisioned : answer.sandbox.provisioned with
    | error e =>
      simp only [SandboxHarness.register]
      exact holds.of_view rfl here.symm
    | ok info =>
      have absent := fresh info sandbox.sandboxes provisioned here
      simp only [SandboxHarness.register, SandboxHarness.get, Table.find_upsert, if_true]
      refine ⟨holds.sessions, holds.live, info, sandbox.sandboxes, rfl, ?_, absent, rfl⟩
      exact holds.registry.symm.trans here

theorem offerWarm_registry (harness : AgentSdkHarness) (ws : SessionWorkspace)
    (answer : AgentSdkAnswer) : (harness.offerWarm ws answer).registry = harness.registry := by
  unfold offerWarm registry
  split
  · next sandbox snap there found => simp [there]
  · rfl

theorem Holds.beginTearDown (holds : Holds before slot (some ws.sandboxId) harness) :
    (harness.beginTearDown ws).1 = some (.tearingDown ws) ∧
      Holds before slot none (harness.beginTearDown ws).2 := by
  obtain ⟨sessions, live, info, sandboxes, same, there, absent, more⟩ := holds
  obtain ⟨sandbox, here, rows⟩ := Option.map_eq_some_iff.mp more
  have found : sandbox.sandboxes.find ws.sandboxId = some info := by
    rw [rows, Table.find_upsert, if_pos same]
  have gone : sandbox.sandboxes.delete ws.sandboxId = sandboxes := by
    rw [← same] at absent
    rw [rows, ← same, Table.delete_upsert_of_absent absent]
  have begun : sandbox.beginDestroy ws.sandboxId =
      (.ok (), { sandbox with sandboxes := sandboxes }.releaseSlot) := by
    rw [SandboxHarness.beginDestroy, found, gone]
  unfold AgentSdkHarness.beginTearDown
  rw [here]
  simp only [begun]
  exact ⟨trivial, sessions, live, there.symm⟩

theorem Holds.beginRelease (holds : Holds before slot (some ws.sandboxId) harness) :
    ((harness.beginRelease ws).1 = some (.snapshotting ws) ∧
        Holds before slot (some ws.sandboxId) (harness.beginRelease ws).2) ∨
      ((harness.beginRelease ws).1 = some (.tearingDown ws) ∧
        Holds before slot none (harness.beginRelease ws).2) := by
  have tornDown := holds.beginTearDown
  unfold AgentSdkHarness.beginRelease
  split
  · obtain ⟨-, -, info, sandboxes, -, -, -, more⟩ := holds
    next gone => simp [AgentSdkHarness.registry, gone] at more
  · split
    · exact .inl ⟨rfl, holds⟩
    · exact .inr tornDown

end AgentSdkHarness

def Release.left : Release → Option SandboxId
  | .snapshotting ws => some ws.sandboxId
  | .tearingDown _ => none

namespace AgentSdkCall

open AgentSdkHarness

-- What the call holds in each phase; a session that is registered is there to stay.
def Grip (before : AgentSdkHarness) (state : AgentSdkCall × AgentSdkHarness) : Prop :=
  match state.1 with
  | .called (.open_ _) => state.2 = before
  | .preparing opening (.creating _) => Holds before opening.holds none state.2
  | .preparing opening (.staging info _ _) => Holds before opening.holds (some info.id) state.2
  | .connecting _ workspace => Holds before true (workspace.map (·.sandboxId)) state.2
  | .unwinding _ release => Holds before true release.left state.2
  | .sending id _ => state.2.sessions = before.sessions ++ [id]
  | .querying _ workspace => Holds before false (workspace.map (·.sandboxId)) state.2
  | .cleaning _ release => Holds before false release.left state.2
  | .started (.error _) | .ran (.error _) => Holds before false none state.2
  | .started (.ok _) | .ran (.ok _) => True
  | .called (.stop _) | .closing _ | .discarding _ | .stopped _ => False

def Failed (call : AgentSdkCall) : Prop := (∃ e, call = .started (.error e)) ∨ ∃ e, call = .ran (.error e)

variable {before harness : AgentSdkHarness} {answer : AgentSdkAnswer} {slot : Bool}

theorem Grip.restored {state : AgentSdkCall × AgentSdkHarness} (grip : Grip before state)
    (failed : state.1.Failed) : Restored before state.2 := by
  obtain ⟨call, harness⟩ := state
  rcases failed with ⟨e, rfl⟩ | ⟨e, rfl⟩
  · exact Holds.restored grip
  · exact Holds.restored grip

theorem refused_grip (opening : Opening) (e : HarnessError) (holds : Holds before false none harness) :
    Grip before (refused opening e, harness) := by
  cases opening with
  | session spec => exact holds
  | query req => exact holds

theorem fail_grip (opening : Opening) (e : HarnessError)
    (holds : Holds before opening.holds none harness) : Grip before (fail opening e harness) := by
  cases opening with
  | session spec => exact Holds.releaseSlot holds
  | query req => exact holds

theorem prepared_grip (opening : Opening) (workspace : Option SessionWorkspace)
    (holds : Holds before opening.holds (workspace.map (·.sandboxId)) harness) :
    Grip before (prepared opening workspace, harness) := by
  cases opening with
  | session spec => exact holds
  | query req => exact holds

theorem staged_grip (opening : Opening) (info : SandboxInfo) (files : List (String × List UInt8))
    (holds : Holds before opening.holds (some info.id) harness) :
    Grip before (staged opening info files harness, harness) := by
  cases files with
  | nil =>
    cases opening with
    | session spec => exact holds
    | query req => exact holds
  | cons file rest => exact holds

theorem prepare_grip (opening : Opening) (holds : Holds before opening.holds none harness) :
    Grip before (prepare answer opening harness) := by
  have holds := holds.of_view harness.beginWorkspace_view harness.beginWorkspace_registry
  unfold prepare
  split
  · next e after begun =>
    rw [begun] at holds
    exact fail_grip opening e holds
  · next sent after begun =>
    rw [begun] at holds
    exact holds
  · next after begun =>
    rw [begun] at holds
    split
    · exact fail_grip opening _ holds
    · exact prepared_grip opening none holds

theorem begin_grip (opening : Opening) : Grip harness (begin answer opening harness) := by
  unfold begin
  split
  · exact refused_grip opening _ (Holds.refl harness)
  · cases opening with
    | query req => exact prepare_grip (.query _) (Holds.refl harness)
    | session spec =>
      rcases reserveSlot_cases harness with ⟨e, full⟩ | ⟨-, reserved⟩
      · simp only [Opening.withConfig, full]
        exact refused_grip (.session _) e (Holds.refl harness)
      · simp only [Opening.withConfig, reserved]
        exact prepare_grip (.session _) ⟨rfl, rfl, rfl⟩

def Freed (before : AgentSdkHarness) (slot : Bool) (released : Option Release × AgentSdkHarness) : Prop :=
  Holds before slot (released.1.bind Release.left) released.2

theorem begunRelease_freed (workspace : Option SessionWorkspace)
    (holds : Holds before slot (workspace.map (·.sandboxId)) harness) :
    Freed before slot (begunRelease workspace harness) := by
  cases workspace with
  | none => exact holds
  | some ws =>
    unfold begunRelease Freed
    rcases Holds.beginRelease holds with ⟨waits, holds⟩ | ⟨waits, holds⟩
    · rw [waits]
      exact holds
    · rw [waits]
      exact holds

theorem release_turn_freed (release : Release) (holds : Holds before slot release.left harness) :
    Freed before slot (release.turn answer harness) := by
  cases release with
  | snapshotting ws =>
    have kept : Holds before slot (some ws.sandboxId) (harness.offerWarm ws answer) :=
      holds.of_view (harness.offerWarm_view answer ws) (harness.offerWarm_registry ws answer)
    obtain ⟨waits, holds⟩ := kept.beginTearDown
    unfold Release.turn Freed
    rw [waits]
    exact holds
  | tearingDown ws => exact holds

theorem unconnected_grip (e : AgentSdkError) {released : Option Release × AgentSdkHarness}
    (freed : Freed before true released) :
    Grip before (releasing (.unwinding e) (unconnected e) released) := by
  obtain ⟨release, harness⟩ := released
  cases release with
  | none => exact Holds.releaseSlot freed
  | some release => exact freed

theorem cleaned_grip (outcome : Except HarnessError ResultSummary)
    {released : Option Release × AgentSdkHarness} (freed : Freed before false released) :
    Grip before (releasing (.cleaning outcome) (fun harness => (.ran outcome, harness)) released) := by
  obtain ⟨release, harness⟩ := released
  cases release with
  | none =>
    cases outcome with
    | error e => exact freed
    | ok summary => exact trivial
  | some release => exact freed

-- The sandbox backend hands out an id that is not in use.
def FreshSandbox (state : AgentSdkCall × AgentSdkHarness) (answer : AgentSdkAnswer) : Prop :=
  ∀ opening sent, state.1 = .preparing opening (.creating sent) →
    ∀ info sandboxes, answer.sandbox.provisioned = .ok info → state.2.registry = some sandboxes →
      sandboxes.find info.id = none

-- No file of the projection fails to be staged, and the initial prompt does not fail to be sent.
def Delivered (state : AgentSdkCall × AgentSdkHarness) (answer : AgentSdkAnswer) : Prop :=
  match state.1 with
  | .preparing _ (.staging _ _ _) => answer.written = .ok ()
  | .sending _ _ => answer.sent = .ok ()
  | _ => True

theorem Grip.turned {call : AgentSdkCall} {after : AgentSdkCall × AgentSdkHarness}
    (grip : Grip before (call, harness)) (turned : call.turn answer harness = some after)
    (fresh : FreshSandbox (call, harness) answer) (delivered : Delivered (call, harness) answer) :
    Grip before after := by
  unfold turn at turned
  split at turned
  · cases turned
    cases grip
    exact begin_grip _
  · cases grip
  · next opening sent =>
    have finished := Holds.finishWorkspace grip (fresh opening sent rfl)
    split at turned
    · next e after failed =>
      cases turned
      rw [failed] at finished
      exact fail_grip opening e finished
    · next info after ok =>
      cases turned
      rw [ok] at finished
      exact staged_grip opening info _ finished
  · next opening info file rest =>
    change answer.written = .ok () at delivered
    rw [delivered] at turned
    cases turned
    exact staged_grip opening info rest grip
  · next spec workspace =>
    split at turned
    · next e failed =>
      cases turned
      exact unconnected_grip e (begunRelease_freed workspace grip)
    · next id connected =>
      cases turned
      unfold connect
      cases spec.initialPrompt with
      | none => exact trivial
      | some prompt => exact congrArg (· ++ [id]) grip.sessions
  · next e release =>
    cases turned
    exact unconnected_grip e (release_turn_freed release grip)
  · next id prompt =>
    change answer.sent = .ok () at delivered
    rw [delivered] at turned
    cases turned
    exact trivial
  · next req workspace =>
    cases turned
    refine cleaned_grip answer.outcome (begunRelease_freed _ ?_)
    cases workspace with
    | none => exact grip
    | some ws => exact grip
  · next outcome release =>
    cases turned
    exact cleaned_grip outcome (release_turn_freed release grip)
  · cases grip
  · cases grip
  · cases turned
  · cases turned
  · cases turned

theorem delivered_of_idle {call : AgentSdkCall} (idle : call.turn answer harness = none) :
    Delivered (call, harness) answer := by
  unfold Delivered
  split
  · next opening info file rest here =>
    dsimp only at here
    subst here
    cases written : answer.written with
    | ok _ => rfl
    | error e => simp [turn, written] at idle
  · next id prompt here =>
    dsimp only at here
    subst here
    cases sent : answer.sent with
    | ok _ => rfl
    | error e => simp [turn, sent] at idle
  · trivial

theorem Grip.lost {call : AgentSdkCall} {after : AgentSdkCall × AgentSdkHarness}
    (grip : Grip before (call, harness)) (turned : call.turn answer harness = some after)
    (lost : ¬ Delivered (call, harness) answer) : after.1.Failed ∧ ¬ Restored before after.2 := by
  unfold Delivered at lost
  split at lost
  · next opening info file rest here =>
    dsimp only at here
    subst here
    have added : Added before harness info.id := grip.registry
    cases written : answer.written with
    | ok _ => exact absurd written lost
    | error e =>
      simp only [turn, written] at turned
      cases turned
      cases opening with
      | session spec =>
        have kept : Added before harness.releaseSlot info.id := added
        exact ⟨.inl ⟨_, rfl⟩, kept.not_restored⟩
      | query req => exact ⟨.inr ⟨_, rfl⟩, added.not_restored⟩
  · next id prompt here =>
    dsimp only at here
    subst here
    have more : harness.sessions = before.sessions ++ [id] := grip
    cases sent : answer.sent with
    | ok _ => exact absurd sent lost
    | error e =>
      simp only [turn, sent] at turned
      cases turned
      refine ⟨.inl ⟨_, rfl⟩, fun restored => ?_⟩
      have same := more.symm.trans restored.sessions
      simp at same
  · exact absurd trivial lost

def alone (state : AgentSdkCall × AgentSdkHarness) (answer : AgentSdkAnswer) :
    Unit × AgentSdkCall × AgentSdkHarness :=
  ((), (state.1.turn answer state.2).getD state)

theorem Failed.final {state : AgentSdkCall × AgentSdkHarness} (failed : state.1.Failed)
    (answers : List AgentSdkAnswer) : Operations.final alone state answers = state := by
  induction answers with
  | nil => rfl
  | cons answer rest ih =>
    have idle : (alone state answer).2 = state := by
      rcases failed with ⟨e, same⟩ | ⟨e, same⟩
      · simp [alone, same, turn]
      · simp [alone, same, turn]
    rw [Operations.final, idle, ih]

theorem Grip.atomic {state : AgentSdkCall × AgentSdkHarness} (grip : Grip before state)
    (answers : List AgentSdkAnswer) (fresh : Operations.Along alone FreshSandbox state answers) :
    ((Operations.final alone state answers).1.Failed →
        Restored before (Operations.final alone state answers).2) ↔
      Operations.Along alone Delivered state answers := by
  induction answers generalizing state with
  | nil => exact iff_of_true grip.restored trivial
  | cons answer rest ih =>
    obtain ⟨call, harness⟩ := state
    rw [Operations.final, Operations.Along]
    cases turned : call.turn answer harness with
    | none =>
      have idle : (alone (call, harness) answer).2 = (call, harness) := by simp [alone, turned]
      have delivered : Delivered (call, harness) answer := delivered_of_idle turned
      have later := fresh.2
      rw [idle] at later ⊢
      rw [ih grip later]
      exact (and_iff_right delivered).symm
    | some after =>
      have next : (alone (call, harness) answer).2 = after := by simp [alone, turned]
      have later := fresh.2
      rw [next] at later ⊢
      by_cases delivered : Delivered (call, harness) answer
      · rw [ih (grip.turned turned fresh.1 delivered) later]
        exact (and_iff_right delivered).symm
      · obtain ⟨failed, kept⟩ := grip.lost turned delivered
        rw [failed.final rest]
        exact iff_of_false (fun restored => kept (restored failed)) fun along => delivered along.1

end AgentSdkCall

namespace AgentSdkHarness

/-- Whatever is answered to a `start_session` or a `run`: if it fails, the harness is as it was before, just
when all files of the projection are staged and the initial prompt is sent, as far as it comes to that. -/
theorem failure_atomic (harness : AgentSdkHarness) (opening : Opening) (answers : List AgentSdkAnswer)
    (fresh : Operations.Along AgentSdkCall.alone AgentSdkCall.FreshSandbox
      (.called (.open_ opening), harness) answers) :
    ((Operations.final AgentSdkCall.alone (.called (.open_ opening), harness) answers).1.Failed →
        Restored harness
          (Operations.final AgentSdkCall.alone (.called (.open_ opening), harness) answers).2) ↔
      Operations.Along AgentSdkCall.alone AgentSdkCall.Delivered (.called (.open_ opening), harness)
        answers := by
  have grip : AgentSdkCall.Grip harness (.called (.open_ opening), harness) := rfl
  exact grip.atomic answers fresh

section Example

def first : Opening := .session { config := .default, initialPrompt := some "go" }

def unsent : AgentSdkAnswer := { fine with sent := .error .streamClosed }

def idle : AgentSdkHarness := (start cloud [] none []).shared

-- The session is registered, and then the initial prompt cannot be sent.
theorem failure_atomic_fails :
    ¬ ((Operations.final AgentSdkCall.alone (.called (.open_ first), idle) [fine, fine, unsent]).1.Failed →
      Restored idle
        (Operations.final AgentSdkCall.alone (.called (.open_ first), idle) [fine, fine, unsent]).2) := by
  intro restores
  obtain ⟨sessions, -, -⟩ := restores (.inl ⟨.sdk .streamClosed, rfl⟩)
  exact absurd sessions (by decide)

def unconnected : AgentSdkAnswer := { fine with connected := .error (.unavailable "no agent") }

theorem failure_atomic_unconnected :
    Operations.Along AgentSdkCall.alone AgentSdkCall.FreshSandbox (.called (.open_ first), idle)
        [fine, unconnected] ∧
      (Operations.final AgentSdkCall.alone (.called (.open_ first), idle) [fine, unconnected]).1.Failed ∧
      Restored idle
        (Operations.final AgentSdkCall.alone (.called (.open_ first), idle) [fine, unconnected]).2 := by
  have fresh : Operations.Along AgentSdkCall.alone AgentSdkCall.FreshSandbox
      (.called (.open_ first), idle) [fine, unconnected] := by
    refine ⟨?_, ?_, trivial⟩
    · rintro opening sent ⟨⟩
    · rintro opening sent ⟨⟩
  have failed : (Operations.final AgentSdkCall.alone (.called (.open_ first), idle)
      [fine, unconnected]).1.Failed := .inl ⟨.sdk (.unavailable "no agent"), rfl⟩
  refine ⟨fresh, failed, ?_⟩
  exact (failure_atomic idle first [fine, unconnected] fresh).mpr ⟨trivial, trivial, trivial⟩ failed

end Example

end AgentSdkHarness

end AtomrAgents
