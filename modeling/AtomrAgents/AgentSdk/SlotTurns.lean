import AtomrAgents.AgentSdk.Harness

set_option autoImplicit false

namespace AtomrAgents

open Shared

structure SlotView where
  spec : AgentSdkHarnessSpec
  live : Nat
  sessions : List AgentSessionId
  workspaces : AgentSessionId → Option SessionWorkspace

namespace AgentSdkHarness

variable (harness : AgentSdkHarness) (answer : AgentSdkAnswer) (ws : SessionWorkspace)

def view : SlotView where
  spec := harness.spec
  live := harness.live
  sessions := harness.sessions
  workspaces := harness.workspaces

theorem beginWorkspace_view : harness.beginWorkspace.2.view = harness.view := by
  unfold beginWorkspace
  split
  · split
    · rfl
    · split
      split <;> rfl
  · rfl

theorem finishWorkspace_view : (harness.finishWorkspace answer).2.view = harness.view := by
  unfold finishWorkspace
  split
  · rfl
  · split
    · rfl
    · split <;> rfl

theorem beginTearDown_view : (harness.beginTearDown ws).2.view = harness.view := by
  unfold beginTearDown
  split
  · rfl
  · split <;> rfl

theorem beginRelease_view : (harness.beginRelease ws).2.view = harness.view := by
  unfold beginRelease
  split
  · rfl
  · split
    · rfl
    · exact harness.beginTearDown_view ws

theorem offerWarm_view : (harness.offerWarm ws answer).view = harness.view := by
  unfold offerWarm
  split <;> rfl

theorem release_turn_view (release : Release) :
    (release.turn answer harness).2.view = harness.view := by
  cases release with
  | snapshotting ws =>
    exact ((harness.offerWarm ws answer).beginTearDown_view ws).trans (harness.offerWarm_view answer ws)
  | tearingDown ws => rfl

end AgentSdkHarness

namespace SlotView

def releaseSlot (view : SlotView) : SlotView := { view with live := AtomicUsize.fetchSub view.live }

-- A call goes on as it is, or fails and gives back the slot that it holds.
inductive Kept (view : SlotView) : Bool → Bool → SlotView → Prop where
  | left (starting : Bool) : Kept view starting starting view
  | failed : Kept view true false view.releaseSlot

-- What a call may do to the slots, given whether it was starting a session before and whether it is
-- now; a session that is removed is another matter.
inductive Moved (view : SlotView) : Bool → Bool → SlotView → Prop where
  | kept {starting starting' : Bool} {view' : SlotView} (kept : view.Kept starting starting' view') :
      Moved view starting starting' view'
  | reserved (free : view.live < view.spec.maxConcurrentSessions) :
      Moved view false true { view with live := view.live + 1 }
  | connected (id : AgentSessionId) (workspaces : AgentSessionId → Option SessionWorkspace)
      (only : ∀ other, workspaces other ≠ none → other = id ∨ view.workspaces other ≠ none) :
      Moved view true false { view with sessions := view.sessions ++ [id], workspaces }

theorem Kept.reserved {view view' : SlotView} {starting : Bool}
    (free : view.live < view.spec.maxConcurrentSessions)
    (kept : Kept { view with live := view.live + 1 } true starting view') :
    view.Moved false starting view' := by
  cases kept with
  | left => exact .reserved free
  | failed =>
    have same : releaseSlot { view with live := view.live + 1 } = view := by
      rw [releaseSlot, AtomicUsize.fetchSub_of_pos (Nat.succ_pos _)]
      rfl
    rw [same]
    exact .kept (.left false)

theorem Moved.spec_eq {view view' : SlotView} {starting starting' : Bool}
    (moved : view.Moved starting starting' view') : view'.spec = view.spec := by
  cases moved with
  | kept kept => cases kept <;> rfl
  | reserved free => rfl
  | connected id workspaces only => rfl

theorem Moved.accounted {view view' : SlotView} {held holds : Bool} {starting starting' : Nat}
    (moved : view.Moved held holds view')
    (counted : starting' + held.toNat = starting + holds.toNat)
    (accounted : Accounted view.spec.maxConcurrentSessions view.live view.sessions.length starting) :
    Accounted view.spec.maxConcurrentSessions view'.live view'.sessions.length starting' := by
  cases moved with
  | kept kept =>
    cases kept with
    | left =>
      obtain rfl : starting' = starting := by omega
      exact accounted
    | failed =>
      refine accounted.released ?_
      simp only [Bool.toNat_true, Bool.toNat_false] at counted
      simp only [releaseSlot]
      omega
  | reserved free =>
    obtain rfl : starting' = starting + 1 := counted
    exact accounted.reserved free
  | connected id workspaces only =>
    refine accounted.settled ?_
    simp only [Bool.toNat_true, Bool.toNat_false] at counted
    simp only [List.length_append, List.length_singleton]
    omega

theorem Moved.live_le_one {view view' : SlotView} {held holds : Bool} {starting starting' : Nat}
    (moved : view.Moved held holds view')
    (counted : starting' + held.toNat = starting + holds.toNat)
    (accounted : Accounted view.spec.maxConcurrentSessions view.live view.sessions.length starting)
    (none : view.live = 0) : view'.live ≤ 1 := by
  have := accounted.counted
  cases moved with
  | kept kept =>
    cases kept with
    | left => omega
    | failed =>
      simp only [Bool.toNat_true, Bool.toNat_false] at counted
      omega
  | reserved free => simp [none]
  | connected id workspaces only => simp [none]

theorem Moved.owned {view view' : SlotView} {held holds : Bool} (moved : view.Moved held holds view')
    (owned : ∀ id, view.workspaces id ≠ none → id ∈ view.sessions) :
    ∀ id, view'.workspaces id ≠ none → id ∈ view'.sessions := by
  cases moved with
  | kept kept => cases kept <;> exact owned
  | reserved free => exact owned
  | connected id workspaces only =>
    intro other there
    rw [List.mem_append, List.mem_singleton]
    rcases only other there with same | before
    · exact .inr same
    · exact .inl (owned other before)

end SlotView

-- Only `start_session` takes a slot.
def Opening.holds : Opening → Bool
  | .session _ => true
  | .query _ => false

namespace AgentSdkCall

variable {answer : AgentSdkAnswer} {harness : AgentSdkHarness}

def starting : AgentSdkCall → Bool
  | .preparing (.session _) _ | .connecting _ _ | .unwinding _ _ => true
  | _ => false

-- `stop_session` has removed the session, but not yet given its slot back.
def discards : AgentSdkCall → Bool
  | .discarding _ => true
  | _ => false

structure Goes (view : SlotView) (starting : Bool) (after : AgentSdkCall × AgentSdkHarness) : Prop where
  kept : view.Kept starting after.1.starting after.2.view
  keeps : after.1.discards = false

theorem fail_goes (opening : Opening) (e : HarnessError) :
    Goes harness.view opening.holds (fail opening e harness) := by
  cases opening with
  | session spec => exact ⟨.failed, rfl⟩
  | query req => exact ⟨.left false, rfl⟩

theorem preparing_goes (opening : Opening) (preparation : Preparation) :
    Goes harness.view opening.holds (.preparing opening preparation, harness) := by
  cases opening with
  | session spec => exact ⟨.left true, rfl⟩
  | query req => exact ⟨.left false, rfl⟩

theorem prepared_goes (opening : Opening) (workspace : Option SessionWorkspace) :
    Goes harness.view opening.holds (prepared opening workspace, harness) := by
  cases opening with
  | session spec => exact ⟨.left true, rfl⟩
  | query req => exact ⟨.left false, rfl⟩

theorem staged_goes (opening : Opening) (info : SandboxInfo) (files : List (String × List UInt8)) :
    Goes harness.view opening.holds (staged opening info files harness, harness) := by
  cases files with
  | nil =>
    cases opening with
    | session spec => exact ⟨.left true, rfl⟩
    | query req => exact ⟨.left false, rfl⟩
  | cons file rest => exact preparing_goes opening _

theorem prepare_goes (opening : Opening) :
    Goes harness.view opening.holds (prepare answer opening harness) := by
  have same := harness.beginWorkspace_view
  unfold prepare
  split
  · next e after begun =>
    rw [begun] at same
    rw [← same]
    exact fail_goes opening e
  · next sent after begun =>
    rw [begun] at same
    rw [← same]
    exact preparing_goes opening _
  · next after begun =>
    rw [begun] at same
    rw [← same]
    split
    · exact fail_goes opening _
    · exact prepared_goes opening none

theorem releasing_goes {view : SlotView} {starting : Bool} {waiting : Release → AgentSdkCall}
    {after : AgentSdkHarness → AgentSdkCall × AgentSdkHarness}
    {released : Option Release × AgentSdkHarness} (same : released.2.view = view)
    (waits : ∀ release, Goes released.2.view starting (waiting release, released.2))
    (goes : Goes released.2.view starting (after released.2)) :
    Goes view starting (releasing waiting after released) := by
  obtain ⟨release, harness⟩ := released
  rw [← same]
  cases release with
  | none => exact goes
  | some release => exact waits release

theorem begunRelease_view (harness : AgentSdkHarness) (workspace : Option SessionWorkspace) :
    (begunRelease workspace harness).2.view = harness.view := by
  cases workspace with
  | none => rfl
  | some ws => exact harness.beginRelease_view ws

theorem unconnected_goes {released : Option Release × AgentSdkHarness} (e : AgentSdkError)
    (same : released.2.view = harness.view) :
    Goes harness.view true (releasing (.unwinding e) (unconnected e) released) :=
  releasing_goes same (fun _ => ⟨.left true, rfl⟩) ⟨.failed, rfl⟩

theorem cleaned_goes {released : Option Release × AgentSdkHarness}
    (outcome : Except HarnessError ResultSummary) (same : released.2.view = harness.view) :
    Goes harness.view false
      (releasing (.cleaning outcome) (fun harness => (.ran outcome, harness)) released) :=
  releasing_goes same (fun _ => ⟨.left false, rfl⟩) ⟨.left false, rfl⟩

structure Slots (view : SlotView) (starting : Bool) (after : AgentSdkCall × AgentSdkHarness) : Prop where
  moved : view.Moved starting after.1.starting after.2.view
  keeps : after.1.discards = false

theorem Goes.slots {view : SlotView} {starting : Bool} {after : AgentSdkCall × AgentSdkHarness}
    (goes : Goes view starting after) : Slots view starting after :=
  ⟨.kept goes.kept, goes.keeps⟩

theorem reserveSlot_cases (harness : AgentSdkHarness) :
    (∃ e, harness.reserveSlot = (.error e, harness)) ∨
      harness.live < harness.spec.maxConcurrentSessions ∧
        harness.reserveSlot = (.ok (), { harness with live := harness.live + 1 }) := by
  rcases Nat.lt_or_ge harness.live harness.spec.maxConcurrentSessions with free | full
  · right
    exact ⟨free, by rw [AgentSdkHarness.reserveSlot, reserve_free harness.spec.fits free]⟩
  · left
    rw [AgentSdkHarness.reserveSlot, reserve_full full]
    exact ⟨_, rfl⟩

theorem refused_slots (opening : Opening) (e : HarnessError) :
    Slots harness.view false (refused opening e, harness) := by
  cases opening with
  | session spec => exact ⟨.kept (.left false), rfl⟩
  | query req => exact ⟨.kept (.left false), rfl⟩

theorem begin_slots (opening : Opening) : Slots harness.view false (begin answer opening harness) := by
  unfold begin
  split
  · exact refused_slots opening _
  · cases opening with
    | query req => exact (prepare_goes (.query _)).slots
    | session spec =>
      rcases reserveSlot_cases harness with ⟨e, full⟩ | ⟨free, reserved⟩
      · simp only [Opening.withConfig, full]
        exact refused_slots _ e
      · simp only [Opening.withConfig, reserved]
        have goes (next : AgentSdkHarness) (spec : SessionSpec) :
            Goes next.view true (prepare answer (.session spec) next) := prepare_goes (.session spec)
        obtain ⟨kept, keeps⟩ := goes { harness with live := harness.live + 1 } _
        exact ⟨kept.reserved free, keeps⟩

theorem connect_workspaces {spec : SessionSpec} {workspace : Option SessionWorkspace}
    {id other : AgentSessionId} (there : (connect spec workspace id harness).2.workspaces other ≠ none) :
    other = id ∨ harness.workspaces other ≠ none := by
  by_cases same : other = id
  · exact .inl same
  · right
    cases workspace with
    | none => cases here : spec.initialPrompt <;> simpa [connect, here] using there
    | some ws => cases here : spec.initialPrompt <;> simpa [connect, here, same] using there

theorem connect_slots (spec : SessionSpec) (workspace : Option SessionWorkspace) (id : AgentSessionId) :
    Slots harness.view true (connect spec workspace id harness) := by
  have only (other : AgentSessionId)
      (there : (connect spec workspace id harness).2.workspaces other ≠ none) :
      other = id ∨ harness.workspaces other ≠ none := connect_workspaces there
  unfold connect at only ⊢
  cases here : spec.initialPrompt with
  | none =>
    simp only [here] at only
    exact ⟨.connected id _ only, rfl⟩
  | some prompt =>
    simp only [here] at only
    exact ⟨.connected id _ only, rfl⟩

theorem turn_slots {call : AgentSdkCall} {after : AgentSdkCall × AgentSdkHarness}
    (turned : call.turn answer harness = some after) (stays : ∀ id, call ≠ .closing id)
    (keeps : call.discards = false) : Slots harness.view call.starting after := by
  unfold turn at turned
  split at turned
  · cases turned
    exact begin_slots _
  · split at turned
    · cases turned
      exact ⟨.kept (.left false), rfl⟩
    · cases turned
      exact ⟨.kept (.left false), rfl⟩
  · next opening sent =>
    have same := harness.finishWorkspace_view answer
    split at turned
    · next e after finished =>
      cases turned
      rw [finished] at same
      rw [← same]
      cases opening with
      | session spec => exact ⟨.kept .failed, rfl⟩
      | query req => exact ⟨.kept (.left false), rfl⟩
    · next info after finished =>
      cases turned
      rw [finished] at same
      rw [← same]
      cases opening with
      | session spec => exact (staged_goes (.session spec) info _).slots
      | query req => exact (staged_goes (.query req) info _).slots
  · next opening info file rest =>
    split at turned
    · cases turned
      cases opening with
      | session spec => exact ⟨.kept .failed, rfl⟩
      | query req => exact ⟨.kept (.left false), rfl⟩
    · cases turned
      cases opening with
      | session spec => exact (staged_goes (.session spec) info _).slots
      | query req => exact (staged_goes (.query req) info _).slots
  · next spec workspace =>
    split at turned
    · next e failed =>
      cases turned
      exact (unconnected_goes e (begunRelease_view harness workspace)).slots
    · next id connected =>
      cases turned
      exact connect_slots spec workspace id
  · next e release =>
    cases turned
    exact (unconnected_goes e (harness.release_turn_view answer release)).slots
  · split at turned
    · cases turned
      exact ⟨.kept (.left false), rfl⟩
    · cases turned
      exact ⟨.kept (.left false), rfl⟩
  · cases turned
    exact (cleaned_goes answer.outcome (begunRelease_view harness _)).slots
  · next outcome release =>
    cases turned
    exact (cleaned_goes outcome (harness.release_turn_view answer release)).slots
  · next id => exact absurd rfl (stays id)
  · cases keeps
  · cases turned
  · cases turned
  · cases turned

end AgentSdkCall

namespace AgentSdkHarness

variable (harness : AgentSdkHarness) (id : AgentSessionId)

def TearsDown : Prop :=
  ∃ ws sandbox, harness.workspaces id = some ws ∧ harness.sandbox = some sandbox ∧
    sandbox.get ws.sandboxId ≠ none

theorem beginTearDown_eq_none_iff (ws : SessionWorkspace) :
    (harness.beginTearDown ws).1 = none ↔
      ∀ sandbox, harness.sandbox = some sandbox → sandbox.get ws.sandboxId = none := by
  unfold beginTearDown
  cases there : harness.sandbox with
  | none => simp
  | some sandbox =>
    cases found : sandbox.sandboxes.find ws.sandboxId with
    | none => simp [SandboxHarness.beginDestroy, SandboxHarness.get, found]
    | some info => simp [SandboxHarness.beginDestroy, SandboxHarness.get, found]

theorem beginRelease_eq_none_iff (ws : SessionWorkspace) :
    (harness.beginRelease ws).1 = none ↔
      ∀ sandbox, harness.sandbox = some sandbox → sandbox.get ws.sandboxId = none := by
  unfold beginRelease
  cases there : harness.sandbox with
  | none => simp
  | some sandbox =>
    dsimp only
    split
    · next found => simp [found]
    · rw [harness.beginTearDown_eq_none_iff ws, there]

theorem begunRelease_eq_none_iff :
    (AgentSdkCall.begunRelease (harness.workspaces id) (harness.unregister id)).1 = none ↔
      ¬ harness.TearsDown id := by
  unfold AgentSdkCall.begunRelease TearsDown
  cases workspace : harness.workspaces id with
  | none => simp
  | some ws =>
    dsimp only
    rw [beginRelease_eq_none_iff]
    simp [unregister]

theorem remove_cases :
    (¬ harness.TearsDown id ∧ (AgentSdkCall.remove id harness).1 = .stopped (.ok ()) ∧
      (AgentSdkCall.remove id harness).2.view = (harness.unregister id).view.releaseSlot) ∨
    (harness.TearsDown id ∧ (∃ release, (AgentSdkCall.remove id harness).1 = .discarding release) ∧
      (AgentSdkCall.remove id harness).2.view = (harness.unregister id).view) := by
  have same := AgentSdkCall.begunRelease_view (harness.unregister id) (harness.workspaces id)
  have waits := harness.begunRelease_eq_none_iff id
  unfold AgentSdkCall.remove
  generalize AgentSdkCall.begunRelease (harness.workspaces id) (harness.unregister id) = begun
    at same waits
  obtain ⟨release, after⟩ := begun
  dsimp only at same waits
  cases release with
  | none =>
    left
    refine ⟨waits.mp rfl, rfl, ?_⟩
    rw [← same]
    rfl
  | some release =>
    right
    refine ⟨by_contra fun idle => ?_, ⟨release, rfl⟩, same⟩
    cases waits.mpr idle

theorem length_unregister :
    (harness.unregister id).sessions.length + harness.sessions.count id = harness.sessions.length := by
  unfold unregister
  induction harness.sessions with
  | nil => rfl
  | cons other rest ih =>
    by_cases same : other = id
    · simp [same] at ih ⊢
      omega
    · simp [same] at ih ⊢
      omega

end AgentSdkHarness

end AtomrAgents
