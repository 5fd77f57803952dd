import AtomrAgents.Workflow.ResumePosition
import Mathlib.Data.Finset.Card

set_option autoImplicit false

/-! The measure is the number of breakpoints in the layers still to run. A resumed call passes one of them and
stops at the next, so it shrinks, except at a layer with two `interrupt_before` steps: the flag passes the
first one and the second one pauses at the same position again. -/

namespace AtomrAgents

open Shared

theorem breakpoint_clear {set : Finset StepId} {layer : List StepId} {skip skip' : Bool}
    (clear : breakpoint set layer skip = (skip', none)) :
    (layer.filter (· ∈ set)).length + skip'.toNat = skip.toNat := by
  rw [breakpoint_eq] at clear
  cases hits : layer.filter (· ∈ set) with
  | nil =>
    rw [hits] at clear
    cases clear
    simp
  | cons first rest =>
    rw [hits] at clear
    cases skip with
    | false => cases clear
    | true =>
      cases rest with
      | nil =>
        cases clear
        rfl
      | cons second rest => cases clear

theorem breakpoint_stops {set : Finset StepId} {layer : List StepId} {skip : Bool} {sid : StepId}
    (hit : (breakpoint set layer skip).2 = some sid) :
    skip.toNat < (layer.filter (· ∈ set)).length := by
  rw [breakpoint_eq] at hit
  cases hits : layer.filter (· ∈ set) with
  | nil =>
    rw [hits] at hit
    cases hit
  | cons first rest =>
    rw [hits] at hit
    cases skip with
    | false => simp
    | true =>
      cases rest with
      | nil => cases hit
      | cons second rest => simp

-- The step neither fails nor interrupts, whatever it takes: it ends with writes to channels.
def StepBody.Succeeds (schema : StateSchema) : StepBody → Prop
  | .done (.ok writes) => ∀ entry ∈ writes, (schema.channel entry.1).isSome
  | .done (.error _) => False
  | .takeResumeValue next => ∀ value, (next value).Succeeds schema
  | .interrupt _ _ _ => False

theorem StepBody.Succeeds.exec {schema : StateSchema} {body : StepBody}
    (succeeds : body.Succeeds schema) (ctrl : InterruptCtrl) :
    (∃ writes, (body.exec ctrl).1 = .ok writes ∧
      ∀ entry ∈ writes, (schema.channel entry.1).isSome) ∧
    (body.exec ctrl).2.1.inner = ctrl.inner := by
  induction body generalizing ctrl with
  | done result =>
    cases result with
    | error e => cases succeeds
    | ok writes => exact ⟨⟨writes, rfl, succeeds⟩, rfl⟩
  | takeResumeValue next ih => exact ih ctrl.resumeValue (succeeds _) { ctrl with resumeValue := none }
  | interrupt => cases succeeds

namespace Interruptible

variable {W : Type}

def StepsSucceed (r : Interruptible W) : Prop :=
  ∀ (sid : StepId) (step : InterruptibleStep W), r.dag.steps[sid]? = some step →
    ∀ w state, (step.run w state).Succeeds r.schema

def breaks (r : Interruptible W) (layers : List (List StepId)) : Nat :=
  (layers.flatten.filter (· ∈ r.interruptBefore)).length +
    (layers.flatten.filter (· ∈ r.interruptAfter)).length

theorem breaks_drop (r : Interruptible W) {layers : List (List StepId)} {p : Nat}
    {layer : List StepId} (found : layers[p]? = some layer) :
    r.breaks (layers.drop p) = (layer.filter (· ∈ r.interruptBefore)).length +
      (layer.filter (· ∈ r.interruptAfter)).length + r.breaks (layers.drop (p + 1)) := by
  rw [List.drop_eq_getElem?_toList_append, found]
  simp only [breaks, Option.toList_some, List.singleton_append, List.flatten_cons, List.filter_append,
    List.length_append]
  omega

theorem filter_length_le_card (set : Finset StepId) {steps : List StepId} (distinct : steps.Nodup) :
    (steps.filter (· ∈ set)).length ≤ set.card := by
  rw [← List.toFinset_card_of_nodup (distinct.filter _)]
  apply Finset.card_le_card
  intro s member
  simp only [List.mem_toFinset, List.mem_filter, decide_eq_true_eq] at member
  exact member.2

theorem visitStep_succeeds (r : Interruptible W) (succeed : r.StepsSucceed) (w : W) (superStep : Nat)
    (state : RunState) (loop : StepLoop) (sid : StepId) (declared : sid ∈ r.dag.steps)
    (quiet : loop.ctrl.inner = none)
    (known : ∀ entry ∈ loop.allWrites, (r.schema.channel entry.1).isSome) :
    ∃ last, r.visitStep w superStep state loop sid = .next last ∧ last.ctrl.inner = none ∧
      ∀ entry ∈ last.allWrites, (r.schema.channel entry.1).isSome := by
  obtain ⟨step, found⟩ := r.dag.exists_step declared
  obtain ⟨⟨writes, ok, named⟩, inner⟩ := (succeed sid step found w state).exec loop.deliver.ctrl
  rw [StepLoop.deliver_inner, quiet] at inner
  simp only [visitStep, found, ok, InterruptCtrl.pending, inner]
  refine ⟨_, rfl, rfl, fun entry member => ?_⟩
  rw [StepLoop.deliver_allWrites] at member
  cases List.mem_append.mp member with
  | inl old => exact known entry old
  | inr own => exact named entry own

theorem visitSteps_succeeds (r : Interruptible W) (succeed : r.StepsSucceed) (w : W) (superStep : Nat)
    (cursor : Cursor) (layer : List StepId) (declared : ∀ s ∈ layer, s ∈ r.dag.steps)
    (quiet : cursor.ctrl.inner = none) :
    ∃ last, r.visitSteps w superStep cursor layer = .next last ∧ last.ctrl.inner = none ∧
      ∀ entry ∈ last.allWrites, (r.schema.channel entry.1).isSome := by
  have steps (layer : List StepId) (loop : StepLoop) (declared : ∀ s ∈ layer, s ∈ r.dag.steps)
      (quiet : loop.ctrl.inner = none)
      (known : ∀ entry ∈ loop.allWrites, (r.schema.channel entry.1).isSome) :
      ∃ last, forEach (r.visitStep w superStep cursor.state) layer loop = .next last ∧
        last.ctrl.inner = none ∧ ∀ entry ∈ last.allWrites, (r.schema.channel entry.1).isSome := by
    induction layer generalizing loop with
    | nil => exact ⟨loop, rfl, quiet, known⟩
    | cons sid rest ih =>
      obtain ⟨next, turn, quiet, known⟩ := r.visitStep_succeeds succeed w superStep cursor.state loop sid
        (declared sid (by simp)) quiet known
      rw [forEach, turn]
      exact ih next (fun s inside => declared s (by simp [inside])) quiet known
  exact steps layer _ declared quiet (by simp)

def Moves (r : Interruptible W) (layers : List (List StepId)) (start spent : Nat)
    (report : CallReport) : Prop :=
  (∃ state, report.result = .ok (.done state)) ∨
    ∃ n reason payload measure, report.result = .ok (.paused n reason payload) ∧
      start ≤ pausePosition n reason ∧ 0 < measure ∧
      r.breaks (layers.drop (pausePosition n reason)) ≤ measure ∧
      measure + spent ≤ r.breaks (layers.drop start)

def OneGate (r : Interruptible W) (layers : List (List StepId)) : Prop :=
  ∀ layer ∈ layers, (layer.filter (· ∈ r.interruptBefore)).length ≤ 1

theorem runInner_moves (r : Interruptible W) (succeed : r.StepsSucceed) (w : W)
    (store : InMemoryCheckpointer) (state : RunState) (schema : state.schema = r.schema)
    (skip : Bool) {order : List StepId} (sorted : r.dag.topoSort = .ok order)
    (gates : r.OneGate (r.dag.layered order)) :
    r.Moves (r.dag.layered order) state.superStep skip.toNat
      (r.runInner w store state none none skip) := by
  refine r.runInner_post w store state none none skip sorted
    (fun p cursor => cursor.state.schema = r.schema ∧ cursor.ctrl.inner = none ∧
      r.breaks ((r.dag.layered order).drop p) + skip.toNat ≤
        r.breaks ((r.dag.layered order).drop state.superStep) + cursor.skipBreakpointsOnce.toNat)
    (r.Moves (r.dag.layered order) state.superStep skip.toNat)
    ⟨schema, rfl, Nat.le_refl _⟩ ?_ (fun p cursor _ _ _ => .inl ⟨cursor.state, rfl⟩)
  intro p layer cursor flow found later ⟨same, quiet, budget⟩ turn
  have later : state.superStep ≤ p := later
  have inside := List.mem_of_getElem? found
  have declared := Dag.layer_declared sorted inside
  have lone := gates layer inside
  have count := r.breaks_drop found
  obtain ⟨last, completes, quiet', known⟩ := r.visitSteps_succeeds succeed w (p + 1) cursor layer
    declared quiet
  have accepted : (cursor.state.mergeWrites last.allWrites).1 = .ok () := by
    rw [RunState.mergeWrites_ok_iff, same]
    exact known
  cases turn with
  | before sid hit =>
    have stops := breakpoint_stops hit
    refine .inr ⟨p + 1, .before sid, none, r.breaks ((r.dag.layered order).drop p), rfl, later, ?_,
      Nat.le_refl _, ?_⟩ <;> omega
  | failed skip' clear e loop ran | interrupted skip' clear req loop ran =>
    rw [completes] at ran
    cases ran
  | rejected skip' clear loop ran e state' merged =>
    rw [completes] at ran
    cases ran
    rw [merged] at accepted
    cases accepted
  | after skip' clear loop ran next committed sid hit =>
    have passed := breakpoint_clear clear
    have stops := breakpoint_stops hit
    exact .inr ⟨p + 1, .after sid, none, r.breaks ((r.dag.layered order).drop (p + 1)) + 1, rfl,
      Nat.le_succ_of_le later, Nat.succ_pos _, Nat.le_succ _, by omega⟩
  | completed skip' clear loop ran next committed skip'' clear' =>
    rw [completes] at ran
    cases ran
    have passed := breakpoint_clear clear
    have passed' := breakpoint_clear clear'
    exact ⟨(RunState.commit_frame committed).1.trans same, quiet', by dsimp only; omega⟩

theorem savedStep_of_paused (r : Interruptible W) (w : W) (store : InMemoryCheckpointer) (call : Call)
    {n : Nat} {reason : PauseReason} {payload : Option Value}
    (paused : (r.call w store call).result = .ok (.paused n reason payload))
    (onward : store.savedStep r.workflowId r.runId ≤ pausePosition n reason) :
    ∃ snapshot, (r.call w store call).checkpointer.latest r.workflowId r.runId = some snapshot ∧
      snapshot.key.superStep = pausePosition n reason := by
  obtain ⟨snapshot, latest, step, _⟩ := (r.call_persisted w store call n reason payload paused).behind
    onward
  exact ⟨snapshot, latest, step⟩

theorem resume_moves (r : Interruptible W) (succeed : r.StepsSucceed) (w : W)
    (store : InMemoryCheckpointer) {snapshot : Snapshot}
    (saved : store.latest r.workflowId r.runId = some snapshot) {order : List StepId}
    (sorted : r.dag.topoSort = .ok order) (gates : r.OneGate (r.dag.layered order)) :
    r.Moves (r.dag.layered order) snapshot.key.superStep 1
      (r.call w store (.resume .continue)) := by
  rw [Interruptible.call, resume, saved]
  exact r.runInner_moves succeed w store (.fromSnapshot r.schema snapshot.values snapshot.key.superStep)
    rfl true sorted gates

theorem resumes_done (r : Interruptible W) (succeed : r.StepsSucceed) {order : List StepId}
    (sorted : r.dag.topoSort = .ok order) (gates : r.OneGate (r.dag.layered order)) (ws : List W)
    (store : InMemoryCheckpointer) {snapshot : Snapshot}
    (saved : store.latest r.workflowId r.runId = some snapshot) (measure : Nat)
    (positive : 0 < measure)
    (bound : r.breaks ((r.dag.layered order).drop snapshot.key.superStep) ≤ measure)
    (enough : measure ≤ ws.length) :
    ∃ report ∈ r.history store (ws.map fun w => (w, .resume .continue)),
      ∃ state, report.result = .ok (.done state) := by
  induction ws generalizing store snapshot measure with
  | nil =>
    rw [List.length_nil] at enough
    omega
  | cons w rest ih =>
    rw [List.map_cons, history]
    cases r.resume_moves succeed w store saved sorted gates with
    | inl done => exact ⟨_, List.mem_cons_self, done⟩
    | inr paused =>
      obtain ⟨n, reason, payload, measure', result, onward, positive', bound', budget⟩ := paused
      rw [← InMemoryCheckpointer.savedStep_of_latest saved] at onward
      obtain ⟨snapshot', saved', step⟩ := r.savedStep_of_paused w store _ result onward
      rw [← step] at bound'
      rw [List.length_cons] at enough
      obtain ⟨report, member, done⟩ := ih _ saved' measure' positive' bound' (by omega)
      exact ⟨report, List.mem_cons_of_mem _ member, done⟩

def Blocked (r : Interruptible W) (j : Nat) (report : CallReport) : Prop :=
  (∀ state, report.result ≠ .ok (.done state)) ∧
    report.checkpointer.savedStep r.workflowId r.runId ≤ j

theorem runInner_blocked (r : Interruptible W) (w : W) (store : InMemoryCheckpointer)
    (state : RunState) (skip : Bool) {order : List StepId} (sorted : r.dag.topoSort = .ok order)
    {j : Nat} {layer : List StepId} (found : (r.dag.layered order)[j]? = some layer)
    (gates : 1 < (layer.filter (· ∈ r.interruptBefore)).length)
    (current : store.savedStep r.workflowId r.runId = state.superStep) (behind : state.superStep ≤ j) :
    r.Blocked j (r.runInner w store state none none skip) := by
  refine r.runInner_post w store state none none skip sorted
    (fun p cursor => p ≤ j ∧ store.Tracked r.workflowId r.runId cursor.checkpointer p) (r.Blocked j)
    ⟨behind, fun _ => rfl, id⟩ ?_ ?_
  · intro p layer' cursor flow found' later ⟨early, tracked⟩ turn
    have started : store.savedStep r.workflowId r.runId ≤ p := by
      rw [current]
      exact later
    have saved := tracked.behind started
    -- at the position itself no scan is clear
    have short {skip' : Bool} (clear : breakpoint r.interruptBefore layer'
        cursor.skipBreakpointsOnce = (skip', none)) : p + 1 ≤ j := by
      by_contra reached
      obtain rfl : p = j := by omega
      obtain rfl : layer' = layer := by rw [← Option.some_inj, ← found', found]
      have passed := breakpoint_clear clear
      have flag := Bool.toNat_le cursor.skipBreakpointsOnce
      omega
    have pausing (reason : PauseReason) (payload : Option Value) :
        (r.persistPause cursor.checkpointer cursor.state p reason payload).savedStep r.workflowId
          r.runId ≤ p :=
      (tracked.save (r.pauseSnapshot cursor.state p reason payload cursor.checkpointer) rfl rfl
        (Nat.le_refl p)).behind started
    cases turn with
    | before sid hit => exact ⟨fun state done => (nomatch done), (pausing _ _).trans early⟩
    | failed skip' clear e loop ran | rejected skip' clear loop ran e state' merged =>
      exact ⟨fun state done => (nomatch done), saved.trans early⟩
    | interrupted skip' clear req loop ran =>
      exact ⟨fun state done => (nomatch done), (pausing _ _).trans early⟩
    | after skip' clear loop ran next committed sid hit =>
      have complete := tracked.save (r.layerSnapshot (p + 1) next cursor.checkpointer) rfl rfl
        (Nat.le_succ p)
      exact ⟨fun state done => (nomatch done),
        (complete.behind (Nat.le_succ_of_le started)).trans (short clear)⟩
    | completed skip' clear loop ran next committed skip'' clear' =>
      exact ⟨short clear, tracked.save (r.layerSnapshot (p + 1) next cursor.checkpointer) rfl rfl
        (Nat.le_succ p)⟩
  · intro p cursor past _ ⟨early, _⟩
    have inside := (List.getElem?_eq_some_iff.mp found).1
    omega

theorem history_blocked (r : Interruptible W) {order : List StepId}
    (sorted : r.dag.topoSort = .ok order) {j : Nat} {layer : List StepId}
    (found : (r.dag.layered order)[j]? = some layer)
    (gates : 1 < (layer.filter (· ∈ r.interruptBefore)).length) (calls : List (W × Call))
    (plain : ∀ call ∈ calls, call.2 = .run ∨ call.2 = .resume .continue)
    (store : InMemoryCheckpointer) (behind : store.savedStep r.workflowId r.runId ≤ j) :
    ∀ report ∈ r.history store calls, r.Blocked j report := by
  induction calls generalizing store with
  | nil => exact fun report member => absurd member List.not_mem_nil
  | cons call rest ih =>
    have first : r.Blocked j (r.call call.1 store call.2) := by
      cases plain call (by simp) with
      | inl run =>
        rw [run]
        have position := RunState.hydrate_superStep r.schema store r.workflowId r.runId
        refine r.runInner_blocked call.1 store (r.hydrate store) false sorted found gates ?_ ?_
        · rw [hydrate, position]
        · rwa [hydrate, position]
      | inr again =>
        rw [again, Interruptible.call, resume]
        cases saved : store.latest r.workflowId r.runId with
        | none => exact ⟨by rintro state ⟨⟩, behind⟩
        | some snapshot =>
          rw [InMemoryCheckpointer.savedStep_of_latest saved] at behind
          exact r.runInner_blocked call.1 store
            (.fromSnapshot r.schema snapshot.values snapshot.key.superStep) true sorted found gates
            (InMemoryCheckpointer.savedStep_of_latest saved) behind
    intro report member
    cases member with
    | head => exact first
    | tail _ later =>
      exact ih (fun call inside => plain call (List.mem_cons_of_mem _ inside)) _ first.2 report later

/-- With steps that neither fail nor interrupt, as many resumes as there are breakpoints complete the
run exactly when no layer holds two `interrupt_before` steps. -/
theorem breakpoint_progress (r : Interruptible W) (succeed : r.StepsSucceed)
    (store : InMemoryCheckpointer) (fresh : store.latest r.workflowId r.runId = none) (w : W)
    (ws : List W) (enough : ws.length = r.interruptBefore.card + r.interruptAfter.card) :
    (∃ report ∈ r.history store ((w, .run) :: ws.map fun w => (w, .resume .continue)),
      ∃ state, report.result = .ok (.done state)) ↔
    ∃ order, r.dag.topoSort = .ok order ∧ r.OneGate (r.dag.layered order) := by
  constructor
  · rintro ⟨report, member, state, done⟩
    have plain : ∀ call ∈ (w, Call.run) :: ws.map fun w => (w, Call.resume .continue),
        call.2 = .run ∨ call.2 = .resume .continue := by
      simp
    cases sorted : r.dag.topoSort with
    | error e =>
      obtain ⟨_, failed⟩ := r.history_unsorted sorted store _ report member
      rw [failed] at done
      cases done
    | ok order =>
      refine ⟨order, rfl, fun layer inside => ?_⟩
      by_contra gates
      obtain ⟨j, _, found⟩ := List.mem_iff_getElem.mp inside
      have blocked := r.history_blocked sorted (List.getElem?_eq_some_iff.mpr ⟨_, found⟩)
        (by omega) _ plain store (by simp [InMemoryCheckpointer.savedStep, fresh]) report member
      exact blocked.1 state done
  · rintro ⟨order, sorted, gates⟩
    have distinct : (r.dag.layered order).flatten.Nodup := Dag.layered_nodup sorted
    have total : r.breaks (r.dag.layered order) ≤ ws.length := by
      rw [enough]
      exact Nat.add_le_add (filter_length_le_card _ distinct) (filter_length_le_card _ distinct)
    have first : r.Moves (r.dag.layered order) 0 0 (r.run w store) := by
      have start : r.hydrate store = .new r.schema := by rw [hydrate, fresh, RunState.hydrate]
      rw [run, start]
      exact r.runInner_moves succeed w store (.new r.schema) rfl false sorted gates
    cases first with
    | inl done => exact ⟨_, List.mem_cons_self, done⟩
    | inr paused =>
      obtain ⟨n, reason, payload, measure, result, _, positive, bound, budget⟩ := paused
      rw [List.drop_zero] at budget
      obtain ⟨snapshot, saved, step⟩ := r.savedStep_of_paused w store .run result
        (by simp [InMemoryCheckpointer.savedStep, fresh])
      rw [← step] at bound
      obtain ⟨report, member, done⟩ := r.resumes_done succeed sorted gates ws _ saved measure positive
        bound (by omega)
      exact ⟨report, List.mem_cons_of_mem _ member, done⟩

def twoGates : Interruptible Unit where
  workflowId := "wf"
  runId := "r"
  dag := ((Dag.builder "x").step "x" ⟨fun _ _ => .done (.ok [])⟩).step "y" ⟨fun _ _ => .done (.ok [])⟩
  schema := StateSchema.builder
  interruptBefore := {"x", "y"}
  interruptAfter := ∅
  nowMs := fun _ => 0

theorem twoGates_succeed (before after : Finset StepId) :
    StepsSucceed { twoGates with interruptBefore := before, interruptAfter := after } := by
  intro sid step found w state
  have empty : step = ⟨fun _ _ => .done (.ok [])⟩ := by
    simp only [twoGates, Dag.step, Std.ExtTreeMap.getElem?_insert, Dag.builder] at found
    split at found
    · exact (Option.some_inj.mp found).symm
    · split at found
      · exact (Option.some_inj.mp found).symm
      · simp at found
  rw [empty]
  exact fun entry member => nomatch member

-- Neither of the two gates ever opens, however often the run is resumed.
theorem breakpoint_progress_fails :
    ¬ ∃ report ∈ twoGates.history [] (((), .run) :: [(), ()].map fun w => (w, .resume .continue)),
      ∃ state, report.result = .ok (.done state) := by
  intro ⟨report, member, state, done⟩
  have paused : (twoGates.history [] (((), .run) :: [(), ()].map fun w =>
      (w, Call.resume .continue))).map (fun report => report.pause.isSome) = [true, true, true] := by
    decide
  have isSome : report.pause.isSome = true := by
    have listed := List.mem_map_of_mem (f := fun report => report.pause.isSome) member
    rw [paused] at listed
    simpa using listed
  simp [CallReport.pause, done] at isSome

theorem breakpoint_progress_gated :
    ∃ report ∈ { twoGates with interruptBefore := {"x"}, interruptAfter := {"y"} }.history []
        (((), .run) :: [(), ()].map fun w => (w, .resume .continue)),
      ∃ state, report.result = .ok (.done state) := by
  refine (breakpoint_progress { twoGates with interruptBefore := {"x"}, interruptAfter := {"y"} }
    (twoGates_succeed _ _) [] rfl () [(), ()] rfl).mpr ⟨["y", "x"], by decide, ?_⟩
  intro layer member
  have only : twoGates.dag.layered ["y", "x"] = [["y", "x"]] := by decide
  have same : layer ∈ twoGates.dag.layered ["y", "x"] := member
  rw [only, List.mem_singleton] at same
  rw [same]
  decide

end Interruptible

end AtomrAgents
