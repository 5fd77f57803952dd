import AtomrAgents.Workflow.InterruptLoop
import AtomrAgents.Workflow.StateRunner

set_option autoImplicit false

/-! An interruptible run of plain steps and the stateful run of the same steps are the same staged computation
over the layers. A pause saves the checkpoint it stands at, so the calls of a run walk through the checkpoints
of that computation in order. -/

namespace AtomrAgents

open Shared

namespace Dag

variable {S T : Type}

def mapSteps (f : S → T) (dag : Dag S) : Dag T :=
  { steps := dag.steps.map (fun _ step => f step), edges := dag.edges, entry := dag.entry }

@[simp] theorem mapSteps_topoSort (f : S → T) (dag : Dag S) :
    (dag.mapSteps f).topoSort = dag.topoSort :=
  topoSort_congr (by simp [mapSteps]) rfl

end Dag

namespace StatefulRunner

variable {W : Type}

def withBreakpoints (r : StatefulRunner W) (before after : Finset StepId) : Interruptible W where
  workflowId := r.workflowId
  runId := r.runId
  dag := r.dag.mapSteps PlainStep
  schema := r.schema
  interruptBefore := before
  interruptAfter := after
  nowMs := r.nowMs

theorem visitStep_awaits (r : StatefulRunner W) (before after : Finset StepId) (w : W)
    (superStep : Nat) (state : RunState) (loop : StepLoop) (sid : StepId) {step : StatefulStep W}
    (found : r.dag.steps[sid]? = some step) (quiet : loop.ctrl.inner = none) :
    ((r.withBreakpoints before after).visitStep w superStep state loop sid).Post
      (fun last => ∃ writes, step.run w state = .ok writes ∧
        last.allWrites = loop.allWrites ++ writes ∧ last.ctrl.inner = none)
      (fun stop => ∃ e, stop.1 = .failed e ∧ step.run w state = .error e) := by
  have plain : (r.withBreakpoints before after).dag.steps[sid]? = some (PlainStep step) := by
    simp [withBreakpoints, Dag.mapSteps, Std.ExtTreeMap.getElem?_map, found]
  simp only [Interruptible.visitStep, plain, PlainStep, StepBody.exec, InterruptCtrl.pending]
  cases ran : step.run w state with
  | error e => exact ⟨e, rfl, rfl⟩
  | ok writes =>
    simp only [StepLoop.deliver_inner, quiet]
    exact ⟨writes, rfl, by rw [StepLoop.deliver_allWrites], rfl⟩

theorem visitSteps_awaits (r : StatefulRunner W) (before after : Finset StepId) (w : W)
    (superStep : Nat) (cursor : Cursor) (layer : List StepId)
    (declared : ∀ s ∈ layer, s ∈ r.dag.steps) (quiet : cursor.ctrl.inner = none) :
    ((r.withBreakpoints before after).visitSteps w superStep cursor layer).Post
      (fun loop => r.awaitLayer w cursor.state layer = .ok loop.allWrites ∧ loop.ctrl.inner = none)
      (fun stop => ∃ e, stop.1 = .failed e ∧ r.awaitLayer w cursor.state layer = .error e) := by
  have steps (layer : List StepId) (loop : StepLoop) (declared : ∀ s ∈ layer, s ∈ r.dag.steps)
      (quiet : loop.ctrl.inner = none) :
      (forEach ((r.withBreakpoints before after).visitStep w superStep cursor.state) layer loop).Post
        (fun last => ∃ writes, r.awaitLayer w cursor.state layer = .ok writes ∧
          last.allWrites = loop.allWrites ++ writes ∧ last.ctrl.inner = none)
        (fun stop => ∃ e, stop.1 = .failed e ∧ r.awaitLayer w cursor.state layer = .error e) := by
    induction layer generalizing loop with
    | nil => exact ⟨[], rfl, by simp, quiet⟩
    | cons sid rest ih =>
      have others : ∀ s ∈ rest, s ∈ r.dag.steps := fun s inside => declared s (by simp [inside])
      obtain ⟨step, found⟩ := r.dag.exists_step (declared sid (by simp))
      have first := r.visitStep_awaits before after w superStep cursor.state loop sid found quiet
      rw [forEach, r.awaitLayer_cons w cursor.state sid rest others found]
      cases turn : (r.withBreakpoints before after).visitStep w superStep cursor.state loop sid with
      | ret stop =>
        rw [turn] at first
        obtain ⟨e, failed, ran⟩ := first
        exact ⟨e, failed, by rw [ran]; rfl⟩
      | next next =>
        rw [turn] at first
        obtain ⟨writes, ran, grown, quiet⟩ := first
        rw [ran]
        apply (ih next others quiet).mono
        · rintro last ⟨more, awaited, appended, quiet⟩
          exact ⟨writes ++ more, by rw [awaited]; rfl, by rw [appended, grown, List.append_assoc], quiet⟩
        · rintro stop ⟨e, failed, awaited⟩
          exact ⟨e, failed, by rw [awaited]; rfl⟩
  apply (steps layer ⟨cursor.ctrl, cursor.resumeValue, cursor.visits, []⟩ declared quiet).mono
  · rintro loop ⟨writes, awaited, appended, quiet⟩
    exact ⟨by rw [awaited, appended, List.nil_append], quiet⟩
  · exact fun stop failed => failed

section Calls

variable (r : StatefulRunner W) (before after : Finset StepId) (w₀ : W) (order : List StepId)

/-- The store stands for a checkpoint, and just the steps before it have been executed, unless the
computation has no result anyway. -/
def Stands (store : InMemoryCheckpointer) (executed : List StepId) : Prop :=
  ∃ checkpoint : Checkpoint (r.layerStages w₀ order) (.new r.schema),
    Progress r.workflowId r.runId r.schema store checkpoint ∧
    (executed = ((r.layered order).take checkpoint.position).flatten ∨
      ∃ e, runStages (r.layerStages w₀ order) (.new r.schema) = .error e)

def Transparent (executed : List StepId) (report : CallReport) : Prop :=
  r.Stands w₀ order report.checkpointer (executed ++ report.visits.map (·.stepId)) ∧
    ∀ state, report.result = .ok (.done state) →
      runStages (r.layerStages w₀ order) (.new r.schema) = .ok state ∧
      executed ++ report.visits.map (·.stepId) = (r.layered order).flatten

def At (executed : List StepId) (position : Nat) (cursor : Cursor) : Prop :=
  ∃ checkpoint : Checkpoint (r.layerStages w₀ order) (.new r.schema),
    checkpoint.position = position ∧ checkpoint.state = cursor.state ∧
    Progress r.workflowId r.runId r.schema cursor.checkpointer checkpoint ∧
    cursor.ctrl.inner = none ∧
    (executed ++ cursor.visits.map (·.stepId) = ((r.layered order).take position).flatten ∨
      ∃ e, runStages (r.layerStages w₀ order) (.new r.schema) = .error e)

end Calls

variable {r : StatefulRunner W} {w₀ : W} {order : List StepId}

theorem At.advance (deterministic : r.StepsDeterministic) {executed : List StepId} {position : Nat}
    {cursor : Cursor} (standing : r.At w₀ order executed position cursor) {layer : List StepId}
    (found : (r.layered order)[position]? = some layer)
    (declared : ∀ s ∈ layer, s ∈ r.dag.steps) (w : W) {writes : Writes} {next : RunState}
    (awaited : r.awaitLayer w cursor.state layer = .ok writes)
    (committed : cursor.state.commit writes = .ok next) (snapshot : Snapshot)
    (workflow : snapshot.key.workflowId = r.workflowId) (run : snapshot.key.runId = r.runId)
    (values : snapshot.values = next.values) (step : snapshot.key.superStep = position + 1)
    (after : Cursor) (state : after.state = next)
    (saved : after.checkpointer = cursor.checkpointer.save snapshot)
    (quiet : after.ctrl.inner = none)
    (visits : after.visits.map (·.stepId) = cursor.visits.map (·.stepId) ++ layer) :
    r.At w₀ order executed (position + 1) after := by
  obtain ⟨checkpoint, rfl, current, progress, _, ran⟩ := standing
  have completed : r.layerStage w₀ layer checkpoint.state = .ok next := by
    rw [r.layerStage_any deterministic w₀ w layer _ declared, layerStage_eq, current, awaited]
    exact committed
  have frame := layerStage_frame completed
  let later := checkpoint.advance (r.layerStage w₀ layer) next (by simp [layerStages, found]) completed
  refine ⟨later, rfl, state.symm, ?_, quiet, ran.imp (fun known => ?_) id⟩
  · rw [saved]
    exact progress.save later snapshot workflow run values step (frame.1.trans progress.schema)
      (by rw [show later.state = next from rfl, frame.2, progress.position]; rfl) (Nat.le_succ _)
  · rw [visits, ← List.append_assoc, known, List.take_add_one, found, List.flatten_append]
    simp

theorem At.stands {executed : List StepId} {position : Nat} {cursor : Cursor}
    (standing : r.At w₀ order executed position cursor) :
    r.Stands w₀ order cursor.checkpointer (executed ++ cursor.visits.map (·.stepId)) := by
  obtain ⟨checkpoint, rfl, _, progress, _, ran⟩ := standing
  exact ⟨checkpoint, progress, ran⟩

theorem At.fails (deterministic : r.StepsDeterministic) {executed : List StepId} {position : Nat}
    {cursor : Cursor} (standing : r.At w₀ order executed position cursor) {layer : List StepId}
    (found : (r.layered order)[position]? = some layer)
    (declared : ∀ s ∈ layer, s ∈ r.dag.steps) (w : W) {e : AgentError}
    (failed : r.layerStage w layer cursor.state = .error e) (result : Except AgentError RunOutcome)
    (error : ∃ e, result = .error e) (state : RunState) (entered : List (Nat × RunState))
    (visits : List Visit) :
    r.Transparent w₀ order executed ⟨result, state, cursor.checkpointer, entered, visits⟩ := by
  obtain ⟨checkpoint, rfl, current, progress, _, _⟩ := standing
  rw [← current, r.layerStage_any deterministic w w₀ layer _ declared] at failed
  have whole := checkpoint.fails (by simp [layerStages, found]) failed
  refine ⟨⟨checkpoint, progress, .inr ⟨e, whole⟩⟩, fun state done => ?_⟩
  obtain ⟨e', same⟩ := error
  dsimp only at done
  rw [same] at done
  cases done

theorem turn_transparent (deterministic : r.StepsDeterministic) (before after : Finset StepId) (w : W)
    {executed : List StepId} {position : Nat} {cursor : Cursor}
    (standing : r.At w₀ order executed position cursor) {layer : List StepId}
    (found : (r.layered order)[position]? = some layer)
    (declared : ∀ s ∈ layer, s ∈ r.dag.steps) {flow : Flow Cursor CallReport}
    (turn : Interruptible.LayerTurn (r.withBreakpoints before after) w cursor layer (position + 1)
      flow) :
    flow.Post (r.At w₀ order executed (position + 1)) (r.Transparent w₀ order executed) := by
  have own := standing
  obtain ⟨checkpoint, reached, current, progress, quiet, ran'⟩ := standing
  have awaits := r.visitSteps_awaits before after w (position + 1) cursor layer declared quiet
  have pass := (r.withBreakpoints before after).visitSteps_passed w (position + 1) cursor layer
  cases turn with
  | before sid hit =>
    refine ⟨⟨checkpoint, ?_, by rw [reached]; exact ran'⟩, by rintro state ⟨⟩⟩
    exact progress.save checkpoint _ rfl rfl (by rw [current]; rfl) reached.symm progress.schema
      progress.position (Nat.le_refl _)
  | failed skip clear e loop ran =>
    rw [ran] at awaits
    obtain ⟨e', _, awaited⟩ := awaits
    have failed : r.layerStage w layer cursor.state = .error e' := by
      rw [layerStage_eq, awaited]
      rfl
    exact own.fails deterministic found declared w failed _ ⟨e, rfl⟩ _ _ _
  | interrupted skip clear req loop ran =>
    rw [ran] at awaits
    obtain ⟨_, failed, _⟩ := awaits
    cases failed
  | rejected skip clear loop ran e state merged =>
    rw [ran] at awaits
    have failed : r.layerStage w layer cursor.state = .error e := by
      rw [layerStage_eq, awaits.1, Except.bind, RunState.commit, merged]
    exact own.fails deterministic found declared w failed _ ⟨e, rfl⟩ _ _ _
  | after skip clear loop ran next committed sid hit =>
    rw [ran] at awaits pass
    obtain ⟨new, passed⟩ := pass
    have visited : loop.visits.map (·.stepId) = cursor.visits.map (·.stepId) ++ layer := by
      rw [passed.visits, List.map_append, passed.steps]
    let last : Cursor := ⟨next, loop.ctrl, loop.resumeValue, skip,
      cursor.checkpointer.save ((r.withBreakpoints before after).layerSnapshot (position + 1) next
        cursor.checkpointer), cursor.entered ++ [(position + 1, cursor.state)], loop.visits⟩
    have stands : r.At w₀ order executed (position + 1) last :=
      own.advance deterministic found declared w awaits.1 committed _ rfl rfl rfl rfl last rfl rfl
        awaits.2 visited
    exact ⟨stands.stands, by rintro state ⟨⟩⟩
  | completed skip clear loop ran next committed skip' clear' =>
    rw [ran] at awaits pass
    obtain ⟨new, passed⟩ := pass
    exact own.advance deterministic found declared w awaits.1 committed _ rfl rfl rfl rfl _ rfl rfl
      awaits.2 (by rw [passed.visits, List.map_append, passed.steps])

theorem runInner_transparent (deterministic : r.StepsDeterministic) (before after : Finset StepId)
    (sorted : r.dag.topoSort = .ok order) (w : W) (store : InMemoryCheckpointer)
    (executed : List StepId) (stands : r.Stands w₀ order store executed) (skip : Bool) :
    r.Transparent w₀ order executed ((r.withBreakpoints before after).runInner w store
      (.hydrate r.schema (store.latest r.workflowId r.runId)) none none skip) := by
  obtain ⟨checkpoint, progress, ran⟩ := stands
  have sorted' : (r.withBreakpoints before after).dag.topoSort = .ok order := by
    simpa [withBreakpoints] using sorted
  refine (r.withBreakpoints before after).runInner_post w store _ none none skip sorted'
    (r.At w₀ order executed) (r.Transparent w₀ order executed) ?_ ?_ ?_
  · refine ⟨checkpoint, ?_, progress.hydrate.symm, progress, rfl, ?_⟩
    · rw [← progress.position, ← progress.hydrate]
      rfl
    · rw [progress.hydrate, Interruptible.startLayer, Option.bind_none, Option.getD_none, progress.position]
      simpa using ran
  · intro p layer cursor flow found _ standing turn
    have declared := Dag.layer_declared sorted (List.mem_of_getElem? found)
    exact turn_transparent deterministic before after w standing found declared turn
  · intro p cursor past _ standing
    refine ⟨standing.stands, fun state done => ?_⟩
    obtain ⟨last, rfl, current, _, _, ran⟩ := standing
    cases done
    have past : (r.layered order).length ≤ last.position := past
    have whole := last.complete (by simpa [layerStages] using past)
    refine ⟨by rw [whole, current], ?_⟩
    cases ran with
    | inl known => exact known.trans (by rw [List.take_of_length_le past])
    | inr failed => simp [whole] at failed

theorem call_transparent (deterministic : r.StepsDeterministic) (before after : Finset StepId)
    (sorted : r.dag.topoSort = .ok order) (w : W) (store : InMemoryCheckpointer)
    (executed : List StepId) (stands : r.Stands w₀ order store executed) (call : Call)
    (plain : call = .run ∨ call = .resume .continue) :
    r.Transparent w₀ order executed ((r.withBreakpoints before after).call w store call) := by
  have inner := runInner_transparent deterministic before after sorted w store executed stands
  cases plain with
  | inl run =>
    rw [run]
    exact inner false
  | inr resume =>
    rw [resume, Interruptible.call, Interruptible.resume]
    have key : store.latest (r.withBreakpoints before after).workflowId
        (r.withBreakpoints before after).runId = store.latest r.workflowId r.runId := rfl
    rw [key]
    cases saved : store.latest r.workflowId r.runId with
    | none => exact ⟨by simpa using stands, by rintro state ⟨⟩⟩
    | some snapshot =>
      rw [saved] at inner
      exact inner true

def executedSteps (reports : List CallReport) : List StepId :=
  reports.flatMap fun report => report.visits.map (·.stepId)

theorem history_transparent (deterministic : r.StepsDeterministic) (before after : Finset StepId)
    (sorted : r.dag.topoSort = .ok order) (calls : List (W × Call))
    (plain : ∀ call ∈ calls, call.2 = .run ∨ call.2 = .resume .continue)
    (store : InMemoryCheckpointer) (executed : List StepId)
    (stands : r.Stands w₀ order store executed) (report : CallReport)
    (last : ((r.withBreakpoints before after).history store calls).getLast? = some report)
    (state : RunState) (ended : report.result = .ok (.done state)) :
    runStages (r.layerStages w₀ order) (.new r.schema) = .ok state ∧
      executed ++ executedSteps ((r.withBreakpoints before after).history store calls) =
        (r.layered order).flatten := by
  induction calls generalizing store executed with
  | nil => cases last
  | cons call rest ih =>
    have first := call_transparent deterministic before after sorted call.1 store executed stands
      call.2 (plain call (by simp))
    rw [Interruptible.history] at last ⊢
    cases rest with
    | nil =>
      cases last
      simpa [executedSteps, Interruptible.history] using first.2 state ended
    | cons next more =>
      have tail := ih (fun call member => plain call (List.mem_cons_of_mem _ member))
        ((r.withBreakpoints before after).call call.1 store call.2).checkpointer _ first.1
        (by rwa [Interruptible.history, List.getLast?_cons_cons] at last)
      refine ⟨tail.1, ?_⟩
      rw [← tail.2]
      simp [executedSteps]

/-- A run with breakpoints that is resumed to its end has the result of the run without them, and
has executed every step once. -/
theorem breakpoints_transparent (r : StatefulRunner W) (deterministic : r.StepsDeterministic)
    (before after : Finset StepId) (store : InMemoryCheckpointer)
    (fresh : store.latest r.workflowId r.runId = none) (w : W) (ws : List W) (report : CallReport)
    (last : ((r.withBreakpoints before after).history store
      ((w, .run) :: ws.map fun w => (w, .resume .continue))).getLast? = some report)
    (state : RunState) (ended : report.result = .ok (.done state)) (reference : W) :
    (r.run reference []).result = .ok state ∧
      ∀ sid, (executedSteps ((r.withBreakpoints before after).history store
          ((w, .run) :: ws.map fun w => (w, .resume .continue)))).count sid =
        if sid ∈ r.dag.steps then 1 else 0 := by
  have plain : ∀ call ∈ (w, Call.run) :: ws.map fun w => (w, Call.resume .continue),
      call.2 = .run ∨ call.2 = .resume .continue := by
    simp
  cases sorted : r.dag.topoSort with
  | error e =>
    have unsorted : (r.withBreakpoints before after).dag.topoSort = .error e := by
      simpa [withBreakpoints] using sorted
    obtain ⟨_, failed⟩ := (r.withBreakpoints before after).history_unsorted unsorted store _ report
      (List.mem_of_getLast? last)
    rw [failed] at ended
    cases ended
  | ok order =>
    have stands : r.Stands reference order store [] := ⟨_, Progress.initial _ fresh, .inl rfl⟩
    obtain ⟨whole, executed⟩ := history_transparent deterministic before after sorted _ plain store []
      stands report last state ended
    rw [List.nil_append] at executed
    refine ⟨by rw [r.run_result reference [] sorted]; exact whole, fun sid => ?_⟩
    have once : (r.layered order).flatten.Nodup := Dag.layered_nodup sorted
    rw [executed, once.count]
    simp only [StatefulRunner.layered, Dag.mem_layered sorted]

def drafting : StatefulRunner Unit where
  workflowId := "wf"
  runId := "r"
  dag := (((Dag.builder "draft").step "draft" ⟨fun _ _ => .ok [("text", .string "draft")]⟩).step
    "publish" ⟨fun _ _ => .ok [("text", .string "final")]⟩).edge "draft" "publish"
  schema := StateSchema.builder.add "text" (fun _ incoming => incoming)
  nowMs := fun _ => 0

theorem breakpoints_transparent_drafting :
    ∃ state, (drafting.run () []).result = .ok state ∧
      (executedSteps ((drafting.withBreakpoints ∅ {"draft"}).history []
        [((), .run), ((), .resume .continue)])).count "publish" = 1 := by
  generalize reported : (drafting.withBreakpoints ∅ {"draft"}).resume ()
    ((drafting.withBreakpoints ∅ {"draft"}).run () []).checkpointer .continue = report
  have completed : report.result.isOk ∧ report.pause.isNone := by
    rw [← reported]
    decide
  have last : ((drafting.withBreakpoints ∅ {"draft"}).history []
      ((((), .run) : Unit × Call) :: [()].map fun w => (w, .resume .continue))).getLast? =
        some report := by
    rw [← reported]
    rfl
  have declared : "publish" ∈ drafting.dag.steps := by simp [drafting, Dag.edge, Dag.step]
  cases ended : report.result with
  | error e => simp [ended, Except.isOk, Except.toBool] at completed
  | ok outcome =>
    cases outcome with
    | paused n reason payload => simp [CallReport.pause, ended] at completed
    | done state =>
      obtain ⟨whole, once⟩ := breakpoints_transparent drafting (fun _ _ _ _ _ _ => rfl) ∅ {"draft"}
        [] rfl () [()] report last state ended ()
      exact ⟨state, whole, (once "publish").trans (if_pos declared)⟩

end StatefulRunner

end AtomrAgents
