import AtomrAgents.Shared.Loop
import AtomrAgents.State.Checkpointer
import AtomrAgents.Workflow.Layering

set_option autoImplicit false

namespace AtomrAgents

open Shared

-- `W` is what a step can see besides the channels: the faults and services of one call.
structure StatefulStep (W : Type) where
  run : W → RunState → Except AgentError Writes

-- One start of a step, recorded by the runner's turn that spawned it.
structure Execution where
  superStep : Nat
  stepId : StepId
  state : RunState

structure StatefulRunner (W : Type) where
  workflowId : WorkflowId
  runId : RunId
  dag : Dag (StatefulStep W)
  schema : StateSchema
  -- the clock, as read before the n-th save into the store
  nowMs : Nat → Int

structure RunReport where
  result : Except AgentError RunState
  checkpointer : InMemoryCheckpointer
  executed : List Execution

structure RunnerLoop where
  state : RunState
  checkpointer : InMemoryCheckpointer
  executed : List Execution

namespace StatefulRunner

variable {W : Type}

def layered (r : StatefulRunner W) (order : List StepId) : List (List StepId) :=
  r.dag.layered order

-- Every step of the layer is spawned on the same state; a missing one stops the spawning.
def spawnLayer (r : StatefulRunner W) (w : W) (superStep : Nat) (state : RunState) :
    List StepId → Except AgentError (List (Except AgentError Writes)) × List Execution
  | [] => (.ok [], [])
  | sid :: rest =>
    match r.dag.steps[sid]? with
    | none => (.error (.workflow ("missing step " ++ sid)), [])
    | some step =>
      let (handles, spawned) := r.spawnLayer w superStep state rest
      (handles.map (step.run w state :: ·), { superStep, stepId := sid, state } :: spawned)

-- The handles are awaited in layer order, so the first failure in that order is returned.
def awaitAll : List (Except AgentError Writes) → Except AgentError Writes
  | [] => .ok []
  | handle :: rest => do
    let writes ← handle
    let others ← awaitAll rest
    return writes ++ others

def snapshot (r : StatefulRunner W) (superStep : Nat) (state : RunState)
    (store : InMemoryCheckpointer) : Snapshot where
  key := { workflowId := r.workflowId, runId := r.runId, superStep }
  values := state.snapshot
  label := "layer:" ++ toString superStep
  timestampMs := r.nowMs store.length

def visitLayer (r : StatefulRunner W) (w : W) (resumeAt : Nat) (loop : RunnerLoop)
    (entry : List StepId × Nat) : Flow RunnerLoop RunReport :=
  let (layer, layerIdx) := entry
  let superStep := layerIdx + 1
  if superStep ≤ resumeAt then .next loop
  else
    let (handles, spawned) := r.spawnLayer w superStep loop.state layer
    let executed := loop.executed ++ spawned
    match handles.bind awaitAll with
    | .error e => .ret { result := .error e, checkpointer := loop.checkpointer, executed }
    | .ok allWrites =>
      match loop.state.commit allWrites with
      | .error e => .ret { result := .error e, checkpointer := loop.checkpointer, executed }
      | .ok state =>
        let store := loop.checkpointer.save (r.snapshot superStep state loop.checkpointer)
        .next { state, checkpointer := store, executed }

def hydrate (r : StatefulRunner W) (store : InMemoryCheckpointer) : RunState :=
  .hydrate r.schema (store.latest r.workflowId r.runId)

def run (r : StatefulRunner W) (w : W) (store : InMemoryCheckpointer) : RunReport :=
  let state := r.hydrate store
  match r.dag.topoSort with
  | .error e => { result := .error e, checkpointer := store, executed := [] }
  | .ok order =>
    (forEach (r.visitLayer w state.superStep) (r.layered order).zipIdx
        { state, checkpointer := store, executed := [] }).finish
      fun loop => ⟨.ok loop.state, loop.checkpointer, loop.executed⟩

def layerStage (r : StatefulRunner W) (w : W) (layer : List StepId) : Stage RunState AgentError :=
  fun state => ((r.spawnLayer w 0 state layer).1.bind awaitAll).bind state.commit

theorem spawnLayer_handles (r : StatefulRunner W) (w : W) (n : Nat) (state : RunState)
    (layer : List StepId) :
    (r.spawnLayer w n state layer).1 = (r.spawnLayer w 0 state layer).1 := by
  induction layer with
  | nil => rfl
  | cons sid rest ih => cases found : r.dag.steps[sid]? <;> simp [spawnLayer, found, ih]

theorem spawnLayer_spawned (r : StatefulRunner W) (w : W) (n : Nat) (state : RunState)
    (layer : List StepId) (e : Execution) (member : e ∈ (r.spawnLayer w n state layer).2) :
    e.superStep = n ∧ e.stepId ∈ layer ∧ e.state = state := by
  induction layer with
  | nil => simp [spawnLayer] at member
  | cons sid rest ih =>
    cases found : r.dag.steps[sid]? with
    | none => simp [spawnLayer, found] at member
    | some step =>
      simp only [spawnLayer, found, List.mem_cons] at member
      rcases member with rfl | member
      · exact ⟨rfl, by simp, rfl⟩
      · obtain ⟨same, inside, given⟩ := ih member
        exact ⟨same, List.mem_cons_of_mem _ inside, given⟩

theorem layerStage_frame {r : StatefulRunner W} {w : W} {layer : List StepId}
    {state next : RunState} (completed : r.layerStage w layer state = .ok next) :
    next.schema = state.schema ∧ next.superStep = state.superStep + 1 := by
  unfold layerStage at completed
  cases writes : (r.spawnLayer w 0 state layer).1.bind awaitAll with
  | error e =>
    rw [writes] at completed
    cases completed
  | ok allWrites =>
    rw [writes] at completed
    exact RunState.commit_frame completed

theorem visitLayer_eq (r : StatefulRunner W) (w : W) (resumeAt : Nat) (loop : RunnerLoop)
    (layer : List StepId) (layerIdx : Nat) (later : resumeAt ≤ layerIdx) :
    r.visitLayer w resumeAt loop (layer, layerIdx) =
      let executed := loop.executed ++ (r.spawnLayer w (layerIdx + 1) loop.state layer).2
      match r.layerStage w layer loop.state with
      | .error e => .ret ⟨.error e, loop.checkpointer, executed⟩
      | .ok state => .next ⟨state,
          loop.checkpointer.save (r.snapshot (layerIdx + 1) state loop.checkpointer), executed⟩ := by
  have past : ¬ layerIdx + 1 ≤ resumeAt := by omega
  simp only [visitLayer, past, if_false, layerStage, spawnLayer_handles]
  cases writes : (r.spawnLayer w 0 loop.state layer).1.bind awaitAll with
  | error e => rfl
  | ok allWrites => cases loop.state.commit allWrites <;> rfl

theorem run_post (r : StatefulRunner W) (w : W) (store : InMemoryCheckpointer)
    {order : List StepId} (sorted : r.dag.topoSort = .ok order)
    (invariant : Nat → RunnerLoop → Prop) (returns : RunReport → Prop)
    (start : invariant (r.hydrate store).superStep ⟨r.hydrate store, store, []⟩)
    (fails : ∀ p layer loop e, (r.layered order)[p]? = some layer →
      (r.hydrate store).superStep ≤ p → invariant p loop → r.layerStage w layer loop.state = .error e →
      returns ⟨.error e, loop.checkpointer,
        loop.executed ++ (r.spawnLayer w (p + 1) loop.state layer).2⟩)
    (completes : ∀ p layer loop state, (r.layered order)[p]? = some layer →
      (r.hydrate store).superStep ≤ p → invariant p loop → r.layerStage w layer loop.state = .ok state →
      invariant (p + 1) ⟨state, loop.checkpointer.save (r.snapshot (p + 1) state loop.checkpointer),
        loop.executed ++ (r.spawnLayer w (p + 1) loop.state layer).2⟩)
    (finished : ∀ p loop, (r.layered order).length ≤ p → (r.hydrate store).superStep ≤ p →
      invariant p loop → returns ⟨.ok loop.state, loop.checkpointer, loop.executed⟩) :
    returns (r.run w store) := by
  have post := forEach_enumerated (r.visitLayer w (r.hydrate store).superStep) (r.layered order)
    (r.hydrate store).superStep
    (fun layer i loop early => by
      have skipped : i + 1 ≤ (r.hydrate store).superStep := by omega
      exact if_pos skipped)
    invariant returns
    (fun p layer loop found later holds => by
      rw [r.visitLayer_eq w _ loop layer p later]
      cases stage : r.layerStage w layer loop.state with
      | error e => exact fails p layer loop e found later holds stage
      | ok state => exact completes p layer loop state found later holds stage)
    ⟨r.hydrate store, store, []⟩ start
  rw [run, sorted]
  exact post.finish returns fun loop ⟨p, past, later, holds⟩ => finished p loop past later holds

end StatefulRunner

end AtomrAgents

namespace AtomrAgents.StatefulRunner

open Shared

variable {W : Type}

def StepsDeterministic (r : StatefulRunner W) : Prop :=
  ∀ (sid : StepId) (step : StatefulStep W), r.dag.steps[sid]? = some step →
    ∀ w w' state, step.run w state = step.run w' state

def awaitLayer (r : StatefulRunner W) (w : W) (state : RunState) (layer : List StepId) :
    Except AgentError Writes :=
  (r.spawnLayer w 0 state layer).1.bind awaitAll

theorem awaitLayer_cons (r : StatefulRunner W) (w : W) (state : RunState) (sid : StepId)
    (rest : List StepId) (declared : ∀ s ∈ rest, s ∈ r.dag.steps) {step : StatefulStep W}
    (found : r.dag.steps[sid]? = some step) :
    r.awaitLayer w state (sid :: rest) =
      (step.run w state).bind (fun writes => (r.awaitLayer w state rest).map (writes ++ ·)) := by
  have spawned : ∃ handles, (r.spawnLayer w 0 state rest).1 = .ok handles := by
    clear found
    induction rest with
    | nil => exact ⟨[], rfl⟩
    | cons t rest ih =>
      obtain ⟨handles, ok⟩ := ih (fun s member => declared s (List.mem_cons_of_mem _ member))
      obtain ⟨other, found⟩ := r.dag.exists_step (declared t (by simp))
      exact ⟨other.run w state :: handles, by simp only [spawnLayer, found, ok, Except.map]⟩
  obtain ⟨handles, ok⟩ := spawned
  simp only [awaitLayer, spawnLayer, found, ok, Except.map, Except.bind, awaitAll]
  cases step.run w state with
  | error e => rfl
  | ok writes => cases awaitAll handles <;> rfl

theorem layerStage_eq (r : StatefulRunner W) (w : W) (layer : List StepId) (state : RunState) :
    r.layerStage w layer state = (r.awaitLayer w state layer).bind state.commit := rfl

theorem layerStage_any (r : StatefulRunner W) (deterministic : r.StepsDeterministic) (w w' : W)
    (layer : List StepId) (state : RunState) (declared : ∀ s ∈ layer, s ∈ r.dag.steps) :
    r.layerStage w layer state = r.layerStage w' layer state := by
  have same : r.awaitLayer w state layer = r.awaitLayer w' state layer := by
    induction layer with
    | nil => rfl
    | cons sid rest ih =>
      obtain ⟨step, found⟩ := r.dag.exists_step (declared sid (by simp))
      have others : ∀ s ∈ rest, s ∈ r.dag.steps := fun s inside => declared s (by simp [inside])
      rw [r.awaitLayer_cons w state sid rest others found, ih others,
        r.awaitLayer_cons w' state sid rest others found, deterministic sid step found w w' state]
  rw [layerStage_eq, layerStage_eq, same]

abbrev layerStages (r : StatefulRunner W) (w : W) (order : List StepId) :
    List (Stage RunState AgentError) :=
  (r.layered order).map (r.layerStage w)

theorem run_result (r : StatefulRunner W) (w : W) (store : InMemoryCheckpointer)
    {order : List StepId} (sorted : r.dag.topoSort = .ok order) :
    (r.run w store).result =
      runStages ((r.layerStages w order).drop (r.hydrate store).superStep) (r.hydrate store) := by
  refine r.run_post w store sorted
    (fun p loop => runStages ((r.layerStages w order).drop p) loop.state =
      runStages ((r.layerStages w order).drop (r.hydrate store).superStep) (r.hydrate store))
    (fun report => report.result =
      runStages ((r.layerStages w order).drop (r.hydrate store).superStep) (r.hydrate store))
    rfl ?_ ?_ ?_
  · intro p layer loop e found _ remaining failed
    rw [List.drop_eq_getElem?_toList_append, List.getElem?_map, found] at remaining
    simp only [Option.map_some, Option.toList_some, List.singleton_append, runStages_cons, failed,
      Except.bind] at remaining
    exact remaining
  · intro p layer loop state found _ remaining completed
    rw [List.drop_eq_getElem?_toList_append, List.getElem?_map, found] at remaining
    simp only [Option.map_some, Option.toList_some, List.singleton_append, runStages_cons, completed,
      Except.bind] at remaining
    exact remaining
  · intro p loop past _ remaining
    rw [List.drop_eq_nil_of_le (by rw [List.length_map]; exact past), runStages_nil] at remaining
    exact remaining

theorem run_result_of_hydrate (r : StatefulRunner W) (deterministic : r.StepsDeterministic) (w w' : W)
    {store store' : InMemoryCheckpointer} (same : r.hydrate store = r.hydrate store') :
    (r.run w store).result = (r.run w' store').result := by
  cases sorted : r.dag.topoSort with
  | error e => simp only [run, sorted]
  | ok order =>
    have stages : r.layerStages w order = r.layerStages w' order := by
      apply List.map_congr_left
      intro layer member
      funext state
      exact r.layerStage_any deterministic w w' layer state (Dag.layer_declared sorted member)
    rw [r.run_result w store sorted, r.run_result w' store' sorted, same, stages]

end AtomrAgents.StatefulRunner
