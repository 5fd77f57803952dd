import AtomrAgents.Workflow.StateRunner

set_option autoImplicit false

/-! The abstract run is a staged computation over the layers. Whatever a call of the runner does, the store
stands for a checkpoint of that computation afterwards. -/

namespace AtomrAgents.StatefulRunner

open Shared

variable {W : Type}

-- A step that succeeds writes a function of the state it is given, in every call.
def Deterministic (r : StatefulRunner W) (writes : StepId → RunState → Writes) : Prop :=
  ∀ w sid step state ws, r.dag.steps[sid]? = some step → step.run w state = .ok ws →
    ws = writes sid state

def SucceedsAt (r : StatefulRunner W) (w : W) (sid : StepId) (state : RunState) : Prop :=
  ∀ step, r.dag.steps[sid]? = some step → ∃ ws, step.run w state = .ok ws

def NoStepFails (r : StatefulRunner W) (w : W) (executed : List Execution) : Prop :=
  ∀ e ∈ executed, r.SucceedsAt w e.stepId e.state

def layerWrites (writes : StepId → RunState → Writes) (layer : List StepId) :
    Stage RunState AgentError :=
  fun state => state.commit (layer.flatMap (writes · state))

theorem awaitLayer_ok {r : StatefulRunner W} {writes : StepId → RunState → Writes}
    (deterministic : r.Deterministic writes) (w : W) (layer : List StepId) (state : RunState)
    (declared : ∀ sid ∈ layer, sid ∈ r.dag.steps) (ws : Writes)
    (ok : r.awaitLayer w state layer = .ok ws) : ws = layer.flatMap (writes · state) := by
  induction layer generalizing ws with
  | nil => cases ok; rfl
  | cons sid rest ih =>
    have others : ∀ s ∈ rest, s ∈ r.dag.steps := fun s inside => declared s (by simp [inside])
    obtain ⟨step, found⟩ := r.dag.exists_step (declared sid (by simp))
    rw [r.awaitLayer_cons w state sid rest others found] at ok
    cases first : step.run w state with
    | error e => simp [first, Except.bind] at ok
    | ok own =>
      cases tail : r.awaitLayer w state rest with
      | error e => simp [first, tail, Except.bind, Except.map] at ok
      | ok more =>
        simp only [first, tail, Except.bind, Except.map, Except.ok.injEq] at ok
        rw [← ok, ih others more tail, deterministic w sid step state own found first]
        rfl

theorem awaitLayer_of_succeeds (r : StatefulRunner W) (w : W) (layer : List StepId)
    (state : RunState) (declared : ∀ sid ∈ layer, sid ∈ r.dag.steps)
    (succeeds : ∀ sid ∈ layer, r.SucceedsAt w sid state) : ∃ ws, r.awaitLayer w state layer = .ok ws := by
  induction layer with
  | nil => exact ⟨[], rfl⟩
  | cons sid rest ih =>
    have others : ∀ s ∈ rest, s ∈ r.dag.steps := fun s inside => declared s (by simp [inside])
    obtain ⟨more, tail⟩ := ih others (fun s member => succeeds s (List.mem_cons_of_mem _ member))
    obtain ⟨step, found⟩ := r.dag.exists_step (declared sid (by simp))
    obtain ⟨own, first⟩ := succeeds sid (by simp) step found
    rw [r.awaitLayer_cons w state sid rest others found, first, tail]
    exact ⟨own ++ more, rfl⟩

theorem layerStage_refines {r : StatefulRunner W} {writes : StepId → RunState → Writes}
    (deterministic : r.Deterministic writes) (w : W) (layer : List StepId)
    (declared : ∀ sid ∈ layer, sid ∈ r.dag.steps) :
    (r.layerStage w layer).Refines (layerWrites writes layer) := by
  intro state next completed
  rw [layerStage_eq] at completed
  cases awaited : r.awaitLayer w state layer with
  | error e =>
    rw [awaited] at completed
    cases completed
  | ok ws =>
    rw [awaited] at completed
    rw [layerWrites, ← awaitLayer_ok deterministic w layer state declared ws awaited]
    exact completed

theorem layerStage_of_succeeds {r : StatefulRunner W} {writes : StepId → RunState → Writes}
    (deterministic : r.Deterministic writes) (w : W) (layer : List StepId) (state : RunState)
    (declared : ∀ sid ∈ layer, sid ∈ r.dag.steps)
    (succeeds : ∀ sid ∈ layer, r.SucceedsAt w sid state) :
    r.layerStage w layer state = layerWrites writes layer state := by
  obtain ⟨ws, ok⟩ := r.awaitLayer_of_succeeds w layer state declared succeeds
  rw [layerStage_eq, ok, layerWrites, ← awaitLayer_ok deterministic w layer state declared ws ok]
  rfl

theorem spawnLayer_all (r : StatefulRunner W) (w : W) (n : Nat) (state : RunState)
    (layer : List StepId) (declared : ∀ sid ∈ layer, sid ∈ r.dag.steps) :
    (r.spawnLayer w n state layer).2 = layer.map (fun sid => ⟨n, sid, state⟩) := by
  induction layer with
  | nil => rfl
  | cons sid rest ih =>
    obtain ⟨step, found⟩ := r.dag.exists_step (declared sid (by simp))
    simp [spawnLayer, found, ih (fun s inside => declared s (List.mem_cons_of_mem _ inside))]

section Run

variable (r : StatefulRunner W) (writes : StepId → RunState → Writes) (order : List StepId)

abbrev stages : List (Stage RunState AgentError) :=
  (r.layered order).map (layerWrites writes)

abbrev Holds (store : InMemoryCheckpointer)
    (checkpoint : Checkpoint (stages r writes order) (.new r.schema)) : Prop :=
  Progress r.workflowId r.runId r.schema store checkpoint

def Visited (resumeAt : Nat) (executed : List Execution) : Prop :=
  ∀ e ∈ executed, resumeAt < e.superStep ∧
    ∃ layer, (r.layered order)[e.superStep - 1]? = some layer ∧ e.stepId ∈ layer

def Invariant (resumeAt : Nat) (position : Nat) (loop : RunnerLoop) : Prop :=
  ∃ checkpoint : Checkpoint (stages r writes order) (.new r.schema),
    Holds r writes order loop.checkpointer checkpoint ∧ checkpoint.state = loop.state ∧
      checkpoint.position = position ∧ Visited r order resumeAt loop.executed

def Returned (w : W) (resumeAt : Nat) (report : RunReport) : Prop :=
  (∃ checkpoint, Holds r writes order report.checkpointer checkpoint) ∧
    Visited r order resumeAt report.executed ∧
    (r.NoStepFails w report.executed →
      report.result = runStages (stages r writes order) (RunState.new r.schema))

end Run

variable {r : StatefulRunner W} {writes : StepId → RunState → Writes} {order : List StepId}

theorem Visited.spawn {resumeAt position : Nat} {executed : List Execution} {layer : List StepId}
    (visited : Visited r order resumeAt executed) (found : (r.layered order)[position]? = some layer)
    (later : resumeAt ≤ position) (w : W) (state : RunState) :
    Visited r order resumeAt (executed ++ (r.spawnLayer w (position + 1) state layer).2) := by
  intro e member
  cases List.mem_append.mp member with
  | inl old => exact visited e old
  | inr new =>
    obtain ⟨step, inside, _⟩ := r.spawnLayer_spawned _ _ _ _ e new
    exact ⟨by omega, layer, by simpa [step] using found, inside⟩

theorem layer_fails (deterministic : r.Deterministic writes)
    (sorted : r.dag.topoSort = .ok order) (w : W) (resumeAt position : Nat) (layer : List StepId)
    (loop : RunnerLoop) (e : AgentError) (found : (r.layered order)[position]? = some layer)
    (later : resumeAt ≤ position) (holds : Invariant r writes order resumeAt position loop)
    (failed : r.layerStage w layer loop.state = .error e) :
    Returned r writes order w resumeAt ⟨.error e, loop.checkpointer,
      loop.executed ++ (r.spawnLayer w (position + 1) loop.state layer).2⟩ := by
  obtain ⟨checkpoint, held, current, rfl, visited⟩ := holds
  have declared := Dag.layer_declared sorted (List.mem_of_getElem? found)
  refine ⟨⟨checkpoint, held⟩, visited.spawn found later w loop.state, fun succeeds => ?_⟩
  have steps : ∀ sid ∈ layer, r.SucceedsAt w sid loop.state := by
    intro sid member
    refine succeeds ⟨checkpoint.position + 1, sid, loop.state⟩ (List.mem_append_right _ ?_)
    rw [r.spawnLayer_all _ _ _ _ declared]
    exact List.mem_map_of_mem member
  -- the failure is the layer's own, so the uninterrupted run fails there in the same way
  rw [layerStage_of_succeeds deterministic w layer loop.state declared steps, ← current] at failed
  exact (checkpoint.fails (by simp [stages, found]) failed).symm

theorem layer_completes (deterministic : r.Deterministic writes)
    (sorted : r.dag.topoSort = .ok order) (w : W) (resumeAt position : Nat) (layer : List StepId)
    (loop : RunnerLoop) (state : RunState)
    (found : (r.layered order)[position]? = some layer) (later : resumeAt ≤ position)
    (holds : Invariant r writes order resumeAt position loop)
    (completed : r.layerStage w layer loop.state = .ok state) :
    Invariant r writes order resumeAt (position + 1) ⟨state,
      loop.checkpointer.save (r.snapshot (position + 1) state loop.checkpointer),
      loop.executed ++ (r.spawnLayer w (position + 1) loop.state layer).2⟩ := by
  obtain ⟨checkpoint, held, current, rfl, visited⟩ := holds
  have frame := layerStage_frame completed
  have refined := layerStage_refines deterministic w layer
    (Dag.layer_declared sorted (List.mem_of_getElem? found)) loop.state state completed
  rw [← current] at frame refined
  let next := checkpoint.advance (layerWrites writes layer) state (by simp [stages, found]) refined
  have step : state.superStep = checkpoint.position + 1 := by rw [frame.2, held.position]
  exact ⟨next, held.save next _ rfl rfl rfl rfl (frame.1.trans held.schema) step (Nat.le_succ _), rfl,
    rfl, visited.spawn found later w loop.state⟩

theorem run_returned (deterministic : r.Deterministic writes)
    (sorted : r.dag.topoSort = .ok order) (w : W) (store : InMemoryCheckpointer)
    (checkpoint : Checkpoint (stages r writes order) (.new r.schema))
    (held : Holds r writes order store checkpoint) :
    Returned r writes order w checkpoint.position (r.run w store) := by
  have position : (r.hydrate store).superStep = checkpoint.position := by
    rw [hydrate, held.hydrate, held.position]
  refine r.run_post w store sorted (Invariant r writes order checkpoint.position)
    (Returned r writes order w checkpoint.position) ?_ ?_ ?_ ?_
  · exact ⟨checkpoint, held, held.hydrate.symm, position.symm, fun e member => nomatch member⟩
  · intro p layer loop e found later holds failed
    rw [position] at later
    exact layer_fails deterministic sorted w _ p layer loop e found later holds failed
  · intro p layer loop state found later holds completed
    rw [position] at later
    exact layer_completes deterministic sorted w _ p layer loop state found later holds completed
  · intro p loop past _ ⟨last, held, current, reached, visited⟩
    refine ⟨⟨last, held⟩, visited, fun _ => ?_⟩
    rw [last.complete (by rw [reached, List.length_map]; exact past), current]

def afterCalls (r : StatefulRunner W) (store : InMemoryCheckpointer) (calls : List W) :
    InMemoryCheckpointer :=
  calls.foldl (fun store w => (r.run w store).checkpointer) store

theorem afterCalls_holds (deterministic : r.Deterministic writes)
    (sorted : r.dag.topoSort = .ok order) (calls : List W) (store : InMemoryCheckpointer)
    (start : ∃ checkpoint, Holds r writes order store checkpoint) :
    ∃ checkpoint, Holds r writes order (r.afterCalls store calls) checkpoint := by
  induction calls generalizing store with
  | nil => exact start
  | cons w rest ih =>
    obtain ⟨checkpoint, held⟩ := start
    exact ih _ (run_returned deterministic sorted w store checkpoint held).1

/-- Calls that fail at any steps, then a call in which no step fails: its result is that of one
uninterrupted run, and it starts no step of a layer that the store already has. -/
theorem crash_resume (r : StatefulRunner W) (writes : StepId → RunState → Writes)
    (deterministic : r.Deterministic writes) (store : InMemoryCheckpointer)
    (fresh : store.latest r.workflowId r.runId = none) (calls : List W) (last : W) :
    (∀ reference, r.NoStepFails last (r.run last (r.afterCalls store calls)).executed →
      r.NoStepFails reference (r.run reference []).executed →
      (r.run last (r.afterCalls store calls)).result = (r.run reference []).result) ∧
    ∀ order, r.dag.topoSort = .ok order →
      ∀ n layer, (r.layered order)[n]? = some layer →
        (∃ snapshot ∈ (r.afterCalls store calls).ofRun r.workflowId r.runId,
          snapshot.key.superStep = n + 1) →
        ∀ e ∈ (r.run last (r.afterCalls store calls)).executed, e.stepId ∉ layer := by
  cases sorted : r.dag.topoSort with
  | error e => simp [run, sorted]
  | ok order =>
    obtain ⟨checkpoint, held⟩ := afterCalls_holds deterministic sorted calls store
      ⟨_, Progress.initial _ fresh⟩
    have final := run_returned deterministic sorted last _ checkpoint held
    constructor
    · intro reference succeeds reference_succeeds
      have whole := run_returned deterministic sorted reference []
        _ (Progress.initial _ rfl)
      rw [final.2.2 succeeds, whole.2.2 reference_succeeds]
    · rintro order' ⟨⟩ n layer found ⟨snapshot, saved, step⟩ e executed
      obtain ⟨later, layer', found', inside⟩ := final.2.1 e executed
      have bound := InMemoryCheckpointer.le_savedStep _ snapshot saved
      rw [held.savedStep] at bound
      exact Dag.layer_unique (Dag.layered_nodup sorted) found' found (by omega) inside

-- Two steps in a row, the second of which needs a service that may be down.
def twoLayers : StatefulRunner Bool where
  workflowId := "wf"
  runId := "r"
  dag := (((Dag.builder "a").step "a" ⟨fun _ _ => .ok [("config", .string "a")]⟩).step "b"
    ⟨fun up _ => if up then .ok [("config", .string "b")]
      else .error (.workflow "first run dies on b")⟩).edge "a" "b"
  schema := StateSchema.builder.add "config" (fun _ incoming => incoming)
  nowMs := fun _ => 0

theorem twoLayers_step (sid : StepId) (step : StatefulStep Bool)
    (found : twoLayers.dag.steps[sid]? = some step) :
    (sid = "a" ∧ step = ⟨fun _ _ => .ok [("config", .string "a")]⟩) ∨
      (sid = "b" ∧ step = ⟨fun up _ => if up then .ok [("config", .string "b")]
        else .error (.workflow "first run dies on b")⟩) := by
  simp only [twoLayers, Dag.edge, Dag.step, Dag.builder, Std.ExtTreeMap.getElem?_insert,
    Std.LawfulEqCmp.compare_eq_iff_eq] at found
  split at found
  · next same => exact .inr ⟨same.symm, by simpa using found.symm⟩
  · split at found
    · next same => exact .inl ⟨same.symm, by simpa using found.symm⟩
    · simp at found

theorem crash_resume_twoLayers :
    (twoLayers.run true (twoLayers.afterCalls [] [false, false])).result =
      (twoLayers.run true []).result := by
  have up (executed : List Execution) : twoLayers.NoStepFails true executed := by
    intro e _ step found
    obtain ⟨_, rfl⟩ | ⟨_, rfl⟩ := twoLayers_step _ step found <;> exact ⟨_, rfl⟩
  refine (crash_resume twoLayers (fun sid _ => [("config", .string sid)]) ?_ [] rfl
    [false, false] true).1 true (up _) (up _)
  intro w sid step state ws found ran
  obtain ⟨rfl, rfl⟩ | ⟨rfl, rfl⟩ := twoLayers_step sid step found
  · cases ran
    rfl
  · cases w <;> cases ran
    rfl

end AtomrAgents.StatefulRunner
