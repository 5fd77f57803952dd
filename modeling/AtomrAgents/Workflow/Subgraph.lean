import AtomrAgents.Workflow.StateRunner

set_option autoImplicit false

/-! Every call seeds the child's channels and saves them as super-step 0, under the one run id of the
subgraph. The runner then starts from the latest checkpoint, which is the seed only as long as no call has
completed a layer. -/

namespace AtomrAgents

structure Subgraph (W : Type) where
  workflowId : WorkflowId
  runId : RunId
  dag : Dag (StatefulStep W)
  schema : StateSchema
  inputChannels : List String
  outputChannels : List String
  -- the clock, as read before the n-th save into the store
  nowMs : Nat → Int

structure SubgraphReport where
  result : Except AgentError Value
  checkpointer : InMemoryCheckpointer

namespace Subgraph

variable {W : Type}

def runner (s : Subgraph W) : StatefulRunner W where
  workflowId := s.workflowId
  runId := s.runId
  dag := s.dag
  schema := s.schema
  nowMs := s.nowMs

def seedWrites (s : Subgraph W) (parentObj : List (String × Value)) : Writes :=
  s.inputChannels.filterMap fun k => (Value.field parentObj k).map fun v => (k, v)

def seedSnapshot (s : Subgraph W) (childState : RunState) (store : InMemoryCheckpointer) :
    Snapshot where
  key := { workflowId := s.workflowId, runId := s.runId, superStep := 0 }
  values := childState.snapshot
  label := "subgraph-seed"
  timestampMs := s.nowMs store.length

def output (s : Subgraph W) (finalState : RunState) : Value :=
  let outputs := s.outputChannels.foldl (fun outputs k => outputs.insert k (finalState.read k)) ∅
  .object [("outputs", .ofValues outputs), ("private_state", .ofValues finalState.snapshot)]

-- `display` is the text of a JSON value, as its formatter prints it.
def call (s : Subgraph W) (display : Value → String) (w : W) (store : InMemoryCheckpointer)
    (input : Value) : SubgraphReport :=
  match input with
  | .object parentObj =>
    match (RunState.new s.schema).mergeWrites (s.seedWrites parentObj) with
    | (.error e, _) => { result := .error e, checkpointer := store }
    | (.ok _, childState) =>
      let store := store.save (s.seedSnapshot childState store)
      let report := s.runner.run w store
      { result := report.result.map s.output, checkpointer := report.checkpointer }
  | other =>
    { result := .error (.workflow ("subgraph: expected object input, got " ++ display other))
      checkpointer := store }

-- The channels that a call's input seeds, if the call gets as far as that.
def seed (s : Subgraph W) : Value → Option RunState
  | .object parentObj =>
    match (RunState.new s.schema).mergeWrites (s.seedWrites parentObj) with
    | (.error _, _) => none
    | (.ok _, childState) => some childState
  | _ => none

theorem call_unseeded (s : Subgraph W) (display : Value → String) (w w' : W)
    (store store' : InMemoryCheckpointer) (input : Value) (unseeded : s.seed input = none) :
    (s.call display w store input).result = (s.call display w' store' input).result := by
  cases input with
  | object parentObj =>
    simp only [seed] at unseeded
    simp only [call]
    cases merged : (RunState.new s.schema).mergeWrites (s.seedWrites parentObj) with
    | mk outcome childState =>
      cases outcome with
      | error e => rfl
      | ok _ =>
        rw [merged] at unseeded
        cases unseeded
  | _ => rfl

theorem call_seeded (s : Subgraph W) (display : Value → String) (w : W)
    (store : InMemoryCheckpointer) {input : Value} {childState : RunState}
    (seeded : s.seed input = some childState) :
    (s.call display w store input).result =
      (s.runner.run w (store.save (s.seedSnapshot childState store))).result.map s.output := by
  cases input with
  | object parentObj =>
    simp only [seed] at seeded
    simp only [call]
    cases merged : (RunState.new s.schema).mergeWrites (s.seedWrites parentObj) with
    | mk outcome state =>
      rw [merged] at seeded
      cases outcome with
      | error e => cases seeded
      | ok _ =>
        cases seeded
        rfl
  | _ => cases seeded

theorem hydrate_seed (s : Subgraph W) (store : InMemoryCheckpointer) (childState : RunState)
    (unused : store.savedStep s.workflowId s.runId = 0) :
    s.runner.hydrate (store.save (s.seedSnapshot childState store)) =
      .fromSnapshot s.schema childState.values 0 := by
  have newest : (store.save (s.seedSnapshot childState store)).latest s.workflowId s.runId =
      some (s.seedSnapshot childState store) :=
    store.latest_save_of_le _ rfl rfl (Nat.le_of_eq unused)
  rw [StatefulRunner.hydrate]
  exact congrArg (RunState.hydrate s.schema) newest

theorem hydrate_used (s : Subgraph W) (store : InMemoryCheckpointer) (childState : RunState)
    (used : 0 < store.savedStep s.workflowId s.runId) :
    s.runner.hydrate (store.save (s.seedSnapshot childState store)) = s.runner.hydrate store :=
  congrArg (RunState.hydrate s.schema)
    (store.latest_save_of_lt (s.seedSnapshot childState store) used)

def afterCalls (s : Subgraph W) (display : Value → String) (store : InMemoryCheckpointer)
    (calls : List (W × Value)) : InMemoryCheckpointer :=
  calls.foldl (fun store call => (s.call display call.1 store call.2).checkpointer) store

theorem call_of_unused (s : Subgraph W) (display : Value → String)
    (deterministic : s.runner.StepsDeterministic) (w w' : W) (store : InMemoryCheckpointer)
    (input : Value)
    (isolated : s.seed input = none ∨ store.savedStep s.workflowId s.runId = 0) :
    (s.call display w store input).result = (s.call display w' [] input).result := by
  cases seeded : s.seed input with
  | none => exact s.call_unseeded display w w' store [] input seeded
  | some childState =>
    have unused : store.savedStep s.workflowId s.runId = 0 := by simpa [seeded] using isolated
    rw [s.call_seeded display w store seeded, s.call_seeded display w' [] seeded]
    congr 1
    apply s.runner.run_result_of_hydrate deterministic
    rw [s.hydrate_seed store childState unused, s.hydrate_seed [] childState rfl]

theorem call_of_used (s : Subgraph W) (display : Value → String)
    (deterministic : s.runner.StepsDeterministic) (w : W) (store : InMemoryCheckpointer)
    (used : 0 < store.savedStep s.workflowId s.runId) (input input' : Value)
    (accepted : s.seed input ≠ none) (accepted' : s.seed input' ≠ none) :
    (s.call display w store input).result = (s.call display w store input').result := by
  obtain ⟨childState, seeded⟩ := Option.ne_none_iff_exists'.mp accepted
  obtain ⟨childState', seeded'⟩ := Option.ne_none_iff_exists'.mp accepted'
  rw [s.call_seeded display w store seeded, s.call_seeded display w store seeded']
  congr 1
  apply s.runner.run_result_of_hydrate deterministic
  rw [s.hydrate_used store childState used, s.hydrate_used store childState' used]

/-- After any calls on the subgraph: a call that is rejected, or comes before the first completed
layer, returns what it returns on a fresh subgraph. Where the input matters at all, that is the case
for every input just as long as no layer has been completed. -/
theorem call_isolated (s : Subgraph W) (display : Value → String)
    (deterministic : s.runner.StepsDeterministic) (earlier : List (W × Value)) (w w' : W) :
    (∀ input, s.seed input = none ∨
        (s.afterCalls display [] earlier).savedStep s.workflowId s.runId = 0 →
      (s.call display w (s.afterCalls display [] earlier) input).result =
        (s.call display w' [] input).result) ∧
    ∀ input input', s.seed input ≠ none → s.seed input' ≠ none →
      (s.call display w' [] input).result ≠ (s.call display w' [] input').result →
      ((∀ i, (s.call display w (s.afterCalls display [] earlier) i).result =
          (s.call display w' [] i).result) ↔
        (s.afterCalls display [] earlier).savedStep s.workflowId s.runId = 0) := by
  refine ⟨fun input isolated => s.call_of_unused display deterministic w w' _ input isolated, ?_⟩
  intro input input' accepted accepted' distinct
  constructor
  · intro fresh
    by_contra used
    apply distinct
    rw [← fresh input, ← fresh input']
    exact s.call_of_used display deterministic w _ (Nat.pos_of_ne_zero used) input input' accepted
      accepted'
  · exact fun unused i => s.call_of_unused display deterministic w w' _ i (.inr unused)

def echo : Subgraph Unit where
  workflowId := "child-wf"
  runId := "child-run"
  dag := (Dag.builder "a").step "a" ⟨fun _ state => .ok [("out", state.read "in")]⟩
  schema := (StateSchema.builder.add "in" fun _ incoming => incoming).add "out" fun _ incoming => incoming
  inputChannels := ["in"]
  outputChannels := ["out"]
  nowMs := fun _ => 0

def outputText (key : String) : Except AgentError Value → Option String
  | .ok (.object fields) =>
    match Value.field fields "outputs" with
    | some (.object outputs) =>
      match Value.field outputs key with
      | some (.string text) => some text
      | _ => none
    | _ => none
  | _ => none

-- The second call returns what the first one was given.
theorem call_isolated_fails :
    (echo.call (fun _ => "null") () (echo.afterCalls (fun _ => "null") []
        [((), .object [("in", .string "one")])]) (.object [("in", .string "two")])).result ≠
      (echo.call (fun _ => "null") () [] (.object [("in", .string "two")])).result := by
  intro same
  have stale : outputText "out" (echo.call (fun _ => "null") () (echo.afterCalls (fun _ => "null") []
      [((), .object [("in", .string "one")])]) (.object [("in", .string "two")])).result =
        some "one" := by decide
  rw [same] at stale
  exact absurd stale (by decide)

theorem call_isolated_echo :
    (echo.call (fun _ => "null") () (echo.afterCalls (fun _ => "null") [] [((), .null)])
        (.object [("in", .string "two")])).result =
      (echo.call (fun _ => "null") () [] (.object [("in", .string "two")])).result :=
  (call_isolated echo (fun _ => "null") (fun _ _ _ _ _ _ => rfl) [((), .null)] () ()).1
    (.object [("in", .string "two")]) (.inr rfl)

end Subgraph

end AtomrAgents
