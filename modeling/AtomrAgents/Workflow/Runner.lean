import AtomrAgents.Shared.Loop
import AtomrAgents.Workflow.Dag
import AtomrAgents.Workflow.Layering
import Mathlib.Data.Finset.Insert

set_option autoImplicit false

namespace AtomrAgents

-- `W` is what a callable can see besides its input: the faults and services of one run.
structure Callable (W : Type) where
  call : W → Value → Except AgentError Value

inductive JoinStrategy where
  | all
  | any
  deriving DecidableEq

-- `exec_step` reads nothing of the last three.
inductive Step (W : Type) where
  | invoke (callable : Callable W)
  | branch (predicate : Value → Bool) (ifTrue ifFalse : StepId)
  | parallel (steps : List StepId) (join : JoinStrategy)
  | loop
  | map
  | human

inductive WorkflowEvent where
  | stepStarted (stepId : StepId) (idempotencyKey : String)
  | stepCompleted (stepId : StepId) (output : Value)
  | stepFailed (stepId : StepId) (error : String)
  | branchTaken (stepId chosen : StepId)
  | humanApproved (stepId : StepId) (approver : String)
  | terminated (ok : Bool)

abbrev InMemoryJournal := List (WorkflowId × WorkflowEvent)

namespace InMemoryJournal

def append (journal : InMemoryJournal) (workflowId : WorkflowId) (event : WorkflowEvent) :
    InMemoryJournal :=
  journal ++ [(workflowId, event)]

def replay (journal : InMemoryJournal) (workflowId : WorkflowId) : List WorkflowEvent :=
  (journal.filter fun entry => entry.1 = workflowId).map Prod.snd

@[simp] theorem replay_append (journal : InMemoryJournal) (workflowId : WorkflowId)
    (event : WorkflowEvent) :
    (journal.append workflowId event).replay workflowId = journal.replay workflowId ++ [event] := by
  simp [append, replay]

end InMemoryJournal

structure WorkflowState where
  completed : Finset StepId
  outputs : Std.ExtTreeMap StepId Value compare
  branches : Std.ExtTreeMap StepId StepId compare
  terminated : Option Bool

namespace WorkflowState

def default : WorkflowState := { completed := ∅, outputs := ∅, branches := ∅, terminated := none }

def complete (s : WorkflowState) (stepId : StepId) (output : Value) : WorkflowState :=
  { s with completed := insert stepId s.completed, outputs := s.outputs.insert stepId output }

def apply (s : WorkflowState) : WorkflowEvent → WorkflowState
  | .stepCompleted stepId output => s.complete stepId output
  | .branchTaken stepId chosen => { s with branches := s.branches.insert stepId chosen }
  | .terminated ok => { s with terminated := some ok }
  | _ => s

def fold (events : List WorkflowEvent) : WorkflowState := events.foldl apply default

@[simp] theorem fold_append (events more : List WorkflowEvent) :
    fold (events ++ more) = more.foldl apply (fold events) := by
  rw [fold, List.foldl_append]
  rfl

end WorkflowState

end AtomrAgents

namespace AtomrAgents

open Shared

structure WorkflowRunner (W : Type) where
  id : WorkflowId
  dag : Dag (Step W)

-- `calls` (which callable was given which input) and `executed` are observations of the run.
structure WorkflowReport where
  result : Except AgentError Value
  journal : InMemoryJournal
  calls : List (StepId × Value)
  executed : List StepId

structure WorkflowLoop where
  state : WorkflowState
  currentInput : Value
  journal : InMemoryJournal
  calls : List (StepId × Value)
  executed : List StepId

def WorkflowLoop.returns (loop : WorkflowLoop) (result : Except AgentError Value) : WorkflowReport :=
  { result, journal := loop.journal, calls := loop.calls, executed := loop.executed }

namespace WorkflowRunner

variable {W : Type}

-- The children of a parallel step that are spawned, up to the first one that cannot be.
def spawnChildren (r : WorkflowRunner W) (w : W) (input : Value) :
    List StepId → Except AgentError (List (Except AgentError Value)) × List (StepId × Value)
  | [] => (.ok [], [])
  | sid :: rest =>
    match r.dag.steps[sid]? with
    | none => (.error (.workflow ("parallel: unknown " ++ sid)), [])
    | some (.invoke callable) =>
      let (handles, calls) := r.spawnChildren w input rest
      (handles.map (callable.call w input :: ·), (sid, input) :: calls)
    | some _ => (.error (.workflow "parallel currently supports only Invoke children"), [])

-- The outputs in the order of the children; a failure ends an `All` join.
def awaitChildren (join : JoinStrategy) :
    List (Except AgentError Value) → Except AgentError (List Value)
  | [] => .ok []
  | .ok v :: rest => (awaitChildren join rest).map (v :: ·)
  | .error e :: rest =>
    match join with
    | .all => .error e
    | .any => awaitChildren join rest

def joined (join : JoinStrategy) (outs : List Value) : Value :=
  match join with
  | .all => .array outs
  | .any => outs.head?.getD .null

-- `stepId` only serves the record of calls.
def execStep (r : WorkflowRunner W) (w : W) (stepId : StepId) (step : Step W) (input : Value)
    (state : WorkflowState) : Except AgentError Value × WorkflowState × List (StepId × Value) :=
  match step with
  | .invoke callable => (callable.call w input, state, [(stepId, input)])
  | .branch predicate ifTrue ifFalse =>
    let chosen := if predicate input then ifTrue else ifFalse
    (.ok (.object [("branch", .string chosen)]),
      { state with branches := state.branches.insert "__branch__" chosen }, [])
  | .parallel steps join =>
    let (handles, calls) := r.spawnChildren w input steps
    ((handles.bind (awaitChildren join)).map (joined join), state, calls)
  | .loop | .map | .human => (.ok input, state, [])

def lastOutput (r : WorkflowRunner W) (state : WorkflowState) : Option Value :=
  match r.dag.topoSort with
  | .error _ => none
  | .ok order => order.reverse.findSome? fun id => state.outputs[id]?

def visit (r : WorkflowRunner W) (w : W) (loop : WorkflowLoop) (stepId : StepId) :
    Flow WorkflowLoop WorkflowReport :=
  if stepId ∈ loop.state.completed then .next loop
  else
    let loop := { loop with
      journal := loop.journal.append r.id (.stepStarted stepId (r.id ++ "/" ++ stepId)) }
    match r.dag.steps[stepId]? with
    | none => .ret (loop.returns (.error (.workflow ("unknown step " ++ stepId))))
    | some step =>
      let (result, state, calls) := r.execStep w stepId step loop.currentInput loop.state
      let loop := { loop with
        state, calls := loop.calls ++ calls, executed := loop.executed ++ [stepId] }
      match result with
      | .ok out =>
        .next { loop with
          journal := loop.journal.append r.id (.stepCompleted stepId out)
          state := loop.state.complete stepId out
          currentInput := out }
      | .error e =>
        let failed := loop.journal.append r.id (.stepFailed stepId e.toString)
        let journal := failed.append r.id (.terminated false)
        .ret ({ loop with journal }.returns (.error e))

def run (r : WorkflowRunner W) (w : W) (journal : InMemoryJournal) (input : Value) :
    WorkflowReport :=
  let state := WorkflowState.fold (journal.replay r.id)
  let loop : WorkflowLoop := { state, currentInput := input, journal, calls := [], executed := [] }
  if state.terminated = some true then
    loop.returns (.ok ((r.lastOutput state).getD .null))
  else
    match r.dag.topoSort with
    | .error e => loop.returns (.error e)
    | .ok order =>
      (forEach (r.visit w) order loop).finish fun loop =>
        { loop with journal := loop.journal.append r.id (.terminated true) }.returns
          (.ok ((r.lastOutput loop.state).getD .null))

end WorkflowRunner

end AtomrAgents
