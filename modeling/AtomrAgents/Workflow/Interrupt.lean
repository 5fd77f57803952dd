import AtomrAgents.Workflow.StateRunner
import Mathlib.Data.Finset.Basic

set_option autoImplicit false

namespace AtomrAgents

open Shared

inductive Command where
  | continue
  | resume (value : Value)
  | update (edits : Writes)
  | goto (stepId : StepId)

inductive PauseReason where
  | dynamicInterrupt (stepId : StepId)
  | before (stepId : StepId)
  | after (stepId : StepId)
  deriving DecidableEq

inductive RunOutcome where
  | done (state : RunState)
  | paused (superStep : Nat) (reason : PauseReason) (payload : Option Value)

structure InterruptRequest where
  stepId : StepId
  payload : Option Value

structure InterruptCtrl where
  inner : Option InterruptRequest
  resumeValue : Option Value

namespace InterruptCtrl

def new : InterruptCtrl := { inner := none, resumeValue := none }

def interrupt (ctrl : InterruptCtrl) (stepId : StepId) (payload : Option Value) : InterruptCtrl :=
  { ctrl with inner := some { stepId, payload } }

def takeResumeValue (ctrl : InterruptCtrl) : Option Value × InterruptCtrl :=
  (ctrl.resumeValue, { ctrl with resumeValue := none })

def pending (ctrl : InterruptCtrl) : Option InterruptRequest × InterruptCtrl :=
  (ctrl.inner, { ctrl with inner := none })

def setResumeValue (ctrl : InterruptCtrl) (v : Option Value) : InterruptCtrl :=
  { ctrl with resumeValue := v }

end InterruptCtrl

-- What a step does with its control: only the two public methods are open to it.
inductive StepBody where
  | done (result : Except AgentError Writes)
  | takeResumeValue (next : Option Value → StepBody)
  | interrupt (stepId : StepId) (payload : Option Value) (next : StepBody)

def StepBody.exec : StepBody → InterruptCtrl →
    Except AgentError Writes × InterruptCtrl × List (Option Value)
  | .done result, ctrl => (result, ctrl, [])
  | .takeResumeValue next, ctrl =>
    let (value, ctrl) := ctrl.takeResumeValue
    let (result, ctrl, taken) := (next value).exec ctrl
    (result, ctrl, value :: taken)
  | .interrupt stepId payload next, ctrl => next.exec (ctrl.interrupt stepId payload)

structure InterruptibleStep (W : Type) where
  run : W → RunState → StepBody

def PlainStep {W : Type} (step : StatefulStep W) : InterruptibleStep W where
  run w state := .done (step.run w state)

structure Interruptible (W : Type) where
  workflowId : WorkflowId
  runId : RunId
  dag : Dag (InterruptibleStep W)
  schema : StateSchema
  interruptBefore : Finset StepId
  interruptAfter : Finset StepId
  -- the clock, as read before the n-th save into the store
  nowMs : Nat → Int

structure Visit extends Execution where
  taken : List (Option Value)

-- `state`, `entered` (the layers the loop came to) and `visits` are observations of the call;
-- its caller gets `result`, and the store.
structure CallReport where
  result : Except AgentError RunOutcome
  state : RunState
  checkpointer : InMemoryCheckpointer
  entered : List (Nat × RunState)
  visits : List Visit

def CallReport.pause (report : CallReport) : Option (Nat × PauseReason) :=
  match report.result with
  | .ok (.paused superStep reason _) => some (superStep, reason)
  | _ => none

def CallReport.payload (report : CallReport) : Option Value :=
  match report.result with
  | .ok (.paused _ _ payload) => payload
  | _ => none

theorem CallReport.result_of_pause {report : CallReport} {n : Nat} {reason : PauseReason}
    (paused : report.pause = some (n, reason)) :
    report.result = .ok (.paused n reason report.payload) := by
  rw [pause] at paused
  rw [payload]
  split at paused
  · next found =>
    cases paused
    rw [found]
  · cases paused

structure Cursor where
  state : RunState
  ctrl : InterruptCtrl
  resumeValue : Option Value
  skipBreakpointsOnce : Bool
  checkpointer : InMemoryCheckpointer
  entered : List (Nat × RunState)
  visits : List Visit

def Cursor.returns (cursor : Cursor) (result : Except AgentError RunOutcome) : CallReport where
  result := result
  state := cursor.state
  checkpointer := cursor.checkpointer
  entered := cursor.entered
  visits := cursor.visits

structure StepLoop where
  ctrl : InterruptCtrl
  resumeValue : Option Value
  visits : List Visit
  allWrites : Writes

inductive StepStop where
  | failed (e : AgentError)
  | interrupted (req : InterruptRequest)

-- `if let Some(rv) = resume_value.take() { ctrl.set_resume_value(Some(rv)) }`
def StepLoop.deliver (loop : StepLoop) : StepLoop :=
  match loop.resumeValue with
  | some rv => { loop with ctrl := loop.ctrl.setResumeValue (some rv), resumeValue := none }
  | none => loop

namespace StepLoop

@[simp] theorem deliver_visits (loop : StepLoop) : loop.deliver.visits = loop.visits := by
  cases held : loop.resumeValue <;> simp [deliver, held]

@[simp] theorem deliver_allWrites (loop : StepLoop) : loop.deliver.allWrites = loop.allWrites := by
  cases held : loop.resumeValue <;> simp [deliver, held]

@[simp] theorem deliver_inner (loop : StepLoop) : loop.deliver.ctrl.inner = loop.ctrl.inner := by
  cases held : loop.resumeValue <;> simp [deliver, held, InterruptCtrl.setResumeValue]

end StepLoop

/-- One scan of a layer for a breakpoint: what is left of the one-shot flag, and the step that
pauses the run. -/
def breakpoint (set : Finset StepId) : List StepId → Bool → Bool × Option StepId
  | [], skip => (skip, none)
  | sid :: rest, skip =>
    if sid ∈ set then
      if skip then breakpoint set rest false else (skip, some sid)
    else breakpoint set rest skip

def Cursor.afterSteps (cursor : Cursor) (loop : StepLoop) : Cursor :=
  { cursor with ctrl := loop.ctrl, resumeValue := loop.resumeValue, visits := loop.visits }

def Command.parts : Command → Option Value × Writes × Option StepId
  | .continue => (none, [], none)
  | .resume v => (some v, [], none)
  | .update es => (none, es, none)
  | .goto s => (none, [], some s)

namespace Interruptible

variable {W : Type}

def pauseLabel : PauseReason → String
  | .dynamicInterrupt stepId => "interrupt:" ++ stepId
  | .before s => "before:" ++ s
  | .after s => "after:" ++ s

def pauseSnapshot (r : Interruptible W) (state : RunState) (superStep : Nat) (reason : PauseReason)
    (payload : Option Value) (store : InMemoryCheckpointer) : Snapshot where
  key := { workflowId := r.workflowId, runId := r.runId, superStep }
  values := match payload with
    | some p => state.snapshot.insert "__interrupt_payload__" p
    | none => state.snapshot
  label := pauseLabel reason
  timestampMs := r.nowMs store.length

def persistPause (r : Interruptible W) (store : InMemoryCheckpointer) (state : RunState)
    (superStep : Nat) (reason : PauseReason) (payload : Option Value) : InMemoryCheckpointer :=
  store.save (r.pauseSnapshot state superStep reason payload store)

def layerSnapshot (r : Interruptible W) (superStep : Nat) (state : RunState)
    (store : InMemoryCheckpointer) : Snapshot where
  key := { workflowId := r.workflowId, runId := r.runId, superStep }
  values := state.snapshot
  label := "layer:" ++ toString superStep
  timestampMs := r.nowMs store.length

def visitStep (r : Interruptible W) (w : W) (superStep : Nat) (state : RunState) (loop : StepLoop)
    (sid : StepId) : Flow StepLoop (StepStop × StepLoop) :=
  let loop := loop.deliver
  match r.dag.steps[sid]? with
  | none => .ret (.failed (.workflow ("missing step " ++ sid)), loop)
  | some step =>
    let (result, ctrl, taken) := (step.run w state).exec loop.ctrl
    let visits := loop.visits ++ [{ superStep, stepId := sid, state, taken }]
    match result with
    | .error e => .ret (.failed e, { loop with ctrl, visits })
    | .ok writes =>
      match ctrl.pending with
      | (some req, ctrl) => .ret (.interrupted req, { loop with ctrl, visits })
      | (none, ctrl) => .next { loop with ctrl, visits, allWrites := loop.allWrites ++ writes }

def visitSteps (r : Interruptible W) (w : W) (superStep : Nat) (cursor : Cursor)
    (layer : List StepId) : Flow StepLoop (StepStop × StepLoop) :=
  forEach (r.visitStep w superStep cursor.state) layer
    { ctrl := cursor.ctrl, resumeValue := cursor.resumeValue, visits := cursor.visits, allWrites := [] }

def visitLayer (r : Interruptible W) (w : W) (startLayer : Nat) (cursor : Cursor)
    (entry : List StepId × Nat) : Flow Cursor CallReport :=
  let (layer, layerIdx) := entry
  let superStep := layerIdx + 1
  if superStep ≤ startLayer then .next cursor
  else
    let cursor := { cursor with entered := cursor.entered ++ [(superStep, cursor.state)] }
    match breakpoint r.interruptBefore layer cursor.skipBreakpointsOnce with
    | (_, some sid) =>
      let store := r.persistPause cursor.checkpointer cursor.state (superStep - 1) (.before sid) none
      .ret ({ cursor with checkpointer := store }.returns (.ok (.paused superStep (.before sid) none)))
    | (skipBreakpointsOnce, none) =>
      match r.visitSteps w superStep cursor layer with
      | .ret (.failed e, loop) => .ret ((cursor.afterSteps loop).returns (.error e))
      | .ret (.interrupted req, loop) =>
        let cursor := cursor.afterSteps loop
        let reason := PauseReason.dynamicInterrupt req.stepId
        let store := r.persistPause cursor.checkpointer cursor.state (superStep - 1) reason req.payload
        .ret ({ cursor with checkpointer := store }.returns (.ok (.paused superStep reason req.payload)))
      | .next loop =>
        let cursor := cursor.afterSteps loop
        match cursor.state.mergeWrites loop.allWrites with
        | (.error e, state) => .ret ({ cursor with state }.returns (.error e))
        | (.ok _, state) =>
          let state := state.advance
          let store := cursor.checkpointer.save (r.layerSnapshot superStep state cursor.checkpointer)
          let cursor := { cursor with state, checkpointer := store }
          match breakpoint r.interruptAfter layer skipBreakpointsOnce with
          | (_, some sid) => .ret (cursor.returns (.ok (.paused superStep (.after sid) none)))
          | (skipBreakpointsOnce, none) => .next { cursor with skipBreakpointsOnce }

-- The layers that are skipped: those before `goto`'s layer, else those already saved.
def startLayer (layers : List (List StepId)) (resumeAt : Nat) (goto : Option StepId) : Nat :=
  (goto.bind fun sid => layers.findIdx? (sid ∈ ·)).getD resumeAt

def runInner (r : Interruptible W) (w : W) (store : InMemoryCheckpointer) (state : RunState)
    (resumeValue : Option Value) (goto : Option StepId) (skipBreakpointsOnce : Bool) : CallReport :=
  let cursor : Cursor :=
    { state, ctrl := .new, resumeValue, skipBreakpointsOnce, checkpointer := store, entered := [],
      visits := [] }
  match r.dag.topoSort with
  | .error e => cursor.returns (.error e)
  | .ok order =>
    let layers := r.dag.layered order
    (forEach (r.visitLayer w (startLayer layers state.superStep goto)) layers.zipIdx cursor).finish
      fun cursor => cursor.returns (.ok (.done cursor.state))

def hydrate (r : Interruptible W) (store : InMemoryCheckpointer) : RunState :=
  .hydrate r.schema (store.latest r.workflowId r.runId)

def run (r : Interruptible W) (w : W) (store : InMemoryCheckpointer) : CallReport :=
  r.runInner w store (r.hydrate store) none none false

def resume (r : Interruptible W) (w : W) (store : InMemoryCheckpointer) (command : Command) :
    CallReport :=
  match store.latest r.workflowId r.runId with
  | none =>
    ⟨.error (.workflow "resume: no checkpoint"), r.hydrate store, store, [], []⟩
  | some snap =>
    let (resumeValue, edits, goto) := command.parts
    let values := edits.foldl (fun values edit => values.insert edit.1 edit.2) snap.values
    r.runInner w store (.fromSnapshot r.schema values snap.key.superStep) resumeValue goto true

end Interruptible

end AtomrAgents
