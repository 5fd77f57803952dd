import AtomrAgents.DeepResearch.Result
import AtomrAgents.Shared.Table
import Mathlib.Data.List.Dedup
import Mathlib.Data.String.Basic

set_option autoImplicit false

/-! Every strategy is a machine of stages that calls the six roles. Where it stands is kept in the strategy,
what the roles have made is kept in the result. The calls of the roles are logged. -/

namespace AtomrAgents.DeepResearch

open Shared

inductive ClarifyOutcome where
  | ready
  | needAnswers (questions : List String)

structure CritiqueOutcome where
  summary : String
  gaps : List String
  done : Bool

-- A role works on the result through the handle. An error is its text.
abbrev RoleAnswer (α : Type) := Except String α × ResearchResult

-- `researchAll`: researchers whose futures are joined, one task after another within each list.
structure DeepResearchRoles where
  clarifier : ResearchRequest → ResearchResult → RoleAnswer ClarifyOutcome
  planner : ResearchRequest → ResearchResult → RoleAnswer Plan
  researcher : SubQuestion → ResearchRequest → ResearchResult → RoleAnswer Unit
  researchAll : List (List SubQuestion) → ResearchRequest → ResearchResult → RoleAnswer Unit
  writer : Plan → ResearchRequest → ResearchResult → RoleAnswer Unit
  critic : ResearchRequest → ResearchResult → RoleAnswer CritiqueOutcome
  verifier : ResearchRequest → ResearchResult → RoleAnswer Unit

inductive RoleCall where
  | clarify
  | plan
  | research (sub : SubQuestion)
  | researchAll (tasks : List (List SubQuestion))
  | write (plan : Plan)
  | critique
  | verify

inductive DeepResearchStepOutcome where
  | «continue» (label : String)
  | done (label : String)

structure Stepping (σ : Type) where
  loop : σ
  result : ResearchResult
  calls : List RoleCall

-- What a step does to the strategy, the result and the log stays also when it fails.
abbrev StepM (σ : Type) := ExceptT String (StateM (Stepping σ))

section Roles

variable {σ α : Type}

def callRole (call : RoleCall) (role : ResearchResult → RoleAnswer α) : StepM σ α := fun stepping =>
  let (answer, result) := role stepping.result
  (answer, { stepping with result, calls := stepping.calls ++ [call] })

def getLoop : StepM σ σ := fun stepping => (.ok stepping.loop, stepping)

def setLoop (loop : σ) : StepM σ Unit := fun stepping => (.ok (), { stepping with loop })

def snapshot : StepM σ ResearchResult := fun stepping => (.ok stepping.result, stepping)

def onHandle (change : ResearchResult → ResearchResult) : StepM σ Unit := fun stepping =>
  (.ok (), { stepping with result := change stepping.result })

def snapshotPlan : StepM σ Plan := do
  let snap ← snapshot
  return snap.plan.getD .new

variable (roles : DeepResearchRoles) (request : ResearchRequest)

def clarifyStage (ready : σ) : StepM σ DeepResearchStepOutcome := do
  match ← callRole .clarify (roles.clarifier request) with
  | .ready =>
    setLoop ready
    return .«continue» "clarified"
  | .needAnswers questions =>
    onHandle fun r => questions.foldl (fun r q => r.recordClarification q "(awaiting human input)") r
    return .done "awaiting_clarifications"

def planStage (planned : σ) : StepM σ DeepResearchStepOutcome := do
  let plan ← callRole .plan (roles.planner request)
  onHandle fun r => r.setPlan plan
  setLoop planned
  return .«continue» "planned"

def writeStage (wrote : σ) : StepM σ DeepResearchStepOutcome := do
  let plan ← snapshotPlan
  callRole (.write plan) (roles.writer plan request)
  setLoop wrote
  return .«continue» "wrote"

def verifyStage (verified : σ) : StepM σ DeepResearchStepOutcome := do
  callRole .verify (roles.verifier request)
  setLoop verified
  return .«continue» "verified"

def researchStage (idx : Nat) (finished : σ) (label : String) (researched : σ) :
    StepM σ DeepResearchStepOutcome := do
  let plan ← snapshotPlan
  match plan.subQuestions[idx]? with
  | none =>
    setLoop finished
    return .«continue» label
  | some sub =>
    callRole (.research sub) (roles.researcher sub request)
    setLoop researched
    return .«continue» ("researched:" ++ sub.id)

-- Follow-up sub-questions for the gaps, numbered after the sub-questions there are.
def appendGaps (r : ResearchResult) (gaps : List String) : ResearchResult :=
  let offset := (r.plan.map fun p => p.subQuestions.length).getD 0
  (gaps.zipIdx (offset + 1)).foldl (fun r gap => r.appendSubQuestion {
    id := "sq-" ++ toString gap.2
    text := "Resolve gap: " ++ gap.1
    rationale := none
    «section» := some "Findings"
    status := .pending }) r

end Roles

structure DeepResearchLoopStrategy where
  Loop : Type
  name : String
  new : Loop
  step : DeepResearchRoles → ResearchRequest → StepM Loop DeepResearchStepOutcome

namespace MultiAgentParallelLoop

inductive Stage where
  | clarify
  | plan
  | fanOut
  | write
  | verify
  | done
  deriving DecidableEq

def step (roles : DeepResearchRoles) (request : ResearchRequest) : StepM Stage DeepResearchStepOutcome := do
  match ← getLoop with
  | .clarify => clarifyStage roles request .plan
  | .plan => planStage roles request .fanOut
  | .fanOut =>
    let plan ← snapshotPlan
    let tasks := (plan.subQuestions.take (max request.breadth 1)).map fun sub => [sub]
    callRole (.researchAll tasks) (roles.researchAll tasks request)
    setLoop .write
    return .«continue» "fan_out_done"
  | .write =>
    let plan ← snapshotPlan
    callRole (.write plan) (roles.writer plan request)
    let _ ← callRole .critique (roles.critic request)
    setLoop .verify
    return .«continue» "wrote"
  | .verify => verifyStage roles request .done
  | .done => return .done "done"

def strategy : DeepResearchLoopStrategy where
  Loop := Stage
  name := "multi-agent-parallel"
  new := .clarify
  step := step

end MultiAgentParallelLoop

namespace OutlineFirstSectionFanoutLoop

inductive Stage where
  | clarify
  | plan
  | fanOutBySection
  | write
  | verify
  | done
  deriving DecidableEq

def uncategorized : String := "Uncategorized"

def buckets (subs : List SubQuestion) : List (String × List SubQuestion) :=
  let key (sub : SubQuestion) := sub.«section».getD uncategorized
  (orderBy id (subs.map key).dedup).map fun k => (k, subs.filter fun sub => key sub == k)

def step (roles : DeepResearchRoles) (request : ResearchRequest) : StepM Stage DeepResearchStepOutcome := do
  match ← getLoop with
  | .clarify => clarifyStage roles request .plan
  | .plan => planStage roles request .fanOutBySection
  | .fanOutBySection =>
    let plan ← snapshotPlan
    let sections := buckets plan.subQuestions
    let tasks := (sections.take (min (max request.breadth 1) (max sections.length 1))).map Prod.snd
    callRole (.researchAll tasks) (roles.researchAll tasks request)
    setLoop .write
    return .«continue» "fan_out_by_section_done"
  | .write => writeStage roles request .verify
  | .verify => verifyStage roles request .done
  | .done => return .done "done"

def strategy : DeepResearchLoopStrategy where
  Loop := Stage
  name := "outline-first-section-fanout"
  new := .clarify
  step := step

end OutlineFirstSectionFanoutLoop

namespace ClarifyPlanSearchVerifyLoop

inductive Stage where
  | clarify
  | plan
  | research
  | write
  | critique
  | verify
  | done
  deriving DecidableEq

structure LoopState where
  stage : Stage
  refinementRounds : Nat
  nextSubQuestionIdx : Nat

def critiqueStage (roles : DeepResearchRoles) (request : ResearchRequest) (s : LoopState) :
    StepM LoopState DeepResearchStepOutcome := do
  let outcome ← callRole .critique (roles.critic request)
  if outcome.done ∨ request.depth ≤ s.refinementRounds then
    setLoop { s with stage := .verify }
    return .«continue» "critique_done"
  else
    setLoop { refinementRounds := s.refinementRounds + 1, nextSubQuestionIdx := 0, stage := .research }
    onHandle fun r => appendGaps r (outcome.gaps.take (max request.breadth 1))
    return .«continue» "refining"

def step (roles : DeepResearchRoles) (request : ResearchRequest) : StepM LoopState DeepResearchStepOutcome := do
  let s ← getLoop
  match s.stage with
  | .clarify => clarifyStage roles request { s with stage := .plan }
  | .plan => planStage roles request { s with stage := .research }
  | .research =>
    researchStage roles request s.nextSubQuestionIdx { s with stage := .write } "research_done"
      { s with nextSubQuestionIdx := s.nextSubQuestionIdx + 1 }
  | .write => writeStage roles request { s with stage := .critique }
  | .critique => critiqueStage roles request s
  | .verify => verifyStage roles request { s with stage := .done }
  | .done => return .done "done"

def strategy : DeepResearchLoopStrategy where
  Loop := LoopState
  name := "clarify-plan-search-verify"
  new := { stage := .clarify, refinementRounds := 0, nextSubQuestionIdx := 0 }
  step := step

end ClarifyPlanSearchVerifyLoop

namespace IterativeDeepeningLoop

inductive Stage where
  | clarify
  | plan
  | supervisor
  | research
  | write
  | verify
  | done
  deriving DecidableEq

structure LoopState where
  stage : Stage
  rounds : Nat
  nextIdx : Nat

def supervisorStage (roles : DeepResearchRoles) (request : ResearchRequest) (s : LoopState) :
    StepM LoopState DeepResearchStepOutcome := do
  let outcome ← callRole .critique (roles.critic request)
  let plan ← snapshotPlan
  if outcome.done ∧ plan.subQuestions.length ≤ s.nextIdx then
    setLoop { s with stage := .write }
    return .«continue» "supervisor_done"
  else if request.depth ≤ s.rounds then
    setLoop { s with stage := .write }
    return .«continue» "depth_cap"
  else
    onHandle fun r => appendGaps r (outcome.gaps.take (max request.breadth 1))
    setLoop { s with rounds := s.rounds + 1, stage := .research }
    return .«continue» "supervisor"

def step (roles : DeepResearchRoles) (request : ResearchRequest) : StepM LoopState DeepResearchStepOutcome := do
  let s ← getLoop
  match s.stage with
  | .clarify => clarifyStage roles request { s with stage := .plan }
  | .plan => planStage roles request { s with stage := .supervisor }
  | .supervisor => supervisorStage roles request s
  | .research =>
    researchStage roles request s.nextIdx { s with stage := .supervisor } "research_done"
      { s with nextIdx := s.nextIdx + 1 }
  | .write => writeStage roles request { s with stage := .verify }
  | .verify => verifyStage roles request { s with stage := .done }
  | .done => return .done "done"

def strategy : DeepResearchLoopStrategy where
  Loop := LoopState
  name := "iterative-deepening"
  new := { stage := .clarify, rounds := 0, nextIdx := 0 }
  step := step

end IterativeDeepeningLoop

namespace LinearWriteCritiqueLoop

inductive Stage where
  | clarify
  | plan
  | researchAll
  | write
  | critique
  | verify
  | done
  deriving DecidableEq

structure LoopState where
  stage : Stage
  nextIdx : Nat
  rounds : Nat

def critiqueStage (roles : DeepResearchRoles) (request : ResearchRequest) (s : LoopState) :
    StepM LoopState DeepResearchStepOutcome := do
  let outcome ← callRole .critique (roles.critic request)
  if outcome.done ∨ request.depth ≤ s.rounds then
    setLoop { s with stage := .verify }
    return .«continue» "critique_done"
  else
    setLoop { s with rounds := s.rounds + 1, stage := .write }
    return .«continue» "refining"

def step (roles : DeepResearchRoles) (request : ResearchRequest) : StepM LoopState DeepResearchStepOutcome := do
  let s ← getLoop
  match s.stage with
  | .clarify => clarifyStage roles request { s with stage := .plan }
  | .plan => planStage roles request { s with stage := .researchAll }
  | .researchAll =>
    researchStage roles request s.nextIdx { s with stage := .write } "research_done"
      { s with nextIdx := s.nextIdx + 1 }
  | .write => writeStage roles request { s with stage := .critique }
  | .critique => critiqueStage roles request s
  | .verify => verifyStage roles request { s with stage := .done }
  | .done => return .done "done"

def strategy : DeepResearchLoopStrategy where
  Loop := LoopState
  name := "linear-write-critique"
  new := { stage := .clarify, nextIdx := 0, rounds := 0 }
  step := step

end LinearWriteCritiqueLoop

namespace PlanAndExecuteLoop

inductive Stage where
  | clarify
  | plan
  | execute
  | stepCritique
  | write
  | verify
  | done
  deriving DecidableEq

structure LoopState where
  stage : Stage
  nextIdx : Nat
  rounds : Nat

-- A gap that stays has the plan made anew.
def stepCritiqueStage (roles : DeepResearchRoles) (request : ResearchRequest) (s : LoopState) :
    StepM LoopState DeepResearchStepOutcome := do
  let outcome ← callRole .critique (roles.critic request)
  if !outcome.done ∧ outcome.gaps ≠ [] ∧ s.rounds < request.depth then
    setLoop { rounds := s.rounds + 1, nextIdx := 0, stage := .plan }
    return .«continue» "replanning"
  else
    setLoop { s with nextIdx := s.nextIdx + 1, stage := .execute }
    return .«continue» "step_critiqued"

def step (roles : DeepResearchRoles) (request : ResearchRequest) : StepM LoopState DeepResearchStepOutcome := do
  let s ← getLoop
  match s.stage with
  | .clarify => clarifyStage roles request { s with stage := .plan }
  | .plan => planStage roles request { s with nextIdx := 0, stage := .execute }
  | .execute =>
    researchStage roles request s.nextIdx { s with stage := .write } "execute_done"
      { s with stage := .stepCritique }
  | .stepCritique => stepCritiqueStage roles request s
  | .write => writeStage roles request { s with stage := .verify }
  | .verify => verifyStage roles request { s with stage := .done }
  | .done => return .done "done"

def strategy : DeepResearchLoopStrategy where
  Loop := LoopState
  name := "plan-and-execute"
  new := { stage := .clarify, nextIdx := 0, rounds := 0 }
  step := step

end PlanAndExecuteLoop

def loopStrategies : List DeepResearchLoopStrategy :=
  [MultiAgentParallelLoop.strategy, OutlineFirstSectionFanoutLoop.strategy, ClarifyPlanSearchVerifyLoop.strategy,
    IterativeDeepeningLoop.strategy, LinearWriteCritiqueLoop.strategy, PlanAndExecuteLoop.strategy]

end AtomrAgents.DeepResearch

namespace AtomrAgents.DeepResearch

structure DeepResearchStepEvent where
  iteration : Nat
  outcome : String

structure DeepResearchState where
  iteration : Nat
  history : List DeepResearchStepEvent
  result : ResearchResult
  cancelRequested : Bool
  remainingBudget : Nat
  elapsedMs : Nat

def DeepResearchState.new (result : ResearchResult) (initialBudget : Nat) : DeepResearchState where
  iteration := 0
  history := []
  result := result
  cancelRequested := false
  remainingBudget := initialBudget
  elapsedMs := 0

-- `should_terminate`: the reason, if it is done.
abbrev DeepResearchTermination := DeepResearchState → Option String

def iterationCapTermination (cap : Nat) : DeepResearchTermination := fun state =>
  if state.cancelRequested then some "cancelled"
  else if cap ≤ state.iteration then some "iteration_cap"
  else none

def strategyControlledTermination : DeepResearchTermination := fun state =>
  if state.cancelRequested then some "cancelled" else none

structure DeepResearchHarnessSpec where
  modelId : Option String
  initialBudget : Nat

-- A run, with what comes from outside: whether `cancel` is called before a check for termination or after the last
-- one, and what the store answers to each put. The text of an error is kept.
structure ResearchRun where
  request : ResearchRequest
  cancelled : Nat → Bool
  cancelledAfter : Bool
  stored : Nat → Except String Unit

structure DeepResearchHarness (strategy : DeepResearchLoopStrategy) where
  loop : strategy.Loop
  cancel : Bool

structure RunReport where
  calls : List RoleCall
  returned : Except String ResearchResult

-- The state of `run_loop`; the puts are counted.
structure Looping (strategy : DeepResearchLoopStrategy) where
  state : DeepResearchState
  stepping : Stepping strategy.Loop
  cancel : Bool
  puts : Nat

section Run

variable {strategy : DeepResearchLoopStrategy} (spec : DeepResearchHarnessSpec) (roles : DeepResearchRoles)
  (termination : DeepResearchTermination) (run : ResearchRun)

def checked (looping : Looping strategy) : Looping strategy :=
  let cancel := looping.cancel || run.cancelled looping.state.iteration
  { looping with
    cancel
    state := { looping.state with cancelRequested := looping.state.cancelRequested || cancel } }

def iterate (looping : Looping strategy) : Option (Except String String) × Looping strategy :=
  let iteration := looping.state.iteration + 1
  match (strategy.step roles run.request).run.run looping.stepping with
  | (.error e, stepping) =>
    (some (.error e), { looping with stepping, state := { looping.state with iteration } })
  | (.ok outcome, stepping) =>
    let (label, last) : String × Bool :=
      match outcome with
      | .«continue» label => (label, false)
      | .done label => (label, true)
    let state := { looping.state with
      iteration
      history := looping.state.history ++ [{ iteration, outcome := label }]
      result := stepping.result }
    let next := { looping with stepping, state, puts := looping.puts + 1 }
    match run.stored looping.puts with
    | .error e => (some (.error e), next)
    | .ok () => (if last then some (.ok "complete") else none, next)

-- `none`: the loop is not at its end yet.
def runLoop : Nat → Looping strategy → Option (Except String String × Looping strategy)
  | 0, _ => none
  | fuel + 1, looping =>
    let looping := checked run looping
    match termination looping.state with
    | some reason => some (.ok reason, looping)
    | none =>
      match iterate roles run looping with
      | (some reason, looping) => some (reason, looping)
      | (none, looping) => runLoop fuel looping

def runningResult (strategy : DeepResearchLoopStrategy) : ResearchResult :=
  { ResearchResult.new run.request.query strategy.name with modelId := spec.modelId, state := .running }

def startLooping (harness : DeepResearchHarness strategy) : Looping strategy where
  state := .new (runningResult spec run strategy) spec.initialBudget
  stepping := { loop := harness.loop, result := runningResult spec run strategy, calls := [] }
  cancel := harness.cancel
  puts := 1

def runHarness (fuel : Nat) (harness : DeepResearchHarness strategy) :
    Option (RunReport × DeepResearchHarness strategy) :=
  match run.stored 0 with
  | .error e =>
    some ({ calls := [], returned := .error e }, { harness with cancel := harness.cancel || run.cancelledAfter })
  | .ok () =>
    match runLoop roles termination run fuel (startLooping spec run harness) with
    | none => none
    | some (reason, last) =>
      let result :=
        match reason with
        | .ok _ => last.stepping.result.finalize
        | .error e => last.stepping.result.fail e
      let returned := (run.stored last.puts).map fun _ => result
      some ({ calls := last.stepping.calls, returned },
        { loop := last.stepping.loop, cancel := last.cancel || run.cancelledAfter })

def DeepResearchHarness.new (strategy : DeepResearchLoopStrategy) : DeepResearchHarness strategy where
  loop := strategy.new
  cancel := false

def runAll (fuel : Nat) : List ResearchRun → DeepResearchHarness strategy → Option (List RunReport)
  | [], _ => some []
  | run :: rest, harness =>
    match runHarness spec roles termination run fuel harness with
    | none => none
    | some (report, harness) => (runAll fuel rest harness).map fun reports => report :: reports

end Run

end AtomrAgents.DeepResearch
