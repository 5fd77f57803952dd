import Mathlib.Data.List.Basic
import Mathlib.Data.String.Basic

set_option autoImplicit false

namespace AtomrAgents.Observability

abbrev RunId := String

inductive Event where
  | strategyResolved (strategy : String)
  | toolInvoked (toolId : String)
  | toolCallStreamed (toolName : String) (iteration : Nat)
  | agentTurn (agentId : String)
  | workflowStep (stepId : String)
  | harnessIteration (harnessId : String) (iteration : Nat)
  | backpressure (actorPath : String)

structure EventEnvelope where
  timestampMs : Int
  runId : Option RunId
  parentRunId : Option RunId
  tags : List String
  event : Event

inductive RunKind where
  | chain
  | llm
  | tool
  | retriever
  | parser
  | agent
  | workflow
  | harness
  | other
  deriving DecidableEq

structure RunNode where
  runId : RunId
  parentRunId : Option RunId
  kind : RunKind
  name : String
  startedAtMs : Int
  endedAtMs : Option Int
  tags : List String
  events : List EventEnvelope
  children : List RunId
  error : Option String

def classify : Event → RunKind
  | .agentTurn _ => .agent
  | .toolInvoked _ => .tool
  | .toolCallStreamed _ _ => .tool
  | .workflowStep _ => .workflow
  | .harnessIteration _ _ => .harness
  | .strategyResolved _ => .chain
  | .backpressure _ => .other

def nameOf : Event → String
  | .agentTurn agentId => "agent:" ++ agentId
  | .toolInvoked toolId => "tool:" ++ toolId
  | .toolCallStreamed toolName iteration => "tool-call-stream:" ++ toolName ++ "#" ++ toString iteration
  | .workflowStep stepId => "step:" ++ stepId
  | .harnessIteration harnessId iteration => "harness:" ++ harnessId ++ "#" ++ toString iteration
  | .strategyResolved strategy => "strategy:" ++ strategy
  | .backpressure actorPath => "backpressure:" ++ actorPath

def endTimestampFor (env : EventEnvelope) : Option Int :=
  match env.event with
  | .agentTurn _ | .toolInvoked _ | .workflowStep _ | .harnessIteration _ _ | .strategyResolved _ =>
    some env.timestampMs
  | _ => none

-- `order`: the runs as they were inserted.
structure RunTreeBuilder where
  nodes : RunId → Option RunNode
  order : List RunId

namespace RunTreeBuilder

def new : RunTreeBuilder where
  nodes _ := none
  order := []

-- `HashMap::entry` with `or_insert_with`.
def orInsert (builder : RunTreeBuilder) (id : RunId) (node : RunNode) : RunTreeBuilder :=
  match builder.nodes id with
  | some _ => builder
  | none => {
    nodes := fun k => if k = id then some node else builder.nodes k
    order := builder.order ++ [id] }

def modify (builder : RunTreeBuilder) (id : RunId) (change : RunNode → RunNode) : RunTreeBuilder :=
  { builder with nodes := fun k => if k = id then (builder.nodes k).map change else builder.nodes k }

def ownNode (rid : RunId) (env : EventEnvelope) : RunNode where
  runId := rid
  parentRunId := env.parentRunId
  kind := classify env.event
  name := nameOf env.event
  startedAtMs := env.timestampMs
  endedAtMs := none
  tags := env.tags
  events := []
  children := []
  error := none

def placeholder (parent : RunId) (env : EventEnvelope) : RunNode where
  runId := parent
  parentRunId := none
  kind := .other
  name := "(parent)"
  startedAtMs := env.timestampMs
  endedAtMs := none
  tags := []
  events := []
  children := []
  error := none

def addTag (tags : List String) (t : String) : List String := if t ∈ tags then tags else tags ++ [t]

def record (env : EventEnvelope) (node : RunNode) : RunNode :=
  { node with
    parentRunId := node.parentRunId.or env.parentRunId
    events := node.events ++ [env]
    endedAtMs := (endTimestampFor env).or node.endedAtMs
    tags := env.tags.foldl addTag node.tags }

def addChild (child : RunId) (node : RunNode) : RunNode :=
  if child ∈ node.children then node else { node with children := node.children ++ [child] }

def ingest (builder : RunTreeBuilder) (env : EventEnvelope) : RunTreeBuilder :=
  match env.runId with
  | none => builder
  | some rid =>
    let builder := (builder.orInsert rid (ownNode rid env)).modify rid (record env)
    match env.parentRunId with
    | none => builder
    | some parent => (builder.orInsert parent (placeholder parent env)).modify parent (addChild rid)

def build (envs : List EventEnvelope) : RunTreeBuilder := envs.foldl ingest new

def roots (builder : RunTreeBuilder) : List RunNode :=
  (builder.order.filterMap builder.nodes).filter fun n => n.parentRunId.isNone

end RunTreeBuilder

namespace JsonlTracer

variable (builder : RunTreeBuilder) (fuel : Nat)

def childNodes (node : RunNode) : List RunNode := node.children.filterMap builder.nodes

-- The head of the list is the top of the stack.
def emitStack : Nat → List RunNode → Option (List RunNode)
  | _, [] => some []
  | 0, _ :: _ => none
  | fuel + 1, n :: stack => (emitStack fuel ((childNodes builder n).reverse ++ stack)).map (n :: ·)

def emitDescendants : List RunNode → Option (List RunNode)
  | [] => some []
  | child :: rest => do
    let below ← emitStack builder fuel (childNodes builder child).reverse
    let more ← emitDescendants rest
    return child :: below ++ more

def lines : List RunNode → Option (List RunNode)
  | [] => some []
  | root :: rest => do
    let below ← emitDescendants builder fuel (childNodes builder root)
    let more ← lines rest
    return root :: below ++ more

def emit (sink : RunNode → Except String Unit) : List RunNode → List RunNode × Except String Unit
  | [] => ([], .ok ())
  | n :: rest =>
    match sink n with
    | .error e => ([n], .error e)
    | .ok () =>
      let (given, returned) := emit sink rest
      (n :: given, returned)

-- `none`: the fuel does not reach to the end of a stack.
def flush (sink : RunNode → Except String Unit) : Option (List RunNode × Except String Unit) :=
  (lines builder fuel builder.roots).map (emit sink)

end JsonlTracer

end AtomrAgents.Observability
