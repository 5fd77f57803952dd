import AtomrAgents.Context.Packing
import AtomrAgents.Shared.Loop
import AtomrAgents.Tool.Tool

set_option autoImplicit false

namespace AtomrAgents

open Shared

structure MemoryChunk where
  text : String
  estimatedTokens : Nat

structure SkillRef where
  id : String
  name : String
  priority : Nat

structure RenderedInstructions where
  systemPrompt : String
  estimatedTokens : Nat

structure ExecuteBatch where
  model : String
  messages : List Message
  stream : Bool
  estimatedTokens : Nat

inductive FinishReason where
  | toolCalls
  | other (reason : String)
  deriving DecidableEq

-- `U` is the usage of tokens, which is added up.
structure TurnResult (U : Type) where
  text : String
  usage : U
  finishReason : Option FinishReason
  toolCalls : List ParsedToolCall

structure AgentBudgets where
  tokens : TokenBudget
  time : TimeBudget
  money : MoneyBudget
  iterations : IterationBudget

section

variable (W U : Type) {τ : Type} (Any : τ → Type)

structure Agent where
  id : AgentId
  model : String
  instructions : AgentContext → TokenBudget → Except AgentError RenderedInstructions
  tools : AgentContext → TokenBudget → Except AgentError (List (ToolRef W Any)) × TokenBudget
  memory : AgentContext → TokenBudget → Except AgentError (List MemoryChunk) × TokenBudget
  skills : AgentContext → TokenBudget → Except AgentError (List SkillRef) × TokenBudget
  inference : W → ExecuteBatch → Except AgentError (TurnResult U)
  maxToolIterations : Nat

structure Prepared where
  toolRefs : List (ToolRef W Any)
  tokens : TokenBudget
  messages : List Message

structure Invocation where
  tool : String
  args : Value
  ctx : CallCtx Any

structure TurnReport where
  result : Except AgentError (TurnResult U)
  invocations : List (Invocation Any)

-- `moment` counts the calls of the model and of tools.
structure TurnLoop where
  messages : List Message
  finalText : String
  finalUsage : U
  finalFinish : Option FinishReason
  allToolCalls : List ParsedToolCall
  iterations : IterationBudget
  moment : Nat
  invocations : List (Invocation Any)

end

section

variable {W U τ : Type} {Any : τ → Type}

def CallCtx.budgets (ctx : CallCtx Any) : AgentBudgets :=
  { tokens := ctx.tokens, time := ctx.time, money := ctx.money, iterations := ctx.iterations }

namespace TurnLoop

def returns (loop : TurnLoop U Any) (result : Except AgentError (TurnResult U)) : TurnReport U Any :=
  { result, invocations := loop.invocations }

def done (loop : TurnLoop U Any) : TurnReport U Any :=
  loop.returns (.ok
    { text := loop.finalText
      usage := loop.finalUsage
      finishReason := loop.finalFinish
      toolCalls := loop.allToolCalls })

end TurnLoop

namespace Agent

variable (agent : Agent W U Any)

def fragments (instr : RenderedInstructions) (mem : List MemoryChunk) : List ContextFragment :=
  { source := "system", priority := 9, estimatedTokens := instr.estimatedTokens
    text := instr.systemPrompt } ::
    mem.map fun c =>
      { source := "memory", priority := 5, estimatedTokens := c.estimatedTokens, text := c.text }

def prepare (user : String) (tokens : TokenBudget) : Except AgentError (Prepared W Any) := do
  let agentCtx := AgentContext.forAgent agent.id { user, history := [] }
  let sub := tokens.slice 3
  let (mem, bm) := agent.memory agentCtx sub
  let (skills, bs) := agent.skills agentCtx sub
  let (toolRefs, bt) := agent.tools agentCtx sub
  let mem ← mem
  let _ ← skills
  let toolRefs ← toolRefs
  let tokens := tokens.spend ((sub.remaining - bm.remaining) + (sub.remaining - bs.remaining) +
    (sub.remaining - bt.remaining))
  let instr ← agent.instructions agentCtx (tokens.slice 2)
  let tokens := tokens.spend instr.estimatedTokens
  let (assembled, tokens) ← ContextAssembler.assemble (fragments instr mem) tokens
  return {
    toolRefs, tokens
    messages := [{ role := .system, content := assembled.join "\n\n" },
      { role := .user, content := user }] }

def batch (p : Prepared W Any) (messages : List Message) : ExecuteBatch :=
  { model := agent.model, messages, stream := true, estimatedTokens := p.tokens.remaining }

variable (json : ValueJson) (w : Nat → W) (p : Prepared W Any) (budgets : AgentBudgets)

def invokeCtx (iterations : IterationBudget) (call : ParsedToolCall) : CallCtx Any where
  agentId := some agent.id
  tokens := p.tokens
  time := budgets.time
  money := budgets.money
  iterations := iterations
  trace := ["tool:" ++ call.name]
  extensions := .new

-- The tools are spawned in the order of the calls, up to a call of a tool that was not selected.
def spawnCalls (iterations : IterationBudget) (moment : Nat) : List ParsedToolCall →
    Except AgentError (List (Except AgentError Value)) × List (Invocation Any)
  | [] => (.ok [], [])
  | call :: rest =>
    match p.toolRefs.find? (fun toolRef => toolRef.name = call.name) with
    | none => (.error (.tool ("unknown tool: " ++ call.name)), [])
    | some toolRef =>
      let args := (call.arguments json).toOption.getD .null
      let ctx := agent.invokeCtx p budgets iterations call
      let (handles, spawned) := spawnCalls iterations (moment + 1) rest
      (handles.map (toolRef.handle (w moment) args ctx :: ·), { tool := call.name, args, ctx } :: spawned)

-- The handles are awaited in the order of the calls, which is that of the results.
def awaitCalls : List (Except AgentError Value) → Except AgentError (List Value)
  | [] => .ok []
  | handle :: rest => do
    let result ← handle
    let results ← awaitCalls rest
    return result :: results

variable [Add U]

-- One pass of the tool-call loop. After a `break` nothing is left but to return what was gathered.
def iterate (loop : TurnLoop U Any) (_iter : Nat) : Flow (TurnLoop U Any) (TurnReport U Any) :=
  match loop.iterations.consumeOne with
  | .error e => .ret (loop.returns (.error e))
  | .ok iterations =>
    match agent.inference (w loop.moment) (agent.batch p loop.messages) with
    | .error e => .ret (loop.returns (.error e))
    | .ok r =>
      let loop := { loop with
        iterations
        moment := loop.moment + 1
        finalText := r.text
        finalUsage := loop.finalUsage + r.usage
        finalFinish := r.finishReason
        allToolCalls := loop.allToolCalls ++ r.toolCalls }
      if r.toolCalls = [] ∨ r.finishReason ≠ some .toolCalls then .ret loop.done
      else
        let (handles, spawned) := agent.spawnCalls json w p budgets iterations loop.moment r.toolCalls
        let loop := { loop with
          messages := loop.messages ++ [Message.mk .assistant r.text]
          moment := loop.moment + spawned.length
          invocations := loop.invocations ++ spawned }
        match handles.bind awaitCalls with
        | .error e => .ret (loop.returns (.error e))
        | .ok results =>
          .next { loop with
            messages := loop.messages ++ results.map fun result =>
              Message.mk .tool (json.toString result) }

variable [Zero U]

def start (p : Prepared W Any) (budgets : AgentBudgets) : TurnLoop U Any where
  messages := p.messages
  finalText := ""
  finalUsage := 0
  finalFinish := none
  allToolCalls := []
  iterations := budgets.iterations
  moment := 0
  invocations := []

def runTurnImpl (user : String) (budgets : AgentBudgets) : TurnReport U Any :=
  match agent.prepare user budgets.tokens with
  | .error e => { result := .error e, invocations := [] }
  | .ok p =>
    (forEach (agent.iterate json w p budgets) (List.range (max agent.maxToolIterations 1))
      (start p budgets)).finish TurnLoop.done

def dispatch (user : String) (ctx : CallCtx Any) : TurnReport U Any :=
  agent.runTurnImpl json w user ctx.budgets

end Agent

end

end AtomrAgents
