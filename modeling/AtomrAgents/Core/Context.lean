import AtomrAgents.Core.Value
import Mathlib.Logic.Function.Basic

set_option autoImplicit false

namespace AtomrAgents

structure TokenBudget where
  remaining : Nat
  reserved : Nat
  deriving DecidableEq

namespace TokenBudget

def new (total : Nat) : TokenBudget := { remaining := total, reserved := 0 }

def consume (budget : TokenBudget) (n : Nat) : Except AgentError TokenBudget :=
  if budget.remaining < n then .error (.budgetExceeded "tokens")
  else .ok { budget with remaining := budget.remaining - n }

-- One of the `n` slices that `split` makes: they are all the same.
def slice (budget : TokenBudget) (n : Nat) : TokenBudget := new (budget.remaining / n)

-- `budget.consume(n.min(budget.remaining)).ok()`.
def spend (budget : TokenBudget) (n : Nat) : TokenBudget :=
  match budget.consume (min n budget.remaining) with
  | .ok rest => rest
  | .error _ => budget

end TokenBudget

structure TimeBudget where
  remainingMs : Nat
  deriving DecidableEq

structure MoneyBudget where
  remainingMicroUsd : Nat
  deriving DecidableEq

structure IterationBudget where
  remaining : Nat
  deriving DecidableEq

def IterationBudget.consumeOne (budget : IterationBudget) : Except AgentError IterationBudget :=
  if budget.remaining = 0 then .error (.budgetExceeded "iterations")
  else .ok { remaining := budget.remaining - 1 }

end AtomrAgents

namespace AtomrAgents

abbrev AgentId := String

inductive MessageRole where
  | system
  | user
  | assistant
  | tool
  deriving DecidableEq

structure Message where
  role : MessageRole
  content : String
  deriving DecidableEq

structure TurnInput where
  user : String
  history : List Message

structure AgentContext where
  agentId : AgentId
  teamId : Option String
  orgId : Option String
  turn : TurnInput

def AgentContext.forAgent (agentId : AgentId) (turn : TurnInput) : AgentContext :=
  { agentId, teamId := none, orgId := none, turn }

section Extensions

variable {τ : Type}

-- `HashMap<TypeId, Arc<dyn Any>>`: what is found under a type is of that type.
abbrev Extensions (Any : τ → Type) := (t : τ) → Option (Any t)

variable {Any : τ → Type}

namespace Extensions

def new : Extensions Any := fun _ => none

def insert [DecidableEq τ] (extensions : Extensions Any) (t : τ) (value : Any t) : Extensions Any :=
  Function.update extensions t (some value)

end Extensions

structure CallCtx (Any : τ → Type) where
  agentId : Option AgentId
  tokens : TokenBudget
  time : TimeBudget
  money : MoneyBudget
  iterations : IterationBudget
  trace : List String
  extensions : Extensions Any

def CallCtx.ext (ctx : CallCtx Any) (t : τ) : Option (Any t) := ctx.extensions t

structure InvokeCtx (Any : τ → Type) where
  call : CallCtx Any
  toolCallId : String
  rawArgs : Value

def InvokeCtx.ext (ctx : InvokeCtx Any) (t : τ) : Option (Any t) := ctx.call.ext t

end Extensions

end AtomrAgents
