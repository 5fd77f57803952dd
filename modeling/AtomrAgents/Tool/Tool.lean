import AtomrAgents.Core.Context
import AtomrAgents.Core.Text

set_option autoImplicit false

namespace AtomrAgents

abbrev ToolId := String

structure ToolDescriptor where
  id : ToolId
  name : String

-- `serde_json` at `Value`; the text of a failure to read is kept.
structure ValueJson where
  toString : Value → String
  fromStr : String → Except String Value

inductive Provider where
  | openAi
  | anthropic
  deriving DecidableEq

structure ParsedToolCall where
  id : String
  name : String
  argumentsRaw : String
  deriving DecidableEq

def ParsedToolCall.arguments (json : ValueJson) (call : ParsedToolCall) : Except AgentError Value :=
  if trim call.argumentsRaw = "" then .ok .null
  else (json.fromStr call.argumentsRaw).mapError fun e => .tool ("tool args parse: " ++ e)

section

-- `W` is what a tool can see besides its arguments: the faults and services of one call.
variable (W : Type) {τ : Type} (Any : τ → Type)

structure Tool where
  descriptor : ToolDescriptor
  invoke : W → Value → InvokeCtx Any → Except AgentError Value

abbrev CallableHandle := W → Value → CallCtx Any → Except AgentError Value

structure ToolRef where
  id : ToolId
  name : String
  handle : CallableHandle W Any

end

section

variable {W τ : Type} {Any : τ → Type}

def dynToolToCallable (tool : Tool W Any) : CallableHandle W Any := fun w input ctx =>
  tool.invoke w input { call := ctx, toolCallId := "", rawArgs := input }

-- `StaticToolStrategy::select`.
def staticSelect (tools : List (Tool W Any)) : List (ToolRef W Any) :=
  tools.map fun tool =>
    { id := tool.descriptor.id, name := tool.descriptor.name, handle := dynToolToCallable tool }

end

end AtomrAgents
