import AtomrAgents.Shared.GroupedFold
import AtomrAgents.Tool.Tool

set_option autoImplicit false

namespace AtomrAgents

open Shared

-- `!input.is_null() && !is_empty_object`
def Value.isInput : Value → Bool
  | .null => false
  | .object fields => !fields.isEmpty
  | _ => true

structure Partial where
  id : String
  name : String
  args : String

def Partial.default : Partial := { id := "", name := "", args := "" }

structure ToolCallParser where
  provider : Provider
  calls : Std.ExtTreeMap Nat Partial compare

namespace Partial

def openai (entry : Partial) (item : Value) : Partial :=
  let entry : Partial := { entry with id := ((item.get "id").bind Value.asStr).getD entry.id }
  match item.get "function" with
  | none => entry
  | some func =>
    { entry with
      name := entry.name ++ ((func.get "name").bind Value.asStr).getD ""
      args := entry.args ++ ((func.get "arguments").bind Value.asStr).getD "" }

def startBlock (json : ValueJson) (entry : Partial) (block : Value) : Partial where
  id := ((block.get "id").bind Value.asStr).getD entry.id
  name := ((block.get "name").bind Value.asStr).getD entry.name
  args := match block.get "input" with
    | none => entry.args
    | some input => if input.isInput then json.toString input else entry.args

def anthropic (json : ValueJson) (entry : Partial) (delta : Value) : Partial :=
  let entry := match delta.get "content_block" with
    | none => entry
    | some block =>
      if (block.get "type").bind Value.asStr = some "tool_use" then entry.startBlock json block else entry
  match delta.get "delta" with
  | none => entry
  | some d =>
    if (d.get "type").bind Value.asStr = some "input_json_delta" then
      { entry with args := entry.args ++ ((d.get "partial_json").bind Value.asStr).getD "" }
    else entry

def toCall (entry : Partial) : ParsedToolCall :=
  { id := entry.id, name := entry.name, argumentsRaw := entry.args }

end Partial

-- `as u32`
def callSlot (index : UInt64) : Nat := index.toNat % 2 ^ 32

def deltaIndex (delta : Value) : Option Nat := ((delta.get "index").bind Value.asU64).map callSlot

namespace ToolCallParser

def new (provider : Provider) : ToolCallParser := { provider, calls := ∅ }

-- `self.calls.entry(idx).or_default()`, changed in place.
def entry (parser : ToolCallParser) (idx : Nat) (change : Partial → Partial) : ToolCallParser :=
  { parser with calls := parser.calls.insert idx (change (parser.calls[idx]?.getD .default)) }

-- `&mut self`: the items before one without an index have been taken in.
def feedItems (parser : ToolCallParser) : List Value → Except AgentError Unit × ToolCallParser
  | [] => (.ok (), parser)
  | item :: rest =>
    match deltaIndex item with
    | none => (.error (.tool "openai: tool_call missing index"), parser)
    | some idx => (parser.entry idx (·.openai item)).feedItems rest

def feedOpenai (parser : ToolCallParser) (delta : Value) : Except AgentError Unit × ToolCallParser :=
  match (delta.get "tool_calls").bind Value.asArray with
  | none => (.error (.tool "openai: missing tool_calls"), parser)
  | some arr => parser.feedItems arr

def feedAnthropic (json : ValueJson) (parser : ToolCallParser) (delta : Value) :
    Except AgentError Unit × ToolCallParser :=
  match deltaIndex delta with
  | none => (.error (.tool "anthropic: delta missing index"), parser)
  | some idx => (.ok (), parser.entry idx (·.anthropic json delta))

def feed (json : ValueJson) (parser : ToolCallParser) (delta : Value) : Except AgentError Unit × ToolCallParser :=
  match parser.provider with
  | .openAi => parser.feedOpenai delta
  | .anthropic => parser.feedAnthropic json delta

def feedAll (json : ValueJson) (parser : ToolCallParser) : List Value → Except AgentError Unit × ToolCallParser
  | [] => (.ok (), parser)
  | delta :: rest =>
    match parser.feed json delta with
    | (.error e, parser) => (.error e, parser)
    | (.ok _, parser) => parser.feedAll json rest

def finish (parser : ToolCallParser) : List ParsedToolCall :=
  parser.calls.toList.map fun entry => entry.2.toCall

end ToolCallParser

-- For streams of which nothing is written or read as JSON.
def idleJson : ValueJson := { toString := fun _ => "", fromStr := fun _ => .error "" }

end AtomrAgents
