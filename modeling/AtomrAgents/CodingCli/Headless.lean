import AtomrAgents.CodingCli.Interactive
import AtomrAgents.Core.Value
import AtomrAgents.Shared.Pieces

set_option autoImplicit false

/-! `run_one`: the output of the CLI arrives in chunks, its lines go through the parser of the vendor, and the
parsed events make up the result. Times are left out. -/

namespace AtomrAgents.CodingCli

open Shared

-- `str::from_utf8`
def fromUtf8 (bytes : List UInt8) : Option (List Char) := bytes.toByteArray.utf8Decode?.map Array.toList

-- A carriage return is only stripped in front of a line feed.
def stripLineEnd (piece : List Char) : List Char :=
  if piece.getLast? = some '\n' then
    if piece.dropLast.getLast? = some '\r' then piece.dropLast.dropLast else piece.dropLast
  else piece

-- `str::lines`
def lines (text : List Char) : List String :=
  (pieces (· = '\n') text).map fun piece => String.ofList (stripLineEnd piece)

abbrev CliRunId := String

inductive FinishReason where
  | completed
  | budgetExhausted
  | cancelled
  | processError
  | streamError
  deriving DecidableEq

structure ToolDescriptorInit where
  name : String
  description : Option String

structure McpServerInit where
  name : String
  status : Option String

inductive CodingCliEvent where
  | runStarted (runId : CliRunId) (vendor : CliVendorKind) (model : Option String)
      (sessionId : Option CliSessionId)
  | systemInit (tools : List ToolDescriptorInit) (mcpServers : List McpServerInit) (plugins : List String)
  | assistantTextDelta (text : String)
  | toolCallStarted (toolCallId name : String) (input : Value)
  | toolCallFinished (toolCallId : String) (output : Option Value) (error : Option String)
  | apiRetry (attempt : UInt32) (delayMs : UInt64) (reason : String)
  | usage (inputTokens outputTokens : UInt64) (costUsd : Option Float)
  | runFinished (reason : FinishReason) (resultText : Option String)
  | rawVendorEvent (vendor : CliVendorKind) (payload : Value)
  | note (message : String) (fields : Values)

structure ToolCallRecord where
  toolCallId : String
  name : String
  input : Value
  output : Option Value
  error : Option String

structure UsageSummary where
  inputTokens : UInt64
  outputTokens : UInt64
  costUsd : Option Float

def UsageSummary.add (usage : UsageSummary) (inputTokens outputTokens : UInt64) (costUsd : Option Float) :
    UsageSummary where
  inputTokens := usage.inputTokens + inputTokens
  outputTokens := usage.outputTokens + outputTokens
  costUsd :=
    match costUsd with
    | some c => some (usage.costUsd.getD 0 + c)
    | none => usage.costUsd

structure CliResult where
  runId : CliRunId
  vendor : CliVendorKind
  finalText : String
  toolCalls : List ToolCallRecord
  usage : UsageSummary
  finishReason : FinishReason
  exitCode : Option Int

def CliResult.new (runId : CliRunId) (vendor : CliVendorKind) : CliResult where
  runId
  vendor
  finalText := ""
  toolCalls := []
  usage := { inputTokens := 0, outputTokens := 0, costUsd := none }
  finishReason := .completed
  exitCode := none

abbrev PendingTools := Std.ExtTreeMap String ToolCallRecord compare

-- `rec.output = output; rec.error = error` for a call that has been started, else a record without a name.
def finishedCall (pending : PendingTools) (toolCallId : String) (output : Option Value) (error : Option String) :
    ToolCallRecord :=
  match pending[toolCallId]? with
  | some started => { started with output, error }
  | none => { toolCallId, name := "", input := .null, output, error }

def accumulate (result : CliResult) (pending : PendingTools) : CodingCliEvent → CliResult × PendingTools
  | .assistantTextDelta text => ({ result with finalText := result.finalText ++ text }, pending)
  | .toolCallStarted toolCallId name input =>
    (result, pending.insert toolCallId { toolCallId, name, input, output := none, error := none })
  | .toolCallFinished toolCallId output error =>
    ({ result with toolCalls := result.toolCalls ++ [finishedCall pending toolCallId output error] },
      pending.erase toolCallId)
  | .usage inputTokens outputTokens costUsd =>
    ({ result with usage := result.usage.add inputTokens outputTokens costUsd }, pending)
  | .runFinished _ (some text) => (if text ≠ "" then { result with finalText := text } else result, pending)
  | _ => (result, pending)

-- `P`: what the parser keeps from line to line.
structure CliEventParser (P : Type) where
  initial : P
  parseLine : P → String → Except String (List CodingCliEvent) × P
  flush : P → Except String (List CodingCliEvent)

structure Running (P : Type) where
  parser : P
  result : CliResult
  pending : PendingTools
  sent : List CodingCliEvent

structure Received where
  chunk : List UInt8
  cancelled : Bool

section Loop

variable {P : Type} (parser : CliEventParser P)

def Running.record (run : Running P) (event : CodingCliEvent) : Running P :=
  let (result, pending) := accumulate run.result run.pending event
  { run with result, pending, sent := run.sent ++ [event] }

def Running.take (run : Running P) (event : CodingCliEvent) : Running P :=
  let run := run.record event
  match event with
  | .runFinished reason _ => { run with result.finishReason := reason }
  | _ => run

def takeLine (run : Running P) (line : String) : Running P :=
  let (parsed, state) := parser.parseLine run.parser line
  let events :=
    match parsed with
    | .ok events => events
    | .error e => [.note ("parse error: " ++ e) ∅]
  events.foldl Running.take { run with parser := state }

def chunkLines (chunk : List UInt8) : List String := lines ((fromUtf8 chunk).getD [])

def readStdout : Running P → List Received → Running P
  | run, [] => run
  | run, received :: rest =>
    if received.cancelled then { run with result.finishReason := .cancelled }
    else readStdout ((chunkLines received.chunk).foldl (takeLine parser) run) rest

end Loop

-- How the outside answers, and in which order the map of the pending calls is gone through.
structure HeadlessWorld where
  materialized : Except String Unit
  spawned : Except String Unit
  stdout : List Received
  waited : Except String ExitStatus
  drain : PendingTools → List (String × ToolCallRecord)

def Running.finalize {P : Type} (run : Running P) (entry : String × ToolCallRecord) : Running P :=
  let (id, record) := entry
  { run with
    result.toolCalls :=
      run.result.toolCalls ++ [{ record with error := some (record.error.getD "tool call did not finish") }]
    sent := run.sent ++ [.note ("tool " ++ id ++ " never reported a result") ∅] }

def runOne {P : Type} (parser : CliEventParser P) (world : HeadlessWorld) (runId : CliRunId)
    (req : CliRequest) : Except HarnessError CliResult × List CodingCliEvent :=
  match world.materialized with
  | .error e => (.error (.mapper e), [])
  | .ok () =>
    let announced := [CodingCliEvent.runStarted runId req.vendor req.model none]
    match world.spawned with
    | .error e => (.error (.isolator e), announced)
    | .ok () =>
      let run := readStdout parser
        { parser := parser.initial, result := .new runId req.vendor, pending := ∅, sent := announced } world.stdout
      match parser.flush run.parser with
      | .error e => (.error (.parse e), run.sent)
      | .ok trailing =>
        let run := trailing.foldl Running.record run
        match world.waited with
        | .error e => (.error (.isolator e), run.sent)
        | .ok status =>
          let run := (world.drain run.pending).foldl Running.finalize run
          let reason :=
            if !status.success ∧ run.result.finishReason = .completed then .processError
            else run.result.finishReason
          let result := { run.result with exitCode := status.code, finishReason := reason }
          (.ok result, run.sent ++ [.runFinished reason (some result.finalText)])

end AtomrAgents.CodingCli
