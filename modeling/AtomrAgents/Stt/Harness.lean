import AtomrAgents.Shared.BurstLoop
import AtomrAgents.Stt.Conversation

set_option autoImplicit false

/-! The session task forwards the events of the stream and, for a layered diarizer, the audio. The loop checks
for termination, folds a burst of events into the conversation, and tells its subscribers what it did. -/

namespace AtomrAgents.Stt

open Shared

inductive VoiceMode where
  | live
  | turnBased (silenceMs : Nat)

-- The events of a run, without `Error`, which no one emits. The first is `Partial`.
inductive SttHarnessEvent where
  | interim (text : String) (startMs endMs : Nat)
  | started (backend diarization : String)
  | utteranceCommitted (turn : CommittedTurn)
  | speakerChanged (speaker : SpeakerTag) (atMs : Nat)
  | utteranceEnd (atMs : Nat)
  | metadata (data : Value)
  | diarizationWarning (detail : String)
  | finished (reason : String) (turnCount totalAudioMs : Nat)

inductive DiarizationSupport where
  | none
  | speakerCount
  | namedSpeakers

def DiarizationPolicy.describe : DiarizationPolicy → String
  | .off => "off"
  | .backend => "backend"
  | .layered _ => "layered"

def warnMismatch : DiarizationPolicy → DiarizationSupport → List SttHarnessEvent
  | .layered _, .speakerCount | .layered _, .namedSpeakers =>
    [.diarizationWarning "layered diarization requested, but the backend already diarizes"]
  | .backend, .none =>
    [.diarizationWarning ("backend diarization requested, but the backend reports " ++
      "DiarizationSupport::None — turns will have no speaker")]
  | _, _ => []

structure SttHarnessState where
  iteration : Nat
  history : List (Nat × String)
  conversation : Conversation
  remainingBudget : Nat
  streamClosed : Bool

structure SttRun where
  state : SttHarnessState
  stage : DiarizationStage
  committed : Nat
  emitted : List SttHarnessEvent
  telemetry : List (Nat × String)

inductive RunEnd where
  | terminated (reason : String)
  | streamEnd
  deriving DecidableEq

def RunEnd.reason : RunEnd → String
  | .terminated reason => reason
  | .streamEnd => "stream_end"

-- `SttTermination::should_terminate`
abbrev SttTermination := SttHarnessState → Option String

namespace SttTermination

def streamEnd : SttTermination := fun _ => none

def utteranceCap (cap : Nat) : SttTermination := fun state =>
  if cap ≤ state.conversation.turns.length then some "utterance_cap" else none

def budget : SttTermination := fun state => if state.remainingBudget = 0 then some "budget_exhausted" else none

def composite (strategies : List SttTermination) : SttTermination := fun state =>
  strategies.findSome? fun strategy => strategy state

end SttTermination

namespace SttRun

variable (run : SttRun)

def setConversation (conversation : Conversation) : SttRun := { run with state := { run.state with conversation } }

def emit (event : SttHarnessEvent) : SttRun := { run with emitted := run.emitted ++ [event] }

def emitIteration (outcome : String) : SttRun :=
  { run with telemetry := run.telemetry ++ [(run.state.iteration, outcome)] }

def pushStep (outcome : String) : SttRun :=
  { run with state := { run.state with history := run.state.history ++ [(run.state.iteration, outcome)] } }

def commit (turn : CommittedTurn) (conversation : Conversation) : SttRun :=
  { run.setConversation conversation with committed := run.committed + 1 }.emit (.utteranceCommitted turn)

def fold (coalesce : VoiceMode) : StreamEvent → Except String SttRun
  | .interim text startMs endMs words =>
    let run := run.setConversation (run.state.conversation.applyPartial text startMs endMs words)
    match coalesce with
    | .live => .ok (run.emit (.interim text startMs endMs))
    | .turnBased _ => .ok run
  | .final segment =>
    match run.stage.resolveSegment segment with
    | .error e => .error e
    | .ok (stage, segment) =>
      let (turn, conversation) := run.state.conversation.commitSegment segment
      .ok ({ run with stage }.commit turn conversation)
  | .speakerTurn speaker atMs =>
    .ok ((run.setConversation (run.state.conversation.noteSpeakerChange speaker)).emit
      (.speakerChanged speaker atMs))
  | .utteranceEnd atMs =>
    match run.state.conversation.closeOpenTurn atMs with
    | (none, _) => .ok (run.emit (.utteranceEnd atMs))
    | (some turn, conversation) => .ok ((run.commit turn conversation).emit (.utteranceEnd atMs))
  | .metadata data => .ok (run.emit (.metadata data))

def label : String := if 0 < run.committed then "committed:" ++ toString run.committed else "partials"

def close : SttRun :=
  ({ run with state := { run.state with streamClosed := true } }.pushStep "stream_closed").emitIteration
    "done:stream_closed"

def finish (reason : RunEnd) : SttRun :=
  run.emit (.finished reason.reason run.state.conversation.turns.length run.state.conversation.totalAudioMs)

end SttRun

structure SttHarness where
  coalesce : VoiceMode
  policy : DiarizationPolicy
  termination : SttTermination

namespace SttHarness

variable (harness : SttHarness)

-- `run_impl`, as a loop over bursts.
def body : BurstBody SttRun StreamEvent PcmBuffer RunEnd String where
  stop run :=
    match harness.termination run.state with
    | none => none
    | some reason =>
      some (.terminated reason, (run.emitIteration ("terminated:" ++ reason)).finish (.terminated reason))
  enter run := { run with state := { run.state with iteration := run.state.iteration + 1 }, committed := 0 }
  fold run event := run.fold harness.coalesce event
  leave run := (run.pushStep run.label).emitIteration run.label
  ended run := (.streamEnd, run.close.finish .streamEnd)
  feed run pcm := { run with stage := run.stage.forward pcm }

def initial (id backend : String) (support : DiarizationSupport) (budget : Nat) : SttRun where
  state :=
    { iteration := 0, history := [], conversation := .new id, remainingBudget := budget, streamClosed := false }
  stage := .new harness.policy
  committed := 0
  emitted := warnMismatch harness.policy support ++ [.started backend harness.policy.describe]
  telemetry := [(0, "stt_open")]

abbrev Schedule := List (BurstEvent StreamEvent PcmBuffer String)

def after (initial : SttRun) (schedule : Schedule) : BurstLoop SttRun StreamEvent RunEnd String :=
  BurstLoop.after harness.body initial schedule

end SttHarness

end AtomrAgents.Stt
