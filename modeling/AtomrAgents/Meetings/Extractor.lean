import AtomrAgents.Core.Context
import AtomrAgents.Core.Text
import AtomrAgents.Meetings.Analysis
import Mathlib.Data.List.Dedup
import Mathlib.Logic.Function.Basic

set_option autoImplicit false

/-! One step of the loop waits for an event, loads the transcript again, and has the extractor process the
turns after the watermark. Only the extractor uses the tools meanwhile. -/

namespace AtomrAgents

open Shared

structure SpeakerTag where
  id : UInt8
  label : Option String

inductive SpeakerRef where
  | diarized (tag : SpeakerTag)
  | role (role : MessageRole)
  | unknown

structure SttTurn where
  index : Nat
  speaker : SpeakerRef
  text : String
  startMs : Nat
  endMs : Nat

structure SttConversation where
  id : String
  turns : List SttTurn
  speakerLabels : UInt8 → Option String
  -- No vector is as long as that.
  fits : turns.length < 2 ^ 63

namespace SttTurn

def speakerId (turn : SttTurn) : Option UInt8 :=
  match turn.speaker with
  | .diarized tag => some tag.id
  | _ => none

end SttTurn

namespace SttConversation

def new (id : String) : SttConversation where
  id := id
  turns := []
  speakerLabels := fun _ => none
  fits := Nat.two_pow_pos 63

def effectiveLabel (conv : SttConversation) (speakerId : UInt8) : String :=
  (conv.speakerLabels speakerId).getD ("speaker_" ++ toString speakerId.toNat)

end SttConversation

-- The critical sections so far are counted, and each gets the next answer from outside.
structure ToolHandle where
  analysis : MeetingAnalysis
  transcript : SttConversation
  ticks : Nat

-- The Unicode lowercase, the first group of each match of `commitment_re`, and the answers from outside.
structure ExtractorWorld where
  toLowercase : String → String
  commitmentRe : String → List (Option String)
  answers : Nat → LedgerAnswer

namespace ToolHandle

variable (world : ExtractorWorld) (handle : ToolHandle)

def withAnalysis {R : Type} (f : String → MeetingAnalysis → R × MeetingAnalysis) : R × ToolHandle :=
  let answer := world.answers handle.ticks
  let (out, analysis) := f answer.uuid handle.analysis
  (out, { handle with analysis := analysis.touch answer.now, ticks := handle.ticks + 1 })

def upsertAttendee (displayName : String) (role : Option String) (speakerTags : List UInt8)
    (email : Option String) : String × ToolHandle :=
  handle.withAnalysis world fun uuid analysis =>
    analysis.upsertAttendee world.toLowercase displayName role speakerTags email uuid

def appendNote (text : String) (sourceTurnIndices : List Nat) (startMs endMs : Option Nat) :
    String × ToolHandle :=
  handle.withAnalysis world fun uuid analysis =>
    (uuid, analysis.appendNote { id := uuid, text, sourceTurnIndices, startMs, endMs })

def appendAction (description : String) (ownerAttendeeId dueIso supportingQuote : Option String)
    (sourceTurnIndex : Option Nat) : Except MeetingsHarnessError String × ToolHandle :=
  let (exists_, handle) :=
    match ownerAttendeeId with
    | none => (true, handle)
    | some oid => handle.withAnalysis world fun _ analysis => ((analysis.attendee oid).isSome, analysis)
  if exists_ then
    let (id, handle) := handle.withAnalysis world fun uuid analysis =>
      (uuid, analysis.appendAction {
        id := uuid
        description
        ownerAttendeeId
        dueIso
        supportingQuote
        sourceTurnIndex
        status := .«open» })
    (.ok id, handle)
  else (.error (ToolCall.unknownOwner (ownerAttendeeId.getD "")), handle)

def reviseTailSegment (text : String) (startTurnIndex endTurnIndex : Nat) :
    Except MeetingsHarnessError SegmentSummary × ToolHandle :=
  if endTurnIndex < startTurnIndex then
    (.error (.tool "end_turn_index must be >= start_turn_index"), handle)
  else
    let (segment, handle) := handle.withAnalysis world fun uuid analysis =>
      analysis.reviseTailSegment text startTurnIndex endTurnIndex uuid
    (.ok segment, handle)

def finalizeSegment : Option SegmentSummary × ToolHandle :=
  handle.withAnalysis world fun _ analysis => analysis.finalizeSegment

def regenerateRunning : String × ToolHandle :=
  handle.withAnalysis world fun _ analysis => analysis.regenerateRunning

def setTitle (title : String) : ToolHandle :=
  (handle.withAnalysis world fun _ analysis => ((), analysis.setTitle title)).2

def finalize (tldr : Option String) : (Nat × Nat) × ToolHandle :=
  handle.withAnalysis world fun _ analysis => analysis.finalize tldr

def advanceWatermark (turnIndex : Nat) : ToolHandle :=
  (handle.withAnalysis world fun _ analysis => ((), analysis.advanceWatermark turnIndex)).2

end ToolHandle

def truncate (s : String) (n : Nat) : String :=
  if s.toList.length ≤ n then s else String.ofList (s.toList.take n ++ ['…'])

def summarizeSegment (turns : List (Nat × String × String)) : String :=
  match turns.head?, turns.getLast? with
  | some first, some last =>
    let speakerList := ((turns.map fun t => t.2.1).dedup).mergeSort fun a b => decide (a ≤ b)
    let preview := " / ".intercalate ((turns.take 2).map fun t => t.2.1 ++ ": " ++ truncate t.2.2 80)
    "Turns " ++ toString first.1 ++ "-" ++ toString last.1 ++ " (" ++ toString speakerList.length ++
      " speakers: " ++ ", ".intercalate speakerList ++ "). " ++ preview
  | _, _ => ""

def buildTldr (analysis : MeetingAnalysis) : String :=
  toString analysis.attendees.length ++ " attendees (" ++
    ", ".intercalate (analysis.attendees.map Attendee.displayName) ++ "). " ++
    toString analysis.notes.length ++ " notes, " ++ toString analysis.actions.length ++ " actions (" ++
    toString (analysis.actions.countP fun a => a.status = .«open») ++ " open)."

structure ExtractionWindow where
  sinceTurnIndex : Option Nat
  untilTurnIndex : Option Nat

def ExtractionWindow.all : ExtractionWindow where
  sinceTurnIndex := none
  untilTurnIndex := none

def ExtractionWindow.after (watermark : Option Nat) : ExtractionWindow where
  sinceTurnIndex := watermark.map fun w => w + 1
  untilTurnIndex := none

structure ExtractionRequest where
  window : ExtractionWindow
  finalize : Bool
  live : Bool
  segmentTurnCount : Nat

def u64Max : Nat := 2 ^ 64 - 1

def ExtractionWindow.turns (window : ExtractionWindow) (conv : SttConversation) : List SttTurn :=
  conv.turns.filter fun t =>
    window.sinceTurnIndex.getD 0 ≤ t.index ∧ t.index < window.untilTurnIndex.getD u64Max

namespace RuleBasedExtractor

variable (world : ExtractorWorld)

-- `owners_by_speaker` for the speakers of the window.
def mineAttendee (conv : SttConversation) (found : (UInt8 → Option String) × ToolHandle) (turn : SttTurn) :
    (UInt8 → Option String) × ToolHandle :=
  match turn.speakerId with
  | none => found
  | some sid =>
    let (attendeeId, handle) := found.2.upsertAttendee world (conv.effectiveLabel sid) none [sid] none
    (Function.update found.1 sid (some attendeeId), handle)

def mineAttendees (conv : SttConversation) (inWindow : List SttTurn) (handle : ToolHandle) :
    (UInt8 → Option String) × ToolHandle :=
  inWindow.foldl (mineAttendee world conv) (fun _ => none, handle)

-- `entry(tag).or_insert_with`.
def seedOwner (owners : UInt8 → Option String) (seed : UInt8 × String) : UInt8 → Option String :=
  if (owners seed.1).isSome then owners else Function.update owners seed.1 (some seed.2)

def seedOwners (attendees : List Attendee) (owners : UInt8 → Option String) : UInt8 → Option String :=
  (attendees.flatMap fun att => att.speakerTags.map fun tag => (tag, att.id)).foldl seedOwner owners

def noteTurn (handle : ToolHandle) (turn : SttTurn) : ToolHandle :=
  let trimmed := trim turn.text
  if trimmed = "" then handle
  else (handle.appendNote world trimmed [turn.index] (some turn.startMs) (some turn.endMs)).2

def drafts (owners : UInt8 → Option String) (turn : SttTurn) : List (String × Option String × SttTurn) :=
  (world.commitmentRe turn.text).filterMap fun group =>
    let desc := (group.map trim).getD ""
    if desc = "" then none else some (desc, turn.speakerId.bind owners, turn)

def appendActions :
    List (String × Option String × SttTurn) → ToolHandle → Except MeetingsHarnessError Unit × ToolHandle
  | [], handle => (.ok (), handle)
  | (desc, owner, turn) :: rest, handle =>
    match handle.appendAction world desc owner none (some turn.text) (some turn.index) with
    | (.error e, handle) => (.error e, handle)
    | (.ok _, handle) => appendActions rest handle

def segmentSlice (conv : SttConversation) (s e : Nat) : List (Nat × String × String) :=
  (conv.turns.filter fun t => s ≤ t.index ∧ t.index ≤ e).map fun t =>
    (t.index, (t.speakerId.map conv.effectiveLabel).getD "unknown", t.text)

def liveSegment (request : ExtractionRequest) (conv : SttConversation) (inWindow : List SttTurn)
    (handle : ToolHandle) : Except MeetingsHarnessError Unit × ToolHandle :=
  let tailStart := (handle.analysis.summaryLevels.tail.map SegmentSummary.startTurnIndex).or
    (inWindow.head?.map SttTurn.index)
  let lastSeen := inWindow.getLast?.map SttTurn.index
  match tailStart, lastSeen with
  | some s, some e =>
    match handle.reviseTailSegment world (summarizeSegment (segmentSlice conv s e)) s e with
    | (.error error, handle) => (.error error, handle)
    | (.ok _, handle) =>
      if request.segmentTurnCount ≤ e - s + 1 then
        (.ok (), ((handle.finalizeSegment world).2.regenerateRunning world).2)
      else (.ok (), handle)
  | _, _ => (.ok (), handle)

def liveSegments (request : ExtractionRequest) (conv : SttConversation) (inWindow : List SttTurn)
    (handle : ToolHandle) : Except MeetingsHarnessError Unit × ToolHandle :=
  match liveSegment world request conv inWindow handle with
  | (.error error, handle) => (.error error, handle)
  | (.ok (), handle) =>
    match (inWindow.map SttTurn.index).max? with
    | some maxIdx => (.ok (), handle.advanceWatermark world maxIdx)
    | none => (.ok (), handle)

-- The first argument bounds the chunks: every one takes at least one turn.
def batchChunks (request : ExtractionRequest) (conv : SttConversation) (lastIndex : Nat) :
    Nat → Nat → ToolHandle → Except MeetingsHarnessError Unit × ToolHandle
  | 0, _, handle => (.ok (), handle)
  | fuel + 1, cursor, handle =>
    if cursor ≤ lastIndex then
      let chunkEnd := min (cursor + request.segmentTurnCount - 1) lastIndex
      match handle.reviseTailSegment world (summarizeSegment (segmentSlice conv cursor chunkEnd)) cursor
          chunkEnd with
      | (.error error, handle) => (.error error, handle)
      | (.ok _, handle) =>
        batchChunks request conv lastIndex fuel (chunkEnd + 1) (handle.finalizeSegment world).2
    else (.ok (), handle)

def batchSegments (request : ExtractionRequest) (conv : SttConversation) (inWindow : List SttTurn)
    (handle : ToolHandle) : Except MeetingsHarnessError Unit × ToolHandle :=
  match inWindow.head?, inWindow.getLast? with
  | some first, some last =>
    match batchChunks world request conv last.index (last.index + 1 - first.index) first.index handle with
    | (.error error, handle) => (.error error, handle)
    | (.ok (), handle) => (.ok (), (handle.regenerateRunning world).2.advanceWatermark world last.index)
  | _, _ => (.ok (), handle)

def finish (handle : ToolHandle) : ToolHandle :=
  let handle := (handle.finalizeSegment world).2
  let (running, handle) := handle.regenerateRunning world
  let title := truncate (trim running) 60
  let handle := if handle.analysis.title.isNone ∧ title ≠ "" then handle.setTitle world title else handle
  (handle.finalize world (some (buildTldr handle.analysis))).2

def extract (request : ExtractionRequest) (handle : ToolHandle) :
    Except MeetingsHarnessError Unit × ToolHandle :=
  let conv := handle.transcript
  let inWindow := request.window.turns conv
  if inWindow.isEmpty && !request.finalize then (.ok (), handle)
  else
    let (owners, handle) := mineAttendees world conv inWindow handle
    let owners := seedOwners handle.analysis.attendees owners
    let handle := inWindow.foldl (noteTurn world) handle
    match appendActions world (inWindow.flatMap (drafts world owners)) handle with
    | (.error error, handle) => (.error error, handle)
    | (.ok (), handle) =>
      match (if request.live then liveSegments world request conv inWindow handle
        else batchSegments world request conv inWindow handle) with
      | (.error error, handle) => (.error error, handle)
      | (.ok (), handle) => (.ok (), if request.finalize then finish world handle else handle)

end RuleBasedExtractor

structure MeetingsHarnessState where
  iteration : Nat
  analysis : MeetingAnalysis
  transcript : SttConversation
  streamClosed : Bool

inductive SttHarnessEvent where
  | finished
  | other

inductive RecvError where
  | closed
  | lagged

-- What a step hears: the event, unless the receiver is taken, the transcript, and whether the record is stored.
structure StepInput where
  received : Option (Except RecvError SttHarnessEvent)
  loaded : Except String (Option SttConversation)
  stored : Except String Unit

inductive MeetingsStepOutcome where
  | «continue» (label : String)
  | done (label : String)

structure MeetingsRun where
  state : MeetingsHarnessState
  handle : ToolHandle

namespace StreamingExtractionLoop

variable (world : ExtractorWorld) (segmentTurnCount : Nat) (sourceConversationId : String)

-- Whether the step is the last one, with its label. `none`: the stream is closed.
def heard (received : Option (Except RecvError SttHarnessEvent)) : Option (Bool × String) :=
  match received with
  | none | some (.error .closed) => none
  | some (.ok .finished) => some (true, "finished")
  | some (.ok .other) => some (false, "burst")
  | some (.error .lagged) => some (false, "lagged")

def step (input : StepInput) (run : MeetingsRun) :
    Except MeetingsHarnessError MeetingsStepOutcome × MeetingsRun :=
  let state :=
    if run.state.iteration = 1 then
      { run.state with analysis := { run.state.analysis with state := .streaming } }
    else run.state
  match heard input.received with
  | none => (.ok (.done "stream_closed"), { run with state })
  | some (finalize, label) =>
    let state := { state with streamClosed := state.streamClosed || finalize }
    match input.loaded with
    | .error e => (.error (.stt e), { run with state })
    | .ok loaded =>
      let conv := loaded.getD (SttConversation.new sourceConversationId)
      let state := { state with transcript := conv }
      let handle := { run.handle with transcript := conv }
      let request : ExtractionRequest := {
        window := .after state.analysis.lastProcessedTurnIndex
        finalize
        live := true
        segmentTurnCount }
      match RuleBasedExtractor.extract world request handle with
      | (.error e, handle) => (.error e, { state, handle })
      | (.ok (), handle) =>
        let run : MeetingsRun := { state := { state with analysis := handle.analysis }, handle }
        match input.stored with
        | .error e => (.error (.persistence e), run)
        | .ok () => (.ok (if finalize then .done label else .«continue» label), run)

-- `run_loop` over the inputs there are. `none`: it waits for the next one.
def runSteps : List StepInput → MeetingsRun → Except MeetingsHarnessError (Option String) × MeetingsRun
  | [], run => (.ok none, run)
  | input :: rest, run =>
    let state := { run.state with iteration := run.state.iteration + 1 }
    match step world segmentTurnCount sourceConversationId input { run with state } with
    | (.error e, run) => (.error e, run)
    | (.ok (.done label), run) => (.ok (some label), run)
    | (.ok (.«continue» _), run) => runSteps rest run

end StreamingExtractionLoop

-- `MeetingsHarness::run` before its first step.
def startMeeting (conv : SttConversation) (modelId : String) (now : Int) : MeetingsRun :=
  let analysis := { MeetingAnalysis.new conv.id now with modelId := some modelId }
  { state := { iteration := 0, analysis, transcript := conv, streamClosed := false }
    handle := { analysis, transcript := conv, ticks := 0 } }

end AtomrAgents
