import AtomrAgents.Shared.FirstMatch
import AtomrAgents.Shared.Interleaving

set_option autoImplicit false

/-! Notes and actions are ledgers that grow at the tail, the attendees are a roster, and the summaries are
segments of which the last one may still be revised. The operations here are the critical sections of the
tools. -/

namespace AtomrAgents

open Shared

inductive AnalysisState where
  | pending
  | streaming
  | final
  deriving DecidableEq

inductive ActionStatus where
  | «open»
  | done
  | cancelled
  deriving DecidableEq

structure Attendee where
  id : String
  displayName : String
  role : Option String
  speakerTags : List UInt8
  email : Option String

structure Note where
  id : String
  text : String
  sourceTurnIndices : List Nat
  startMs : Option Nat
  endMs : Option Nat

structure Action where
  id : String
  description : String
  ownerAttendeeId : Option String
  dueIso : Option String
  supportingQuote : Option String
  sourceTurnIndex : Option Nat
  status : ActionStatus

structure SegmentSummary where
  id : String
  startTurnIndex : Nat
  endTurnIndex : Nat
  text : String
  finalized : Bool

structure SummaryLevels where
  segments : List SegmentSummary
  running : Option String
  tldr : Option String

structure MeetingAnalysis where
  id : String
  title : Option String
  summaryLevels : SummaryLevels
  attendees : List Attendee
  notes : List Note
  actions : List Action
  sourceTranscriptId : String
  lastProcessedTurnIndex : Option Nat
  generatedAtMs : Int
  updatedAtMs : Int
  modelId : Option String
  state : AnalysisState

namespace SummaryLevels

variable (levels : SummaryLevels)

def tail : Option SegmentSummary := findLast (fun s => !s.finalized) levels.segments

-- What is written through the reference that `tail_mut` gives.
def tailMut (change : SegmentSummary → SegmentSummary) : SummaryLevels :=
  { levels with segments := modifyLast (fun s => !s.finalized) change levels.segments }

end SummaryLevels

-- A new id is `uuid` and the time is `now` in all of these.
namespace MeetingAnalysis

def new (conversationId : String) (now : Int) : MeetingAnalysis where
  id := conversationId
  title := none
  summaryLevels := { segments := [], running := none, tldr := none }
  attendees := []
  notes := []
  actions := []
  sourceTranscriptId := conversationId
  lastProcessedTurnIndex := none
  generatedAtMs := now
  updatedAtMs := now
  modelId := none
  state := .pending

variable (analysis : MeetingAnalysis)

def attendee (id : String) : Option Attendee := analysis.attendees.find? fun a => a.id == id

def attendeeForSpeaker (speakerId : UInt8) : Option Attendee :=
  analysis.attendees.find? fun a => a.speakerTags.any fun t => t == speakerId

def touch (now : Int) : MeetingAnalysis := { analysis with updatedAtMs := now }

section Attendees

variable (toLowercase : String → String) (displayName : String) (role : Option String)
  (speakerTags : List UInt8) (email : Option String)

def matchesAttendee (x : Attendee) : Bool :=
  toLowercase x.displayName == toLowercase displayName || x.speakerTags.any fun t => speakerTags.contains t

def mergeAttendee (existing : Attendee) : Attendee where
  id := existing.id
  displayName :=
    if toLowercase existing.displayName ≠ toLowercase displayName then displayName else existing.displayName
  role := role.or existing.role
  speakerTags :=
    speakerTags.foldl (fun tags tag => if tags.contains tag then tags else tags ++ [tag]) existing.speakerTags
  email := email.or existing.email

def upsertAttendee (uuid : String) : String × MeetingAnalysis :=
  let found := matchesAttendee toLowercase displayName speakerTags
  let merge := mergeAttendee toLowercase displayName role speakerTags email
  match analysis.attendees.find? found with
  | some existing =>
    (existing.id, { analysis with attendees := modifyFirst found merge analysis.attendees })
  | none =>
    let new : Attendee := { id := uuid, displayName, role, speakerTags, email }
    (uuid, { analysis with attendees := analysis.attendees ++ [new] })

end Attendees

def appendNote (note : Note) : MeetingAnalysis := { analysis with notes := analysis.notes ++ [note] }

def appendAction (action : Action) : MeetingAnalysis := { analysis with actions := analysis.actions ++ [action] }

def patchAction (status : Option ActionStatus) (ownerAttendeeId dueIso supportingQuote : Option String)
    (action : Action) : Action :=
  { action with
    status := status.getD action.status
    ownerAttendeeId := ownerAttendeeId.or action.ownerAttendeeId
    dueIso := dueIso.or action.dueIso
    supportingQuote := supportingQuote.or action.supportingQuote }

-- `none`: there is no such action.
def updateAction (actionId : String) (status : Option ActionStatus)
    (ownerAttendeeId dueIso supportingQuote : Option String) : Option MeetingAnalysis :=
  if analysis.actions.any fun a => a.id == actionId then
    some { analysis with
      actions := modifyFirst (fun a => a.id == actionId)
        (patchAction status ownerAttendeeId dueIso supportingQuote) analysis.actions }
  else none

def reviseSegment (text : String) (startTurnIndex endTurnIndex : Nat) (tail : SegmentSummary) :
    SegmentSummary :=
  { tail with
    text
    endTurnIndex := max endTurnIndex tail.endTurnIndex
    startTurnIndex := min tail.startTurnIndex startTurnIndex }

def reviseTailSegment (text : String) (startTurnIndex endTurnIndex : Nat) (uuid : String) :
    SegmentSummary × MeetingAnalysis :=
  match analysis.summaryLevels.tail with
  | some tail =>
    (reviseSegment text startTurnIndex endTurnIndex tail,
      { analysis with
        summaryLevels := analysis.summaryLevels.tailMut (reviseSegment text startTurnIndex endTurnIndex) })
  | none =>
    let seg : SegmentSummary := { id := uuid, startTurnIndex, endTurnIndex, text, finalized := false }
    (seg, { analysis with
      summaryLevels := { analysis.summaryLevels with segments := analysis.summaryLevels.segments ++ [seg] } })

def freeze (segment : SegmentSummary) : SegmentSummary := { segment with finalized := true }

def finalizeSegment : Option SegmentSummary × MeetingAnalysis :=
  (analysis.summaryLevels.tail.map freeze,
    { analysis with summaryLevels := analysis.summaryLevels.tailMut freeze })

def regenerateRunning : String × MeetingAnalysis :=
  let joined := "\n\n".intercalate
    ((analysis.summaryLevels.segments.filter SegmentSummary.finalized).map SegmentSummary.text)
  (joined, { analysis with summaryLevels := { analysis.summaryLevels with running := some joined } })

def setTitle (title : String) : MeetingAnalysis := { analysis with title := some title }

def finalize (tldr : Option String) : (Nat × Nat) × MeetingAnalysis :=
  ((analysis.notes.length, analysis.actions.length),
    { analysis with
      state := .final
      summaryLevels := { analysis.summaryLevels with
        tldr := tldr.or analysis.summaryLevels.tldr
        segments := analysis.summaryLevels.segments.map freeze } })

def advanceWatermark (turnIndex : Nat) : MeetingAnalysis :=
  { analysis with lastProcessedTurnIndex := some turnIndex }

end MeetingAnalysis

end AtomrAgents

namespace AtomrAgents

open Shared

inductive MeetingsHarnessError where
  | tool (message : String)
  | stt (message : String)
  | persistence (message : String)
  deriving DecidableEq

-- What a critical section learns from outside: the clock, and a new id.
structure LedgerAnswer where
  now : Int
  uuid : String

inductive ToolCall where
  | upsertAttendee (displayName : String) (role : Option String) (speakerTags : List UInt8)
    (email : Option String)
  | appendNote (text : String) (sourceTurnIndices : List Nat) (startMs endMs : Option Nat)
  | appendAction (description : String) (ownerAttendeeId dueIso supportingQuote : Option String)
    (sourceTurnIndex : Option Nat)
  | updateAction (actionId : String) (status : Option ActionStatus)
    (ownerAttendeeId dueIso supportingQuote : Option String)
  | reviseTailSegment (text : String) (startTurnIndex endTurnIndex : Nat)
  | finalizeSegment
  | regenerateRunning
  | setTitle (title : String)
  | finalize (tldr : Option String)
  | advanceWatermark (turnIndex : Nat)

inductive ToolReturn where
  | unit
  | id (id : String)
  | segment (segment : SegmentSummary)
  | tail (segment : Option SegmentSummary)
  | text (text : String)
  | counts (notes actions : Nat)

namespace ToolCall

def owner : ToolCall → Option String
  | .appendAction _ owner _ _ _ | .updateAction _ _ owner _ _ => owner
  | _ => none

def perform (toLowercase : String → String) (answer : LedgerAnswer) (analysis : MeetingAnalysis) :
    ToolCall → Except MeetingsHarnessError ToolReturn × MeetingAnalysis
  | .upsertAttendee displayName role speakerTags email =>
    let (id, analysis) :=
      analysis.upsertAttendee toLowercase displayName role speakerTags email answer.uuid
    (.ok (.id id), analysis.touch answer.now)
  | .appendNote text sourceTurnIndices startMs endMs =>
    let note : Note := { id := answer.uuid, text, sourceTurnIndices, startMs, endMs }
    (.ok (.id note.id), (analysis.appendNote note).touch answer.now)
  | .appendAction description ownerAttendeeId dueIso supportingQuote sourceTurnIndex =>
    let action : Action := {
      id := answer.uuid
      description
      ownerAttendeeId
      dueIso
      supportingQuote
      sourceTurnIndex
      status := .«open» }
    (.ok (.id action.id), (analysis.appendAction action).touch answer.now)
  | .updateAction actionId status ownerAttendeeId dueIso supportingQuote =>
    match analysis.updateAction actionId status ownerAttendeeId dueIso supportingQuote with
    | some analysis => (.ok .unit, analysis.touch answer.now)
    | none => (.error (.tool ("unknown action_id `" ++ actionId ++ "`")), analysis.touch answer.now)
  | .reviseTailSegment text startTurnIndex endTurnIndex =>
    if endTurnIndex < startTurnIndex then
      (.error (.tool "end_turn_index must be >= start_turn_index"), analysis)
    else
      let (segment, analysis) :=
        analysis.reviseTailSegment text startTurnIndex endTurnIndex answer.uuid
      (.ok (.segment segment), analysis.touch answer.now)
  | .finalizeSegment =>
    let (segment, analysis) := analysis.finalizeSegment
    (.ok (.tail segment), analysis.touch answer.now)
  | .regenerateRunning =>
    let (text, analysis) := analysis.regenerateRunning
    (.ok (.text text), analysis.touch answer.now)
  | .setTitle title => (.ok .unit, (analysis.setTitle title).touch answer.now)
  | .finalize tldr =>
    let (counts, analysis) := analysis.finalize tldr
    (.ok (.counts counts.1 counts.2), analysis.touch answer.now)
  | .advanceWatermark turnIndex => (.ok .unit, (analysis.advanceWatermark turnIndex).touch answer.now)

def unknownOwner (oid : String) : MeetingsHarnessError := .tool ("unknown owner_attendee_id `" ++ oid ++ "`")

end ToolCall

inductive ToolPhase where
  | called
  | resolved
  | returned (result : Except MeetingsHarnessError ToolReturn)

structure ToolTask where
  call : ToolCall
  phase : ToolPhase

namespace ToolTask

variable (toLowercase : String → String)

def performTurn (answer : LedgerAnswer) (task : ToolTask) (analysis : MeetingAnalysis) :
    ToolTask × MeetingAnalysis :=
  let (result, analysis) := task.call.perform toLowercase answer analysis
  ({ task with phase := .returned result }, analysis)

def turn (answer : LedgerAnswer) (task : ToolTask) (analysis : MeetingAnalysis) :
    Option (ToolTask × MeetingAnalysis) :=
  match task.phase with
  | .called =>
    match task.call.owner with
    | none => some (task.performTurn toLowercase answer analysis)
    | some oid =>
      let phase : ToolPhase :=
        if (analysis.attendee oid).isSome then .resolved
        else .returned (.error (ToolCall.unknownOwner oid))
      some ({ task with phase }, analysis.touch answer.now)
  | .resolved => some (task.performTurn toLowercase answer analysis)
  | .returned _ => none

end ToolTask

end AtomrAgents
