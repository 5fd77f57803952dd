import AtomrAgents.Meetings.Analysis
import AtomrAgents.Shared.Table
import AtomrAgents.State.Checkpointer
import Mathlib.Data.String.Basic

set_option autoImplicit false

namespace AtomrAgents

open Shared

structure MeetingsSummary where
  id : String
  title : Option String
  attendeeCount : Nat
  noteCount : Nat
  actionCount : Nat
  openActionCount : Nat
  state : AnalysisState
  generatedAtMs : Int
  updatedAtMs : Int

def MeetingsSummary.of (a : MeetingAnalysis) : MeetingsSummary where
  id := a.id
  title := a.title
  attendeeCount := a.attendees.length
  noteCount := a.notes.length
  actionCount := a.actions.length
  openActionCount := a.actions.countP fun act => act.status = .«open»
  state := a.state
  generatedAtMs := a.generatedAtMs
  updatedAtMs := a.updatedAtMs

abbrev InMemoryMeetingsStore := Table MeetingAnalysis.id

namespace InMemoryMeetingsStore

variable (store : InMemoryMeetingsStore)

def put (analysis : MeetingAnalysis) : InMemoryMeetingsStore := store.upsert analysis

def get (id : String) : Option MeetingAnalysis := store.find id

def delete (id : String) : InMemoryMeetingsStore := Table.delete store id

def list : List MeetingsSummary := orderBy MeetingsSummary.id (store.rows.map MeetingsSummary.of)

end InMemoryMeetingsStore

inductive MeetingEdit where
  | updateAttendee (attendeeId : String) (displayName role email : Option String) (now : Int)
  | updateAction (actionId : String) (status : Option ActionStatus) (ownerAttendeeId dueIso : Option String)
    (now : Int)

def patchAttendee (displayName role email : Option String) (att : Attendee) : Attendee :=
  { att with
    displayName := displayName.getD att.displayName
    role := role.or att.role
    email := email.or att.email }

namespace MeetingEdit

-- What `update_attendee` and `update_action` do between their `get` and their `put`.
def apply : MeetingEdit → MeetingAnalysis → Except MeetingsHarnessError MeetingAnalysis
  | .updateAttendee attendeeId displayName role email now, a =>
    match a.attendee attendeeId with
    | none => .error (.tool ("unknown attendee_id `" ++ attendeeId ++ "`"))
    | some _ =>
      let attendees := modifyFirst (fun att => att.id == attendeeId) (patchAttendee displayName role email)
        a.attendees
      .ok ({ a with attendees }.touch now)
  | .updateAction actionId status ownerAttendeeId dueIso now, a =>
    match ownerAttendeeId.filter fun oid => (a.attendee oid).isNone with
    | some oid => .error (ToolCall.unknownOwner oid)
    | none =>
      match a.updateAction actionId status ownerAttendeeId dueIso none with
      | none => .error (.tool ("unknown action_id `" ++ actionId ++ "`"))
      | some a => .ok (a.touch now)

end MeetingEdit

end AtomrAgents

namespace AtomrAgents

open Shared

namespace CheckpointerMeetingsStore

def workflow : WorkflowId := "meetings-harness"

def indexRun : RunId := "_index"

variable (json : SerdeValue MeetingAnalysis) (checkpointer : InMemoryCheckpointer)

def nextStep (run : RunId) : Nat :=
  ((checkpointer.latest workflow run).map fun s => s.key.superStep + 1).getD 0

def snapshot (run : RunId) (superStep : Nat) (label : String) (values : Values) (now : Int) : Snapshot where
  key := { workflowId := workflow, runId := run, superStep }
  values := values
  label := label
  timestampMs := now

-- `serde_json::from_value` at `Vec<String>`.
def readIds : Value → Option (List String)
  | .array items => items.mapM Value.asStr
  | _ => none

def loadIndex : List String :=
  match checkpointer.latest workflow indexRun with
  | none => []
  | some s => (s.values["ids"]?.bind readIds).getD []

def indexValues (ids : List String) : Values := (∅ : Values).insert "ids" (.array (ids.map .string))

-- An error is the text of the `serde_json` error.
def get (id : String) : Except String (Option MeetingAnalysis) :=
  match checkpointer.latest workflow id with
  | none => .ok none
  | some snap =>
    if (snap.values["deleted"]?.bind Value.asBool).getD false then .ok none
    else
      match snap.values["analysis"]? with
      | some v => (json.fromValue v).map some
      | none => .ok none

def listRows : List String → Except String (List MeetingsSummary)
  | [] => .ok []
  | id :: rest =>
    match get json checkpointer id with
    | .error e => .error e
    | .ok found => (listRows rest).map fun rows => (found.map MeetingsSummary.of).toList ++ rows

def list : Except String (List MeetingsSummary) :=
  (listRows json checkpointer (loadIndex checkpointer)).map (orderBy MeetingsSummary.id)

end CheckpointerMeetingsStore

open CheckpointerMeetingsStore

inductive MeetingsWrite where
  | put (analysis : MeetingAnalysis)
  | delete (id : String)

namespace MeetingsWrite

def id : MeetingsWrite → String
  | .put analysis => analysis.id
  | .delete id => id

def label : MeetingsWrite → String
  | .put _ => "analysis"
  | .delete _ => "deleted"

def values (json : SerdeValue MeetingAnalysis) : MeetingsWrite → Except String Values
  | .put analysis => (json.toValue analysis).map fun v => (∅ : Values).insert "analysis" v
  | .delete _ => .ok ((∅ : Values).insert "deleted" (.bool true))

-- The index to be saved. `none`: it lists the id already.
def reindex (ids : List String) : MeetingsWrite → Option (List String)
  | .put analysis => if ids.any fun i => i == analysis.id then none else some (ids ++ [analysis.id])
  | .delete id => some (ids.filter fun i => i != id)

def inMemory (store : InMemoryMeetingsStore) : MeetingsWrite → InMemoryMeetingsStore
  | .put analysis => store.put analysis
  | .delete id => store.delete id

end MeetingsWrite

inductive WritePhase where
  | called
  | stepped (values : Values) (superStep : Nat)
  | saved
  | indexing (ids : List String)
  | indexStepped (ids : List String) (superStep : Nat)
  | returned (result : Except String Unit)

structure WriteTask where
  write : MeetingsWrite
  savedMs : Int
  indexedMs : Int
  phase : WritePhase

-- Every operation of the checkpointer is a turn.
def WriteTask.turn (json : SerdeValue MeetingAnalysis) (task : WriteTask) (checkpointer : InMemoryCheckpointer) :
    Option (WriteTask × InMemoryCheckpointer) :=
  match task.phase with
  | .called =>
    match task.write.values json with
    | .error e => some ({ task with phase := .returned (.error e) }, checkpointer)
    | .ok values =>
      some ({ task with phase := .stepped values (nextStep checkpointer task.write.id) }, checkpointer)
  | .stepped values superStep =>
    some ({ task with phase := .saved },
      checkpointer.save (snapshot task.write.id superStep task.write.label values task.savedMs))
  | .saved =>
    match task.write.reindex (loadIndex checkpointer) with
    | none => some ({ task with phase := .returned (.ok ()) }, checkpointer)
    | some ids => some ({ task with phase := .indexing ids }, checkpointer)
  | .indexing ids =>
    some ({ task with phase := .indexStepped ids (nextStep checkpointer indexRun) }, checkpointer)
  | .indexStepped ids superStep =>
    some ({ task with phase := .returned (.ok ()) },
      checkpointer.save (snapshot indexRun superStep "index" (indexValues ids) task.indexedMs))
  | .returned _ => none

end AtomrAgents
