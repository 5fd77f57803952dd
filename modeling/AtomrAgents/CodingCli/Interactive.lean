import AtomrAgents.Shared.Interleaving
import AtomrAgents.Shared.Operations
import Mathlib.Data.String.Basic

set_option autoImplicit false

/-! `start_interactive` and `stop_interactive`, cut into turns at their awaits. Each turn is told how the
outside answers what it waits for: the file system, the vendor's configuration and the isolator. -/

namespace AtomrAgents.CodingCli

open Shared

inductive CliVendorKind where
  | claude
  | codex
  | antigravity
  | cursor
  | aider
  | other (name : String)
  deriving DecidableEq

abbrev CliSessionId := String

inductive RunMode where
  | headless
  | interactive

structure CliRequest where
  vendor : CliVendorKind
  workdir : String
  mode : RunMode
  model : Option String

structure CodingCliHarnessSpec where
  defaultModel : Option String
  maxConcurrentSessions : Nat

structure InteractiveSessionHandle where
  id : CliSessionId
  vendor : CliVendorKind
  tmuxSession : String
  request : CliRequest

structure ExitStatus where
  code : Option Int
  success : Bool

inductive HarnessError where
  | unknownVendor (kind : CliVendorKind)
  | invalidRequest (message : String)
  | invalidWorkdir (workdir : String)
  | sessionNotFound (id : String)
  | mapper (e : String)
  | isolator (e : String)
  | parse (e : String)

-- `vendors`: the kinds that the registry has an adapter for.
structure CodingCliHarness where
  spec : CodingCliHarnessSpec
  vendors : List CliVendorKind
  sessions : List InteractiveSessionHandle

structure IsolatorAnswer where
  isDir : Bool
  materialized : Except String Unit
  spawned : Except String Unit
  waited : Except String ExitStatus

-- A session gets a new id where it is started.
inductive InteractiveRequest where
  | start (req : CliRequest) (id : CliSessionId)
  | stop (id : CliSessionId)

inductive Opening where
  | materializing
  | creating
  | waiting
  | attaching

inductive Closing where
  | detaching
  | killing
  | reaping

inductive InteractiveCall where
  | called (request : InteractiveRequest)
  | opening (stage : Opening) (id : CliSessionId) (req : CliRequest)
  | closing (stage : Closing) (handle : InteractiveSessionHandle)
  | started (result : Except HarnessError InteractiveSessionHandle)
  | stopped (result : Except HarnessError Unit)

namespace SessionRegistry

variable (sessions : List InteractiveSessionHandle)

def insert (handle : InteractiveSessionHandle) : List InteractiveSessionHandle := sessions ++ [handle]

def get (id : CliSessionId) : Option InteractiveSessionHandle := sessions.find? (·.id = id)

def remove (id : CliSessionId) : List InteractiveSessionHandle := sessions.filter (·.id ≠ id)

end SessionRegistry

namespace CodingCliHarness

variable (harness : CodingCliHarness)

def validateWorkdir (answer : IsolatorAnswer) (req : CliRequest) : Except HarnessError Unit :=
  if answer.isDir then .ok () else .error (.invalidWorkdir req.workdir)

def beginStart (answer : IsolatorAnswer) (req : CliRequest) : Except HarnessError CliRequest := do
  validateWorkdir answer req
  let req := { req with mode := .interactive, model := req.model.or harness.spec.defaultModel }
  if harness.sessions.length ≥ harness.spec.maxConcurrentSessions then
    throw (.invalidRequest
      ("max_concurrent_sessions reached (" ++ toString harness.spec.maxConcurrentSessions ++ ")"))
  if req.vendor ∉ harness.vendors then throw (.unknownVendor req.vendor)
  return req

def exitCode : Option Int → String
  | some code => "Some(" ++ toString code ++ ")"
  | none => "None"

def tmuxSession (id : CliSessionId) : String := "atomr-cli-" ++ id

def handleOf (id : CliSessionId) (req : CliRequest) : InteractiveSessionHandle where
  id
  vendor := req.vendor
  tmuxSession := tmuxSession id
  request := req

def openSession (answer : IsolatorAnswer) (id : CliSessionId) (req : CliRequest) :
    Opening → InteractiveCall × CodingCliHarness
  | .materializing =>
    match answer.materialized with
    | .error e => (.started (.error (.mapper e)), harness)
    | .ok () => (.opening .creating id req, harness)
  | .creating =>
    match answer.spawned with
    | .error e => (.started (.error (.isolator e)), harness)
    | .ok () => (.opening .waiting id req, harness)
  | .waiting =>
    match answer.waited with
    | .error e => (.started (.error (.isolator e)), harness)
    | .ok status =>
      if status.success then (.opening .attaching id req, harness)
      else
        (.started (.error (.invalidRequest ("tmux new-session failed with exit code " ++
          exitCode status.code ++ "; check that tmux is installed in the isolator"))), harness)
  | .attaching =>
    match answer.spawned with
    | .error e => (.started (.error (.isolator e)), harness)
    | .ok () =>
      let handle := handleOf id req
      (.started (.ok handle), { harness with sessions := SessionRegistry.insert harness.sessions handle })

-- Neither the answer to the detaching nor that to the waiting is looked at.
def closeSession (answer : IsolatorAnswer) (handle : InteractiveSessionHandle) :
    Closing → InteractiveCall × CodingCliHarness
  | .detaching => (.closing .killing handle, harness)
  | .killing =>
    match answer.spawned with
    | .error e => (.stopped (.error (.isolator e)), harness)
    | .ok () => (.closing .reaping handle, harness)
  | .reaping =>
    (.stopped (.ok ()), { harness with sessions := SessionRegistry.remove harness.sessions handle.id })

end CodingCliHarness

def InteractiveCall.turn (answer : IsolatorAnswer) (call : InteractiveCall) (harness : CodingCliHarness) :
    Option (InteractiveCall × CodingCliHarness) :=
  match call with
  | .called (.start req id) =>
    match harness.beginStart answer req with
    | .error e => some (.started (.error e), harness)
    | .ok req => some (.opening .materializing id req, harness)
  | .called (.stop id) =>
    match SessionRegistry.get harness.sessions id with
    | none => some (.stopped (.error (.sessionNotFound id)), harness)
    | some handle => some (.closing .detaching handle, harness)
  | .opening stage id req => some (harness.openSession answer id req stage)
  | .closing stage handle => some (harness.closeSession answer handle stage)
  | .started _ => none
  | .stopped _ => none

end AtomrAgents.CodingCli
