import AtomrAgents.Core.Slots
import AtomrAgents.Sandbox.Harness

set_option autoImplicit false

namespace AtomrAgents

abbrev AgentSessionId := String

inductive AgentSdkError where
  | unavailable (message : String)
  | invalidConfig (message : String)
  | sessionNotFound (id : String)
  | sessionQuota (cap : Nat)
  | budgetExhausted (scope : String)
  | policyDenied (message : String)
  | sdk (message : String)
  | streamClosed
  | cancelled
  | serde (message : String)
  deriving DecidableEq

inductive HarnessError where
  | invalidRequest (message : String)
  | invalidWorkdir (path : String)
  | sessionNotFound (id : String)
  | sessionQuota (cap : Nat)
  | budget (scope : String)
  | policyDenied (message : String)
  | streamClosed
  | sdk (e : AgentSdkError)
  | io (message : String)
  | serde (message : String)
  | sandboxUnconfigured
  | sandbox (message : String)
  deriving DecidableEq

inductive Effort where
  | low
  | medium
  | high
  | xhigh
  | max
  deriving DecidableEq

inductive SettingSource where
  | user
  | project
  | local_
  deriving DecidableEq

structure AgentSdkConfig where
  allowedTools : List String
  disallowedTools : List String
  cwd : Option String
  settingSources : List SettingSource
  model : Option String
  fallbackModel : Option String
  maxTurns : Option Nat
  effort : Option Effort
  sandboxWorkspaceId : Option String
  deriving DecidableEq

def AgentSdkConfig.default : AgentSdkConfig where
  allowedTools := []
  disallowedTools := []
  cwd := none
  settingSources := []
  model := none
  fallbackModel := none
  maxTurns := none
  effort := none
  sandboxWorkspaceId := none

structure QueryRequest where
  prompt : String
  config : AgentSdkConfig
  deriving DecidableEq

structure SessionSpec where
  config : AgentSdkConfig
  initialPrompt : Option String
  deriving DecidableEq

structure ResultSummary where
  subtype : String
  result : Option String
  isError : Bool
  deriving DecidableEq

inductive WorkspaceDisposition where
  | discard
  | snapshot
  deriving DecidableEq

structure SandboxWorkspaceConfig where
  enabled : Bool
  profile : SandboxProfile
  backend : Option SandboxBackendSel
  onClose : WorkspaceDisposition
  reuseWarm : Bool
  deriving DecidableEq

structure SessionWorkspace where
  sandboxId : SandboxId
  profile : SandboxProfile
  onClose : WorkspaceDisposition
  deriving DecidableEq

structure AgentSdkHarnessSpec where
  defaultModel : Option String
  fallbackModel : Option String
  defaultSettingSources : List SettingSource
  defaultEffort : Option Effort
  maxConcurrentSessions : Nat
  defaultMaxTurns : Option Nat
  workspace : SandboxWorkspaceConfig
  fits : maxConcurrentSessions < usizeSize

namespace AgentSdkHarnessSpec

-- `apply_defaults`
def applyDefaults (spec : AgentSdkHarnessSpec) (config : AgentSdkConfig) : AgentSdkConfig :=
  { config with
    model := config.model <|> spec.defaultModel
    fallbackModel := config.fallbackModel <|> spec.fallbackModel
    maxTurns := config.maxTurns <|> spec.defaultMaxTurns
    effort := config.effort <|> spec.defaultEffort
    settingSources :=
      if config.settingSources.isEmpty then spec.defaultSettingSources else config.settingSources }

end AgentSdkHarnessSpec

namespace AgentSdkConfig

def pushNew (tools : List String) (tool : String) : List String :=
  if tool ∈ tools then tools else tools ++ [tool]

-- `apply_containment`
def contain (config : AgentSdkConfig) (sandboxId : SandboxId) : AgentSdkConfig :=
  { config with
    sandboxWorkspaceId := some sandboxId
    disallowedTools := ["Bash", "Write", "Edit"].foldl pushNew config.disallowedTools
    allowedTools := pushNew config.allowedTools "mcp__atomr__run_in_sandbox" }

end AgentSdkConfig

end AtomrAgents

namespace AtomrAgents

open Shared

-- `projection`: what `render_projection` makes of the projection, path by path.
-- `sessions`: the ids of the registered sessions, as the `Vec` of the registry has them.
structure AgentSdkHarness where
  spec : AgentSdkHarnessSpec
  projection : List (String × List UInt8)
  sessions : List AgentSessionId
  live : Nat
  sandbox : Option SandboxHarness
  workspaces : AgentSessionId → Option SessionWorkspace

structure AgentSdkAnswer where
  isDir : Bool
  materialized : Except String Unit
  sandbox : SandboxAnswer
  written : Except SandboxError Unit
  snapshot : Except SandboxError SnapshotId
  connected : Except AgentSdkError AgentSessionId
  sent : Except AgentSdkError Unit
  closed : Except AgentSdkError Unit
  outcome : Except HarnessError ResultSummary

inductive Opening where
  | session (spec : SessionSpec)
  | query (req : QueryRequest)

namespace Opening

def config : Opening → AgentSdkConfig
  | .session spec => spec.config
  | .query req => req.config

def withConfig (config : AgentSdkConfig) : Opening → Opening
  | .session spec => .session { spec with config }
  | .query req => .query { req with config }

end Opening

inductive Preparation where
  | creating (sent : CreateSandbox)
  | staging (info : SandboxInfo) (file : String × List UInt8) (rest : List (String × List UInt8))

inductive Release where
  | snapshotting (ws : SessionWorkspace)
  | tearingDown (ws : SessionWorkspace)

inductive AgentSdkRequest where
  | open_ (opening : Opening)
  | stop (id : AgentSessionId)

inductive AgentSdkCall where
  | called (request : AgentSdkRequest)
  | preparing (opening : Opening) (preparation : Preparation)
  | connecting (spec : SessionSpec) (workspace : Option SessionWorkspace)
  | unwinding (e : AgentSdkError) (release : Release)
  | sending (id : AgentSessionId) (prompt : String)
  | querying (req : QueryRequest) (workspace : Option SessionWorkspace)
  | cleaning (outcome : Except HarnessError ResultSummary) (release : Release)
  | closing (id : AgentSessionId)
  | discarding (release : Release)
  | started (result : Except HarnessError AgentSessionId)
  | ran (result : Except HarnessError ResultSummary)
  | stopped (result : Except HarnessError Unit)

namespace AgentSdkHarness

variable (harness : AgentSdkHarness)

def validateCwd (answer : AgentSdkAnswer) (config : AgentSdkConfig) : Except HarnessError Unit :=
  match config.cwd with
  | some cwd => if answer.isDir then .ok () else .error (.invalidWorkdir cwd)
  | none => .ok ()

def materialize (answer : AgentSdkAnswer) (config : AgentSdkConfig) : Except HarnessError Unit :=
  match config.cwd with
  | some _ => answer.materialized.mapError .io
  | none => .ok ()

def reserveSlot : Except HarnessError Unit × AgentSdkHarness :=
  match reserve harness.spec.maxConcurrentSessions harness.live with
  | (false, live) => (.error (.sessionQuota harness.spec.maxConcurrentSessions), { harness with live })
  | (true, live) => (.ok (), { harness with live })

def releaseSlot : AgentSdkHarness := { harness with live := AtomicUsize.fetchSub harness.live }

def workspaceRequest (cfg : SandboxWorkspaceConfig) (sandbox : SandboxHarness) :
    CreateSandbox × SandboxHarness :=
  let req := (CreateSandbox.new cfg.profile).withBackend (cfg.backend.getD .auto)
  if cfg.reuseWarm then
    let (fromSnapshot, pool) := sandbox.pool.take cfg.profile
    ({ req with fromSnapshot }, { sandbox with pool })
  else (req, sandbox)

-- `acquire_workspace` up to the sandbox backend, which gets the request; without a request the
-- workspace is disabled.
def beginWorkspace : Except HarnessError (Option CreateSandbox) × AgentSdkHarness :=
  if harness.spec.workspace.enabled then
    match harness.sandbox with
    | none => (.error .sandboxUnconfigured, harness)
    | some sandbox =>
      match workspaceRequest harness.spec.workspace sandbox with
      | (req, sandbox) =>
        match sandbox.beginCreate req with
        | (.error e, sandbox) =>
          (.error (.sandbox e.toString), { harness with sandbox := some sandbox })
        | (.ok sent, sandbox) => (.ok (some sent), { harness with sandbox := some sandbox })
  else (.ok none, harness)

def finishWorkspace (answer : AgentSdkAnswer) : Except HarnessError SandboxInfo × AgentSdkHarness :=
  match harness.sandbox with
  | none => (.error .sandboxUnconfigured, harness)
  | some sandbox =>
    match sandbox.register answer.sandbox.provisioned with
    | (.error e, sandbox) => (.error (.sandbox e.toString), { harness with sandbox := some sandbox })
    | (.ok info, sandbox) =>
      match sandbox.get info.id with
      | none =>
        (.error (.sandbox "workspace sandbox vanished after create"),
          { harness with sandbox := some sandbox })
      | some _ => (.ok info, { harness with sandbox := some sandbox })

def workspaceOf (info : SandboxInfo) : SessionWorkspace where
  sandboxId := info.id
  profile := info.profile
  onClose := harness.spec.workspace.onClose

-- `sandbox.destroy(..)` up to the handle. `none`: there is nothing to wait for.
def beginTearDown (ws : SessionWorkspace) : Option Release × AgentSdkHarness :=
  match harness.sandbox with
  | none => (none, harness)
  | some sandbox =>
    match sandbox.beginDestroy ws.sandboxId with
    | (.error _, sandbox) => (none, { harness with sandbox := some sandbox })
    | (.ok (), sandbox) => (some (.tearingDown ws), { harness with sandbox := some sandbox })

-- `release_workspace` up to its first await.
def beginRelease (ws : SessionWorkspace) : Option Release × AgentSdkHarness :=
  match harness.sandbox with
  | none => (none, harness)
  | some sandbox =>
    match ws.onClose, sandbox.get ws.sandboxId with
    | .snapshot, some _ => (some (.snapshotting ws), harness)
    | _, _ => harness.beginTearDown ws

def offerWarm (ws : SessionWorkspace) (answer : AgentSdkAnswer) : AgentSdkHarness :=
  match harness.sandbox, answer.snapshot with
  | some sandbox, .ok snap =>
    { harness with sandbox := some { sandbox with pool := (sandbox.pool.offer ws.profile snap).2 } }
  | _, _ => harness

def unregister (id : AgentSessionId) : AgentSdkHarness :=
  { harness with
    sessions := harness.sessions.filter fun other => other ≠ id
    workspaces := Function.update harness.workspaces id none }

end AgentSdkHarness

def Release.turn (answer : AgentSdkAnswer) (harness : AgentSdkHarness) :
    Release → Option Release × AgentSdkHarness
  | .snapshotting ws => (harness.offerWarm ws answer).beginTearDown ws
  | .tearingDown _ => (none, harness)

namespace AgentSdkCall

def refused (opening : Opening) (e : HarnessError) : AgentSdkCall :=
  match opening with
  | .session _ => .started (.error e)
  | .query _ => .ran (.error e)

-- `start_session` gives its slot back, and `run` has none.
def fail (opening : Opening) (e : HarnessError) (harness : AgentSdkHarness) :
    AgentSdkCall × AgentSdkHarness :=
  match opening with
  | .session _ => (refused opening e, harness.releaseSlot)
  | .query _ => (refused opening e, harness)

def prepared (opening : Opening) (workspace : Option SessionWorkspace) : AgentSdkCall :=
  match opening with
  | .session spec => .connecting spec workspace
  | .query req => .querying req workspace

def staged (opening : Opening) (info : SandboxInfo) (files : List (String × List UInt8))
    (harness : AgentSdkHarness) : AgentSdkCall :=
  match files with
  | [] =>
    prepared (opening.withConfig (opening.config.contain info.id)) (some (harness.workspaceOf info))
  | file :: rest => .preparing opening (.staging info file rest)

def prepare (answer : AgentSdkAnswer) (opening : Opening) (harness : AgentSdkHarness) :
    AgentSdkCall × AgentSdkHarness :=
  match harness.beginWorkspace with
  | (.error e, harness) => fail opening e harness
  | (.ok (some sent), harness) => (.preparing opening (.creating sent), harness)
  | (.ok none, harness) =>
    match AgentSdkHarness.materialize answer opening.config with
    | .error e => fail opening e harness
    | .ok () => (prepared opening none, harness)

def begin (answer : AgentSdkAnswer) (opening : Opening) (harness : AgentSdkHarness) :
    AgentSdkCall × AgentSdkHarness :=
  match AgentSdkHarness.validateCwd answer opening.config with
  | .error e => (refused opening e, harness)
  | .ok () =>
    let opening := opening.withConfig (harness.spec.applyDefaults opening.config)
    match opening with
    | .query _ => prepare answer opening harness
    | .session _ =>
      match harness.reserveSlot with
      | (.error e, harness) => (refused opening e, harness)
      | (.ok (), harness) => prepare answer opening harness

def connect (spec : SessionSpec) (workspace : Option SessionWorkspace) (id : AgentSessionId)
    (harness : AgentSdkHarness) : AgentSdkCall × AgentSdkHarness :=
  let workspaces :=
    match workspace with
    | some ws => Function.update harness.workspaces id (some ws)
    | none => harness.workspaces
  let harness := { harness with workspaces, sessions := harness.sessions ++ [id] }
  match spec.initialPrompt with
  | some prompt => (.sending id prompt, harness)
  | none => (.started (.ok id), harness)

def releasing (waiting : Release → AgentSdkCall)
    (after : AgentSdkHarness → AgentSdkCall × AgentSdkHarness) :
    Option Release × AgentSdkHarness → AgentSdkCall × AgentSdkHarness
  | (some release, harness) => (waiting release, harness)
  | (none, harness) => after harness

def begunRelease (workspace : Option SessionWorkspace) (harness : AgentSdkHarness) :
    Option Release × AgentSdkHarness :=
  match workspace with
  | some ws => harness.beginRelease ws
  | none => (none, harness)

def unconnected (e : AgentSdkError) (harness : AgentSdkHarness) : AgentSdkCall × AgentSdkHarness :=
  (.started (.error (.sdk e)), harness.releaseSlot)

def halted (harness : AgentSdkHarness) : AgentSdkCall × AgentSdkHarness :=
  (.stopped (.ok ()), harness.releaseSlot)

def remove (id : AgentSessionId) (harness : AgentSdkHarness) : AgentSdkCall × AgentSdkHarness :=
  releasing .discarding halted (begunRelease (harness.workspaces id) (harness.unregister id))

def turn (answer : AgentSdkAnswer) (call : AgentSdkCall) (harness : AgentSdkHarness) :
    Option (AgentSdkCall × AgentSdkHarness) :=
  match call with
  | .called (.open_ opening) => some (begin answer opening harness)
  | .called (.stop id) =>
    if id ∈ harness.sessions then some (.closing id, harness)
    else some (.stopped (.error (.sessionNotFound id)), harness)
  | .preparing opening (.creating _) =>
    match harness.finishWorkspace answer with
    | (.error e, harness) => some (fail opening e harness)
    | (.ok info, harness) => some (staged opening info harness.projection harness, harness)
  | .preparing opening (.staging info _ rest) =>
    match answer.written with
    | .error e => some (fail opening (.sandbox e.toString) harness)
    | .ok () => some (staged opening info rest harness, harness)
  | .connecting spec workspace =>
    match answer.connected with
    | .error e => some (releasing (.unwinding e) (unconnected e) (begunRelease workspace harness))
    | .ok id => some (connect spec workspace id harness)
  | .unwinding e release => some (releasing (.unwinding e) (unconnected e) (release.turn answer harness))
  | .sending id _ =>
    match answer.sent with
    | .error e => some (.started (.error (.sdk e)), harness)
    | .ok () => some (.started (.ok id), harness)
  | .querying _ workspace =>
    let discarded := workspace.map fun ws => { ws with onClose := .discard }
    some (releasing (.cleaning answer.outcome) (fun harness => (.ran answer.outcome, harness))
      (begunRelease discarded harness))
  | .cleaning outcome release =>
    some (releasing (.cleaning outcome) (fun harness => (.ran outcome, harness))
      (release.turn answer harness))
  | .closing id => some (remove id harness)
  | .discarding release => some (releasing .discarding halted (release.turn answer harness))
  | .started _ | .ran _ | .stopped _ => none

end AgentSdkCall

end AtomrAgents
