import AtomrAgents.Core.Slots
import AtomrAgents.Shared.Interleaving
import AtomrAgents.Shared.Table
import Mathlib.Data.String.Basic

set_option autoImplicit false

namespace AtomrAgents

abbrev SandboxId := String

abbrev SnapshotId := String

inductive SandboxError where
  | unsupported (message : String)
  | backend (message : String)
  | timeout
  | notFound (id : SandboxId)
  | budgetViolation (message : String)
  | guest (message : String)
  | io (message : String)
  deriving DecidableEq

namespace SandboxError

def toString : SandboxError → String
  | .unsupported message => "not supported by this backend: " ++ message
  | .backend message => "backend error: " ++ message
  | .timeout => "operation timed out"
  | .notFound id => "sandbox not found: " ++ id
  | .budgetViolation message => "budget violation: " ++ message
  | .guest message => "guest agent error: " ++ message
  | .io message => "io error: " ++ message

end SandboxError

inductive SandboxProfile where
  | pythonOnly
  | npmOnly
  | rustOnly
  | pythonAndNpm
  | fullStack
  deriving DecidableEq

def SandboxProfile.isRust : SandboxProfile → Bool
  | .rustOnly | .fullStack => true
  | _ => false

structure ResourceBudget where
  vcpus : Nat
  memMib : Nat
  diskMib : Nat
  wallClockSecs : Nat
  deriving DecidableEq

namespace ResourceBudget

def rustMinVcpus : Nat := 2

def rustMinMemMib : Nat := 2048

def enforceRustFloor (budget : ResourceBudget) : ResourceBudget :=
  { budget with
    vcpus := max budget.vcpus rustMinVcpus
    memMib := max budget.memMib rustMinMemMib }

def forProfile (profile : SandboxProfile) : ResourceBudget :=
  let base : ResourceBudget := { vcpus := 1, memMib := 512, diskMib := 2048, wallClockSecs := 60 }
  if profile.isRust then base.enforceRustFloor else base

end ResourceBudget

inductive SandboxBackendSel where
  | auto
  | mock
  | docker (image : Option String)
  | firecracker
  | remote (endpoint : String)
  deriving DecidableEq

structure CreateSandbox where
  profile : SandboxProfile
  budget : Option ResourceBudget
  backend : SandboxBackendSel
  fromSnapshot : Option SnapshotId
  deriving DecidableEq

namespace CreateSandbox

def new (profile : SandboxProfile) : CreateSandbox :=
  { profile, budget := none, backend := .auto, fromSnapshot := none }

def effectiveBudget (req : CreateSandbox) : ResourceBudget :=
  let base := req.budget.getD (.forProfile req.profile)
  if req.profile.isRust then base.enforceRustFloor else base

def withBackend (req : CreateSandbox) (backend : SandboxBackendSel) : CreateSandbox :=
  { req with backend }

end CreateSandbox

structure SandboxInfo where
  id : SandboxId
  profile : SandboxProfile
  deriving DecidableEq

end AtomrAgents

/-! It registers the sandboxes that its backend provisions, up to a quota. A call awaits the backend at most
once, so it has two turns: what it does before, and what it does with the answer. -/

namespace AtomrAgents

open Shared

structure SandboxHarnessConfig where
  maxConcurrentSandboxes : Nat
  snapshotPoolCapacity : Nat
  fits : maxConcurrentSandboxes < usizeSize

-- The warm snapshots of each profile, the oldest first.
structure SnapshotPool where
  inner : SandboxProfile → List SnapshotId
  capacityPerProfile : Nat

namespace SnapshotPool

def new (capacityPerProfile : Nat) : SnapshotPool := { inner := fun _ => [], capacityPerProfile }

def offer (pool : SnapshotPool) (profile : SandboxProfile) (snap : SnapshotId) : Bool × SnapshotPool :=
  if pool.capacityPerProfile ≤ (pool.inner profile).length then (false, pool)
  else
    (true, { pool with inner := fun other =>
      if other = profile then pool.inner other ++ [snap] else pool.inner other })

def take (pool : SnapshotPool) (profile : SandboxProfile) : Option SnapshotId × SnapshotPool :=
  ((pool.inner profile).head?, { pool with inner := fun other =>
    if other = profile then (pool.inner other).tail else pool.inner other })

end SnapshotPool

-- `sandboxes`: what the registry knows of each live sandbox.
structure SandboxHarness where
  backendName : String
  config : SandboxHarnessConfig
  sandboxes : Table SandboxInfo.id
  live : Nat
  pool : SnapshotPool

namespace SandboxHarness

def new (backendName : String) (config : SandboxHarnessConfig) : SandboxHarness where
  backendName := backendName
  config := config
  sandboxes := .empty
  live := 0
  pool := .new config.snapshotPoolCapacity

variable (harness : SandboxHarness)

def reserveSlot : Except SandboxError Unit × SandboxHarness :=
  match reserve harness.config.maxConcurrentSandboxes harness.live with
  | (false, live) =>
    (.error (.budgetViolation ("max concurrent sandboxes (" ++
      toString harness.config.maxConcurrentSandboxes ++ ") reached")), { harness with live })
  | (true, live) => (.ok (), { harness with live })

def releaseSlot : SandboxHarness := { harness with live := AtomicUsize.fetchSub harness.live }

def ensureBackendAvailable (sel : SandboxBackendSel) : Except SandboxError Unit :=
  let ok : Bool :=
    match sel with
    | .auto => true
    | .mock => harness.backendName = "mock"
    | .docker _ => harness.backendName = "docker"
    | .firecracker => harness.backendName = "firecracker"
    | .remote _ => harness.backendName = "remote"
  if ok then .ok ()
  else .error (.unsupported "requested sandbox backend is not available on this harness")

def normalize (req : CreateSandbox) : CreateSandbox := { req with budget := some req.effectiveBudget }

def get (id : SandboxId) : Option SandboxInfo := harness.sandboxes.find id

def beginCreate (req : CreateSandbox) : Except SandboxError CreateSandbox × SandboxHarness :=
  match harness.ensureBackendAvailable req.backend with
  | .error e => (.error e, harness)
  | .ok () =>
    match harness.reserveSlot with
    | (.error e, harness) => (.error e, harness)
    | (.ok (), harness) => (.ok (normalize req), harness)

def beginFork (id : SandboxId) : Except SandboxError Unit × SandboxHarness :=
  match harness.get id with
  | none => (.error (.notFound id), harness)
  | some _ => harness.reserveSlot

-- What `create` and `fork` do with the sandbox that was provisioned, or was not.
def register (provisioned : Except SandboxError SandboxInfo) :
    Except SandboxError SandboxInfo × SandboxHarness :=
  match provisioned with
  | .error e => (.error e, harness.releaseSlot)
  | .ok info => (.ok info, { harness with sandboxes := harness.sandboxes.upsert info })

def beginDestroy (id : SandboxId) : Except SandboxError Unit × SandboxHarness :=
  match harness.sandboxes.find id with
  | none => (.error (.notFound id), harness)
  | some _ =>
    (.ok (), { harness with sandboxes := harness.sandboxes.delete id }.releaseSlot)

end SandboxHarness

structure SandboxAnswer where
  provisioned : Except SandboxError SandboxInfo
  tornDown : Except SandboxError Unit

inductive SandboxRequest where
  | create (req : CreateSandbox)
  | fork (id : SandboxId)
  | destroy (id : SandboxId)

inductive SandboxCall where
  | called (request : SandboxRequest)
  | creating (sent : CreateSandbox)
  | forking (parent : SandboxId)
  | tearingDown (id : SandboxId)
  | provisioned (result : Except SandboxError SandboxInfo)
  | destroyed (result : Except SandboxError Unit)

namespace SandboxCall

def turn (answer : SandboxAnswer) (call : SandboxCall) (harness : SandboxHarness) :
    Option (SandboxCall × SandboxHarness) :=
  match call with
  | .called (.create req) =>
    match harness.beginCreate req with
    | (.error e, harness) => some (.provisioned (.error e), harness)
    | (.ok sent, harness) => some (.creating sent, harness)
  | .called (.fork id) =>
    match harness.beginFork id with
    | (.error e, harness) => some (.provisioned (.error e), harness)
    | (.ok (), harness) => some (.forking id, harness)
  | .called (.destroy id) =>
    match harness.beginDestroy id with
    | (.error e, harness) => some (.destroyed (.error e), harness)
    | (.ok (), harness) => some (.tearingDown id, harness)
  | .creating _ | .forking _ =>
    match harness.register answer.provisioned with
    | (result, harness) => some (.provisioned result, harness)
  | .tearingDown _ => some (.destroyed answer.tornDown, harness)
  | .provisioned _ | .destroyed _ => none

end SandboxCall

end AtomrAgents
