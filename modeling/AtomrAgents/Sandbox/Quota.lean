import AtomrAgents.Sandbox.Harness
import AtomrAgents.Shared.Operations

set_option autoImplicit false

/-! A call that awaits its sandbox holds a slot, and so does each sandbox in the registry. However the calls
interleave, the counter is the sum of the two. -/

namespace AtomrAgents

open Shared

namespace SandboxHarness

variable (harness : SandboxHarness)

-- What a call may do to the harness, given whether it held a slot before and whether it does now.
inductive Moved : Bool → Bool → SandboxHarness → Prop where
  | left : Moved false false harness
  | reserved (free : harness.live < harness.config.maxConcurrentSandboxes) :
      Moved false true { harness with live := harness.live + 1 }
  | registered (info : SandboxInfo) (absent : harness.get info.id = none) :
      Moved true false { harness with sandboxes := harness.sandboxes.upsert info }
  | failed : Moved true false harness.releaseSlot
  | removed (info : SandboxInfo) (found : harness.sandboxes.find info.id = some info) :
      Moved false false
        { harness with sandboxes := harness.sandboxes.delete info.id }.releaseSlot

variable {harness} in
theorem Moved.config_eq {held holds : Bool} {harness' : SandboxHarness}
    (moved : harness.Moved held holds harness') : harness'.config = harness.config := by
  cases moved <;> rfl

variable {harness} in
theorem Moved.accounted {held holds : Bool} {harness' : SandboxHarness} {inFlight inFlight' : Nat}
    (moved : harness.Moved held holds harness')
    (counted : inFlight' + held.toNat = inFlight + holds.toNat)
    (accounted : Accounted harness.config.maxConcurrentSandboxes harness.live
      harness.sandboxes.rows.length inFlight) :
    Accounted harness.config.maxConcurrentSandboxes harness'.live harness'.sandboxes.rows.length
      inFlight' := by
  cases moved with
  | left =>
    obtain rfl : inFlight' = inFlight := counted
    exact accounted
  | reserved free =>
    obtain rfl : inFlight' = inFlight + 1 := counted
    exact accounted.reserved free
  | registered info absent =>
    have more := congrArg List.length (Table.rows_upsert_of_absent absent)
    rw [List.length_append, List.length_singleton] at more
    refine accounted.settled ?_
    rw [more]
    simp only [Bool.toNat_true, Bool.toNat_false] at counted
    omega
  | failed =>
    refine accounted.released ?_
    simp only [Bool.toNat_true, Bool.toNat_false] at counted
    simp only [releaseSlot]
    omega
  | removed info found =>
    have fewer := Table.length_delete found
    refine accounted.released ?_
    simp only [Bool.toNat_false, Nat.add_zero] at counted
    simp only [releaseSlot]
    omega

theorem reserveSlot_cases :
    (∃ e, harness.reserveSlot = (.error e, harness)) ∨
      harness.live < harness.config.maxConcurrentSandboxes ∧
        harness.reserveSlot = (.ok (), { harness with live := harness.live + 1 }) := by
  rcases Nat.lt_or_ge harness.live harness.config.maxConcurrentSandboxes with free | full
  · right
    exact ⟨free, by rw [reserveSlot, reserve_free harness.config.fits free]⟩
  · left
    rw [reserveSlot, reserve_full full]
    exact ⟨_, rfl⟩

theorem beginCreate_cases (req : CreateSandbox) :
    (∃ e, harness.beginCreate req = (.error e, harness)) ∨
      harness.live < harness.config.maxConcurrentSandboxes ∧
        harness.beginCreate req = (.ok (normalize req), { harness with live := harness.live + 1 }) := by
  rw [beginCreate]
  cases harness.ensureBackendAvailable req.backend with
  | error e => exact .inl ⟨e, rfl⟩
  | ok _ =>
    rcases harness.reserveSlot_cases with ⟨e, full⟩ | ⟨free, reserved⟩
    · rw [full]
      exact .inl ⟨e, rfl⟩
    · rw [reserved]
      exact .inr ⟨free, rfl⟩

theorem beginFork_cases (id : SandboxId) :
    (∃ e, harness.beginFork id = (.error e, harness)) ∨
      harness.live < harness.config.maxConcurrentSandboxes ∧
        harness.beginFork id = (.ok (), { harness with live := harness.live + 1 }) := by
  rw [beginFork]
  cases harness.get id with
  | none => exact .inl ⟨_, rfl⟩
  | some _ => exact harness.reserveSlot_cases

theorem register_moved {provisioned : Except SandboxError SandboxInfo}
    (fresh : ∀ info, provisioned = .ok info → harness.get info.id = none) :
    harness.Moved true false (harness.register provisioned).2 := by
  cases provisioned with
  | error e => exact .failed
  | ok info => exact .registered info (fresh info rfl)

end SandboxHarness

namespace SandboxCall

variable {answer : SandboxAnswer} {call call' : SandboxCall} {harness harness' : SandboxHarness}

def inFlight : SandboxCall → Bool
  | .creating _ | .forking _ => true
  | _ => false

theorem turn_moved
    (fresh : call.inFlight = true → ∀ info, answer.provisioned = .ok info →
      harness.get info.id = none)
    (turned : call.turn answer harness = some (call', harness')) :
    harness.Moved call.inFlight call'.inFlight harness' := by
  unfold turn at turned
  split at turned
  · next req =>
    rcases harness.beginCreate_cases req with ⟨e, refused⟩ | ⟨free, begun⟩
    · rw [refused] at turned
      cases turned
      exact .left
    · rw [begun] at turned
      cases turned
      exact .reserved free
  · next id =>
    rcases harness.beginFork_cases id with ⟨e, refused⟩ | ⟨free, begun⟩
    · rw [refused] at turned
      cases turned
      exact .left
    · rw [begun] at turned
      cases turned
      exact .reserved free
  · next id =>
    rw [SandboxHarness.beginDestroy] at turned
    cases found : harness.sandboxes.find id with
    | none =>
      rw [found] at turned
      cases turned
      exact .left
    | some info =>
      rw [found] at turned
      cases turned
      obtain ⟨-, rfl⟩ := Table.find_eq_some_iff.mp found
      exact .removed info found
  · cases turned
    exact harness.register_moved (fresh rfl)
  · cases turned
    exact harness.register_moved (fresh rfl)
  · cases turned
    exact .left
  · cases turned
  · cases turned

def FreshId (threads : Threads SandboxHarness SandboxCall) (event : Nat × SandboxAnswer) : Prop :=
  ∀ call, threads.locals[event.1]? = some call → call.inFlight = true →
    ∀ info, event.2.provisioned = .ok info → threads.shared.get info.id = none

end SandboxCall

namespace SandboxHarness

def start (backendName : String) (config : SandboxHarnessConfig) (requests : List SandboxRequest) :
    Threads SandboxHarness SandboxCall :=
  { shared := .new backendName config, locals := requests.map .called }

structure WithinQuota (config : SandboxHarnessConfig) (threads : Threads SandboxHarness SandboxCall) :
    Prop where
  capped : threads.shared.sandboxes.rows.length ≤ config.maxConcurrentSandboxes
  counted : threads.shared.live =
    threads.shared.sandboxes.rows.length + threads.locals.countP SandboxCall.inFlight

structure QuotaInvariant (config : SandboxHarnessConfig)
    (threads : Threads SandboxHarness SandboxCall) : Prop where
  same : threads.shared.config = config
  accounted : Accounted config.maxConcurrentSandboxes threads.shared.live
    threads.shared.sandboxes.rows.length (threads.locals.countP SandboxCall.inFlight)

variable {config : SandboxHarnessConfig} {threads : Threads SandboxHarness SandboxCall}

theorem quotaInvariant_start (backendName : String) (config : SandboxHarnessConfig)
    (requests : List SandboxRequest) : QuotaInvariant config (start backendName config requests) where
  same := rfl
  accounted := by
    have none : (requests.map SandboxCall.called).countP SandboxCall.inFlight = 0 := by
      simp [List.countP_eq_zero, SandboxCall.inFlight]
    refine ⟨?_, Nat.zero_le _⟩
    rw [start, none]
    rfl

theorem QuotaInvariant.heard (invariant : QuotaInvariant config threads) (event : Nat × SandboxAnswer)
    (fresh : SandboxCall.FreshId threads event) :
    QuotaInvariant config (Threads.heard SandboxCall.turn threads event).2 := by
  obtain ⟨i, answer⟩ := event
  rcases Threads.heard_cases threads i answer with ⟨-, idle⟩ | ⟨own, own', turned⟩
  · rw [idle]
    exact invariant
  · obtain ⟨rfl, accounted⟩ := invariant
    have moved := SandboxCall.turn_moved (fresh own turned.before) turned.takes
    refine ⟨moved.config_eq, moved.accounted ?_ accounted⟩
    have counted := turned.countP_locals SandboxCall.inFlight
    cases held : own.inFlight <;> cases holds : own'.inFlight <;>
      simpa [held, holds] using counted

theorem QuotaInvariant.withinQuota (invariant : QuotaInvariant config threads) :
    WithinQuota config threads where
  capped := by
    obtain ⟨counted, capped⟩ := invariant.accounted
    omega
  counted := invariant.accounted.counted

/-- However the calls interleave and whatever the backend answers, every state reached is within the
quota. -/
theorem quota_held (backendName : String) (config : SandboxHarnessConfig)
    (requests : List SandboxRequest) (schedule : List (Nat × SandboxAnswer))
    (fresh : Operations.Along (Threads.heard SandboxCall.turn) SandboxCall.FreshId
      (start backendName config requests) schedule) :
    WithinQuota config
      (Operations.final (Threads.heard SandboxCall.turn) (start backendName config requests) schedule) :=
  (Operations.final_invariant SandboxCall.FreshId (QuotaInvariant config)
    (fun _ event invariant fresh => invariant.heard event fresh) _ schedule
    (quotaInvariant_start backendName config requests) fresh).withinQuota

section Example

def small : SandboxHarnessConfig :=
  { maxConcurrentSandboxes := 1, snapshotPoolCapacity := 4, fits := by decide }

def booted : SandboxAnswer :=
  { provisioned := .ok { id := "sbx-1", profile := .pythonOnly }, tornDown := .error .timeout }

-- A second `create` comes while the first one is in flight, and the sandbox is destroyed twice.
theorem quota_held_small :
    WithinQuota small
      (Operations.final (Threads.heard SandboxCall.turn)
        (start "mock" small [.create (.new .pythonOnly), .create (.new .rustOnly), .destroy "sbx-1",
          .destroy "sbx-1"])
        [(0, booted), (1, booted), (0, booted), (2, booted), (3, booted), (2, booted)]) := by
  apply quota_held
  refine ⟨?_, ?_, ?_, ?_, ?_, ?_, trivial⟩ <;> rintro call ⟨⟩ inFlight info ⟨⟩ <;>
    first | rfl | cases inFlight

end Example

end SandboxHarness

end AtomrAgents
