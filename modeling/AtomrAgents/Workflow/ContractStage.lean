import AtomrAgents.Workflow.DataContract
import AtomrAgents.Workflow.InterruptRegistry

set_option autoImplicit false

namespace AtomrAgents

structure InterruptSpec where
  workflow : String
  run : String
  step : Nat
  requestedRole : Option String
  requestedClearance : Option String
  deadlineMs : Option Int

-- A sink and a registry are what they answer: the stage passes their errors on.
inductive OnBreach where
  | drop
  | routeTo (sink : Value → ContractViolation → Except AgentError Unit)
  | interrupt (spec : InterruptSpec)

inductive StageOutcome where
  | pass (record : Value)
  | dropped
  | routed
  | interrupted (interruptId : String)

structure InterruptIdGen where
  counter : Nat

-- `uuid` is the v4 UUID that is drawn.
def InterruptIdGen.nextId (gen : InterruptIdGen) (uuid : String) : String × InterruptIdGen :=
  let digits := toString gen.counter
  ("".pushn '0' (21 - digits.length) ++ digits ++ "-" ++ uuid, { counter := (gen.counter + 1) % 2 ^ 64 })

structure ContractValidateStage where
  contract : DataContract
  onBreach : OnBreach
  registry : Option (PendingInterrupt → Except AgentError Unit)
  idGen : InterruptIdGen

inductive StageCall where
  | route (record : Value) (violation : ContractViolation)
  | register (pending : PendingInterrupt)

structure StageRun where
  result : Except AgentError StageOutcome
  calls : List StageCall
  idGen : InterruptIdGen

def ContractViolation.toValue (violation : ContractViolation) : Value :=
  .object [("detail", .string violation.detail), ("kind", .string violation.kind.name)]

namespace ContractValidateStage

variable (checks : Bool) (stage : ContractValidateStage) (uuid : String) (record : Value) (nowMs : Int64)
  (prevTs : Option Int64)

def pendingInterrupt (spec : InterruptSpec) (violation : ContractViolation) : PendingInterrupt :=
  { interruptId := (stage.idGen.nextId uuid).1
    workflow := spec.workflow
    run := spec.run
    step := spec.step
    requestedRole := spec.requestedRole
    requestedClearance := spec.requestedClearance
    payload := .object [("record", record), ("violation", violation.toValue)]
    createdAtMs := nowMs.toInt
    deadlineMs := spec.deadlineMs
    assignee := none
    status := .pending }

def breached (violation : ContractViolation) : StageRun :=
  match stage.onBreach with
  | .drop => { result := .ok .dropped, calls := [], idGen := stage.idGen }
  | .routeTo sink =>
    { result := (sink record violation).map fun _ => .routed
      calls := [.route record violation]
      idGen := stage.idGen }
  | .interrupt spec =>
    match stage.registry with
    | none =>
      { result := .error (.workflow "ContractValidateStage: Interrupt policy needs an InterruptRegistry")
        calls := []
        idGen := stage.idGen }
    | some register =>
      let pending := stage.pendingInterrupt uuid record nowMs spec violation
      { result := (register pending).map fun _ => .interrupted pending.interruptId
        calls := [.register pending]
        idGen := (stage.idGen.nextId uuid).2 }

def run : Option StageRun :=
  match stage.contract.validate checks record nowMs prevTs with
  | .valid => some { result := .ok (.pass record), calls := [], idGen := stage.idGen }
  | .breach violation => some (stage.breached uuid record nowMs violation)
  | .panicked => none

inductive Handled : StageRun → Prop where
  | dropped (gen : InterruptIdGen) (policy : stage.onBreach = .drop) :
      Handled { result := .ok .dropped, calls := [], idGen := gen }
  | routed {sink : Value → ContractViolation → Except AgentError Unit} (gen : InterruptIdGen)
      (violation : ContractViolation) (policy : stage.onBreach = .routeTo sink) :
      Handled
        { result := (sink record violation).map fun _ => .routed
          calls := [.route record violation]
          idGen := gen }
  | parked {spec : InterruptSpec} {register : PendingInterrupt → Except AgentError Unit} (gen : InterruptIdGen)
      (pending : PendingInterrupt) (policy : stage.onBreach = .interrupt spec)
      (registry : stage.registry = some register) (minted : pending.interruptId = (stage.idGen.nextId uuid).1)
      (status : pending.status = .pending) (carried : pending.payload.get "record" = some record) :
      Handled
        { result := (register pending).map fun _ => .interrupted pending.interruptId
          calls := [.register pending]
          idGen := gen }

-- The run is the same with and without overflow checks, so that no subtraction overflows.
def Exact : Prop :=
  ∃ ran : StageRun, (∀ checks, stage.run checks uuid record nowMs prevTs = some ran) ∧
    (ran.result = .ok (.pass record) ↔ stage.contract.Conforms record nowMs prevTs) ∧
      (∀ passed, ran.result = .ok (.pass passed) → passed = record ∧ ran.calls = []) ∧
        (¬ stage.contract.Conforms record nowMs prevTs → stage.Handled uuid record ran)

def Registers : Prop :=
  ∀ spec, stage.onBreach = .interrupt spec → stage.registry.isSome ∨ stage.contract.Conforms record nowMs prevTs

variable {checks stage uuid record nowMs prevTs} {violation : ContractViolation}

theorem breached_ne_pass (passed : Value) :
    (stage.breached uuid record nowMs violation).result ≠ .ok (.pass passed) := by
  cases policy : stage.onBreach with
  | drop => simp [breached, policy]
  | routeTo sink => cases answer : sink record violation <;> simp [breached, policy, answer, Except.map]
  | interrupt spec =>
    cases registry : stage.registry with
    | none => simp [breached, policy, registry]
    | some register =>
      cases answer : register (stage.pendingInterrupt uuid record nowMs spec violation) <;>
        simp [breached, policy, registry, answer, Except.map]

theorem Handled.registered {ran : StageRun} {spec : InterruptSpec} (handled : stage.Handled uuid record ran)
    (policy : stage.onBreach = .interrupt spec) : stage.registry.isSome := by
  cases handled with
  | dropped _ other => simp [policy] at other
  | routed _ _ other => simp [policy] at other
  | parked _ _ _ registry => simp [registry]

theorem breached_handled (registers : ∀ spec, stage.onBreach = .interrupt spec → stage.registry.isSome) :
    stage.Handled uuid record (stage.breached uuid record nowMs violation) := by
  cases policy : stage.onBreach with
  | drop =>
    simp only [breached, policy]
    exact .dropped _ policy
  | routeTo sink =>
    simp only [breached, policy]
    exact .routed _ violation policy
  | interrupt spec =>
    cases registry : stage.registry with
    | none => simpa [registry] using registers spec policy
    | some register =>
      simp only [breached, policy, registry]
      exact .parked _ _ policy registry rfl rfl rfl

theorem run_conforming (fit : stage.contract.TimesFit record nowMs prevTs)
    (conforms : stage.contract.Conforms record nowMs prevTs) :
    stage.run checks uuid record nowMs prevTs =
      some { result := .ok (.pass record), calls := [], idGen := stage.idGen } := by
  simp [run, (DataContract.validate_eq_valid fit).mpr conforms]

theorem run_breaching (fit : stage.contract.TimesFit record nowMs prevTs)
    (nonconforming : ¬ stage.contract.Conforms record nowMs prevTs) :
    ∃ violation, ∀ checks,
      stage.run checks uuid record nowMs prevTs = some (stage.breached uuid record nowMs violation) := by
  have same := fun checks : Bool => @DataContract.validate_of_fits checks _ _ _ _ fit
  cases verdict : stage.contract.validate false record nowMs prevTs with
  | valid => exact absurd ((DataContract.validate_eq_valid fit).mp verdict) nonconforming
  | breach violation => exact ⟨violation, fun checks => by simp [run, same checks, verdict]⟩
  | panicked => exact absurd ((same true).trans verdict) (by simp [DataContract.validate_panicked, fit])

theorem exact_iff (stage : ContractValidateStage) (uuid : String) (record : Value) (nowMs : Int64)
    (prevTs : Option Int64) :
    stage.Exact uuid record nowMs prevTs ↔
      stage.contract.TimesFit record nowMs prevTs ∧ stage.Registers record nowMs prevTs := by
  constructor
  · intro ⟨ran, returned, _, _, handled⟩
    have fit : stage.contract.TimesFit record nowMs prevTs := by
      by_contra unfit
      have silent := returned true
      simp [run, DataContract.validate_panicked.mpr unfit] at silent
    refine ⟨fit, fun spec policy => ?_⟩
    by_cases conforms : stage.contract.Conforms record nowMs prevTs
    · exact .inr conforms
    · exact .inl ((handled conforms).registered policy)
  · intro ⟨fit, registers⟩
    by_cases conforms : stage.contract.Conforms record nowMs prevTs
    · refine ⟨_, fun checks => run_conforming fit conforms, by simp [conforms], ?_,
        fun breach => absurd conforms breach⟩
      simp [eq_comm]
    · obtain ⟨violation, breaching⟩ := @run_breaching stage uuid _ _ _ fit conforms
      refine ⟨_, breaching, by simp [breached_ne_pass, conforms], fun passed pass => ?_, fun _ => ?_⟩
      · exact absurd pass (breached_ne_pass passed)
      · apply breached_handled
        intro spec policy
        exact (registers spec policy).resolve_right conforms

-- A record stamped with the earliest `i64`, whose lag wraps around to a negative number.
def ancient : Value := .object [("ts_ms", .number (.negInt Int64.minValue))]

def feedGate : ContractValidateStage :=
  { contract := { schema := { required := [] }, freshness := some { ms := 60000 }, continuity := none, custom := [] }
    onBreach := .drop
    registry := none
    idGen := { counter := 0 } }

theorem ancient_fresh :
    ¬ (∀ (stage : ContractValidateStage) uuid record nowMs prevTs, stage.Exact uuid record nowMs prevTs) ∧
      feedGate.run true "u" ancient 300000000 none = none ∧
        (feedGate.run false "u" ancient 300000000 none).map StageRun.result = some (.ok (.pass ancient)) ∧
          ¬ feedGate.contract.Conforms ancient 300000000 none := by
  have panics : feedGate.run true "u" ancient 300000000 none = none := by rfl
  refine ⟨fun exact => ?_, panics, by rfl, fun conforms => ?_⟩
  · obtain ⟨ran, returned, _⟩ := exact feedGate "u" ancient 300000000 none
    simp [panics] at returned
  · obtain ⟨ts, read, recent⟩ := conforms.fresh _ rfl
    have earliest : ts = -2 ^ 63 := (Option.some_inj.mp read).symm
    subst earliest
    exact absurd recent (by decide)

variable (registry : InMemoryInterruptRegistry)

def register (calls : List StageCall) : InMemoryInterruptRegistry :=
  calls.foldl (fun registry call =>
    match call with
    | .route _ _ => registry
    | .register pending => registry.register pending) registry

variable {registry}

theorem run_parks {spec : InterruptSpec} {ran : StageRun} (policy : stage.onBreach = .interrupt spec)
    (handled : stage.Handled uuid record ran) (fresh : (stage.idGen.nextId uuid).1 ∉ registry) :
    ∃ pending, (register registry ran.calls).get (stage.idGen.nextId uuid).1 = some pending ∧
      registry.get (stage.idGen.nextId uuid).1 = none ∧ pending.status = .pending ∧
        pending.payload.get "record" = some record ∧
          ∀ other ≠ (stage.idGen.nextId uuid).1, (register registry ran.calls).get other = registry.get other := by
  cases handled with
  | dropped _ other => simp [policy] at other
  | routed _ _ other => simp [policy] at other
  | parked _ pending _ _ minted status carried =>
    refine ⟨pending, ?_, by simpa [InMemoryInterruptRegistry.get] using fresh, status, carried,
      fun other different => ?_⟩
    · simp [register, InMemoryInterruptRegistry.register, InMemoryInterruptRegistry.get_insert, minted]
    · simp [register, InMemoryInterruptRegistry.register, InMemoryInterruptRegistry.get_insert, minted,
        Ne.symm different]

end ContractValidateStage

end AtomrAgents
