import AtomrAgents.Core.Value

set_option autoImplicit false

namespace AtomrAgents

inductive JsonType where
  | string
  | number
  | bool
  | array
  | object
  deriving DecidableEq

namespace JsonType

def accepts : JsonType → Value → Bool
  | .string, .string _ => true
  | .number, .number _ => true
  | .bool, .bool _ => true
  | .array, .array _ => true
  | .object, .object _ => true
  | _, _ => false

def name : JsonType → String
  | .string => "string"
  | .number => "number"
  | .bool => "bool"
  | .array => "array"
  | .object => "object"

end JsonType

structure TypeSchema where
  required : List (String × JsonType)

structure MaxLag where
  ms : Int64

structure ExpectedCadence where
  ms : Int64

structure DataContract where
  schema : TypeSchema
  freshness : Option MaxLag
  continuity : Option ExpectedCadence
  custom : List (Value → Option String)

inductive ViolationKind where
  | typeDrift
  | staleData
  | gap
  | custom
  deriving DecidableEq

def ViolationKind.name : ViolationKind → String
  | .typeDrift => "TypeDrift"
  | .staleData => "StaleData"
  | .gap => "Gap"
  | .custom => "Custom"

structure ContractViolation where
  kind : ViolationKind
  detail : String
  deriving DecidableEq

-- A subtraction that overflows panics in a build with overflow checks.
inductive Verdict where
  | valid
  | breach (violation : ContractViolation)
  | panicked
  deriving DecidableEq

namespace Verdict

def andThen : Verdict → Verdict → Verdict
  | .valid, next => next
  | verdict, _ => verdict

def all {α : Type} (check : α → Verdict) : List α → Verdict
  | [] => .valid
  | x :: xs => (check x).andThen (all check xs)

variable {α : Type} {check : α → Verdict} {xs : List α} {a b : Verdict}

@[simp] theorem andThen_eq_valid : a.andThen b = .valid ↔ a = .valid ∧ b = .valid := by
  cases a <;> simp [andThen]

@[simp] theorem andThen_eq_panicked : a.andThen b = .panicked ↔ a = .panicked ∨ (a = .valid ∧ b = .panicked) := by
  cases a <;> simp [andThen]

theorem andThen_congr {a' b' : Verdict} (first : a = a') (second : a = .valid → b = b') :
    a.andThen b = a'.andThen b' := by
  cases first
  cases a with
  | valid => simpa [andThen] using second
  | breach | panicked => rfl

theorem all_eq_valid : all check xs = .valid ↔ ∀ x ∈ xs, check x = .valid := by
  induction xs with
  | nil => simp [all]
  | cons x xs ih => simp [all, ih]

theorem all_ne_panicked (quiet : ∀ x ∈ xs, check x ≠ .panicked) : all check xs ≠ .panicked := by
  induction xs with
  | nil => simp [all]
  | cons x xs ih => simp_all [all]

end Verdict

def FitsI64 (n : Int) : Prop := -2 ^ 63 ≤ n ∧ n < 2 ^ 63

instance (n : Int) : Decidable (FitsI64 n) := inferInstanceAs (Decidable (_ ∧ _))

-- `a - b` of two `i64`s, in a build with overflow checks or without.
def i64Sub (checks : Bool) (a b : Int) : Option Int :=
  if checks ∧ ¬ FitsI64 (a - b) then none else some (subI64 a b)

theorem i64Sub_of_fits {checks : Bool} {a b : Int} (fits : FitsI64 (a - b)) : i64Sub checks a b = some (a - b) := by
  simp [i64Sub, fits, subI64_of_fits fits.1 fits.2]

theorem i64Sub_checked {a b : Int} : i64Sub true a b = none ↔ ¬ FitsI64 (a - b) := by simp [i64Sub]

def tsMs (record : Value) : Option Int := (record.get "ts_ms").bind Value.asI64

namespace DataContract

variable (checks : Bool) (contract : DataContract) (record : Value) (nowMs : Int64) (prevTs : Option Int64)

def checkKey (entry : String × JsonType) : Verdict :=
  match record.get entry.1 with
  | none => .breach { kind := .typeDrift, detail := "missing required key `" ++ entry.1 ++ "`" }
  | some v =>
    if entry.2.accepts v then .valid
    else .breach { kind := .typeDrift, detail := "key `" ++ entry.1 ++ "` expected " ++ entry.2.name ++ " " }

-- The time between two instants, of which the record gives one, against a limit.
def checkTime (kind : ViolationKind) (missing : String) (late : Int → String) (limit : Int64)
    (instants : Int → Int × Int) : Verdict :=
  match tsMs record with
  | none => .breach { kind, detail := missing }
  | some ts =>
    match i64Sub checks (instants ts).1 (instants ts).2 with
    | none => .panicked
    | some elapsed => if limit.toInt < elapsed then .breach { kind, detail := late elapsed } else .valid

def checkFreshness : Verdict :=
  match contract.freshness with
  | none => .valid
  | some max =>
    checkTime checks record .staleData "missing or non-integer `ts_ms` for freshness check"
      (fun lag => "data is " ++ toString lag ++ "ms old, exceeds MaxLag(" ++ toString max.ms.toInt ++ "ms)")
      max.ms fun ts => (nowMs.toInt, ts)

def checkContinuity : Verdict :=
  match contract.continuity, prevTs with
  | some cadence, some prev =>
    checkTime checks record .gap "missing or non-integer `ts_ms` for continuity check"
      (fun gap => "gap of " ++ toString gap ++ "ms exceeds ExpectedCadence(" ++ toString cadence.ms.toInt ++ "ms)")
      cadence.ms fun ts => (ts, prev.toInt)
  | _, _ => .valid

def checkCustom (check : Value → Option String) : Verdict :=
  match check record with
  | none => .valid
  | some detail => .breach { kind := .custom, detail }

def validate : Verdict :=
  (Verdict.all (checkKey record) contract.schema.required).andThen <|
    (contract.checkFreshness checks record nowMs).andThen <|
      (contract.checkContinuity checks record prevTs).andThen <|
        Verdict.all (checkCustom record) contract.custom

def Shaped : Prop := ∀ entry ∈ contract.schema.required, ∃ v, record.get entry.1 = some v ∧ entry.2.accepts v

def Fresh : Prop :=
  ∀ max ∈ contract.freshness, ∃ ts ∈ tsMs record, nowMs.toInt - ts ≤ max.ms.toInt

def Continuous : Prop :=
  ∀ cadence ∈ contract.continuity, ∀ prev ∈ prevTs, ∃ ts ∈ tsMs record, ts - prev.toInt ≤ cadence.ms.toInt

-- The record meets its contract, the times taken as exact integers.
structure Conforms : Prop where
  shaped : contract.Shaped record
  fresh : contract.Fresh record nowMs
  continuous : contract.Continuous record prevTs
  unobjected : ∀ check ∈ contract.custom, check record = none

structure TimesFit : Prop where
  lag : contract.Shaped record → contract.freshness.isSome → ∀ ts ∈ tsMs record, FitsI64 (nowMs.toInt - ts)
  gap : contract.Shaped record → contract.Fresh record nowMs → contract.continuity.isSome →
    ∀ prev ∈ prevTs, ∀ ts ∈ tsMs record, FitsI64 (ts - prev.toInt)

variable {checks contract record nowMs prevTs}

theorem checkKey_eq_valid {entry : String × JsonType} :
    checkKey record entry = .valid ↔ ∃ v, record.get entry.1 = some v ∧ entry.2.accepts v := by
  cases found : record.get entry.1 with
  | none => simp [checkKey, found]
  | some v => simp [checkKey, found]

theorem checkKey_ne_panicked (entry : String × JsonType) : checkKey record entry ≠ .panicked := by
  rw [checkKey]
  split
  · simp
  · split <;> simp

theorem checkCustom_eq_valid {check : Value → Option String} :
    checkCustom record check = .valid ↔ check record = none := by
  cases found : check record <;> simp [checkCustom, found]

theorem checkCustom_ne_panicked (check : Value → Option String) : checkCustom record check ≠ .panicked := by
  cases found : check record <;> simp [checkCustom, found]

section

variable {kind : ViolationKind} {missing : String} {late : Int → String} {limit : Int64} {instants : Int → Int × Int}

theorem checkTime_of_fits (fits : ∀ ts ∈ tsMs record, FitsI64 ((instants ts).1 - (instants ts).2)) :
    checkTime checks record kind missing late limit instants =
      checkTime false record kind missing late limit instants := by
  cases found : tsMs record with
  | none => simp [checkTime, found]
  | some ts => simp [checkTime, found, i64Sub_of_fits (fits ts found)]

theorem checkTime_eq_valid (fits : ∀ ts ∈ tsMs record, FitsI64 ((instants ts).1 - (instants ts).2)) :
    checkTime checks record kind missing late limit instants = .valid ↔
      ∃ ts ∈ tsMs record, (instants ts).1 - (instants ts).2 ≤ limit.toInt := by
  cases found : tsMs record with
  | none => simp [checkTime, found]
  | some ts => simp [checkTime, found, i64Sub_of_fits (fits ts found)]

theorem checkTime_panicked :
    checkTime true record kind missing late limit instants = .panicked ↔
      ∃ ts ∈ tsMs record, ¬ FitsI64 ((instants ts).1 - (instants ts).2) := by
  cases found : tsMs record with
  | none => simp [checkTime, found]
  | some ts =>
    by_cases fits : FitsI64 ((instants ts).1 - (instants ts).2)
    · simp only [checkTime, found, i64Sub_of_fits fits]
      split <;> simp [fits]
    · simp [checkTime, found, i64Sub_checked.mpr fits, fits]

end

theorem checkFreshness_panicked :
    contract.checkFreshness true record nowMs = .panicked ↔
      contract.freshness.isSome ∧ ∃ ts ∈ tsMs record, ¬ FitsI64 (nowMs.toInt - ts) := by
  cases limit : contract.freshness with
  | none => simp [checkFreshness, limit]
  | some max => simp [checkFreshness, limit, checkTime_panicked]

theorem checkFreshness_eq_valid
    (fits : contract.freshness.isSome → ∀ ts ∈ tsMs record, FitsI64 (nowMs.toInt - ts)) :
    contract.checkFreshness checks record nowMs = .valid ↔ contract.Fresh record nowMs := by
  cases limit : contract.freshness with
  | none => simp [checkFreshness, Fresh, limit]
  | some max =>
    simp only [checkFreshness, Fresh, limit]
    rw [checkTime_eq_valid (fits (by simp [limit]))]
    simp

theorem checkContinuity_panicked :
    contract.checkContinuity true record prevTs = .panicked ↔
      contract.continuity.isSome ∧ ∃ prev ∈ prevTs, ∃ ts ∈ tsMs record, ¬ FitsI64 (ts - prev.toInt) := by
  cases limit : contract.continuity with
  | none => simp [checkContinuity, limit]
  | some cadence =>
    cases prevTs with
    | none => simp [checkContinuity, limit]
    | some prev => simp [checkContinuity, limit, checkTime_panicked]

theorem checkContinuity_eq_valid
    (fits : contract.continuity.isSome → ∀ prev ∈ prevTs, ∀ ts ∈ tsMs record, FitsI64 (ts - prev.toInt)) :
    contract.checkContinuity checks record prevTs = .valid ↔ contract.Continuous record prevTs := by
  cases limit : contract.continuity with
  | none => simp [checkContinuity, Continuous, limit]
  | some cadence =>
    cases prevTs with
    | none => simp [checkContinuity, Continuous, limit]
    | some prev =>
      simp only [checkContinuity, Continuous, limit]
      rw [checkTime_eq_valid (fits (by simp [limit]) prev rfl)]
      simp

theorem schema_eq_valid : Verdict.all (checkKey record) contract.schema.required = .valid ↔ contract.Shaped record := by
  simp [Verdict.all_eq_valid, checkKey_eq_valid, Shaped]

theorem schema_ne_panicked : Verdict.all (checkKey record) contract.schema.required ≠ .panicked :=
  Verdict.all_ne_panicked fun entry _ => checkKey_ne_panicked entry

theorem validate_panicked :
    contract.validate true record nowMs prevTs = .panicked ↔ ¬ contract.TimesFit record nowMs prevTs := by
  have custom : Verdict.all (checkCustom record) contract.custom ≠ .panicked :=
    Verdict.all_ne_panicked fun check _ => checkCustom_ne_panicked check
  simp only [validate, Verdict.andThen_eq_panicked, schema_ne_panicked, schema_eq_valid, checkFreshness_panicked,
    checkContinuity_panicked, custom, false_or, and_false, or_false]
  constructor
  · rintro ⟨shaped, ⟨limited, ts, read, excess⟩ | ⟨fresh, limited, prev, earlier, ts, read, excess⟩⟩ fit
    · exact excess (fit.lag shaped limited ts read)
    · rw [checkFreshness_eq_valid (fit.lag shaped)] at fresh
      exact excess (fit.gap shaped fresh limited prev earlier ts read)
  · intro unfit
    by_cases lag : contract.freshness.isSome → ∀ ts ∈ tsMs record, FitsI64 (nowMs.toInt - ts)
    · rw [checkFreshness_eq_valid lag]
      by_contra quiet
      apply unfit
      constructor
      · intro _
        exact lag
      · intro shaped fresh limited prev earlier ts read
        by_contra excess
        exact quiet ⟨shaped, .inr ⟨fresh, limited, prev, earlier, ts, read, excess⟩⟩
    · by_cases shaped : contract.Shaped record
      · push Not at lag
        exact ⟨shaped, .inl lag⟩
      · exact absurd ⟨fun shaped' => absurd shaped' shaped, fun shaped' => absurd shaped' shaped⟩ unfit

variable (fit : contract.TimesFit record nowMs prevTs)

include fit

theorem validate_eq_valid :
    contract.validate checks record nowMs prevTs = .valid ↔ contract.Conforms record nowMs prevTs := by
  have custom : Verdict.all (checkCustom record) contract.custom = .valid ↔
      ∀ check ∈ contract.custom, check record = none := by
    simp [Verdict.all_eq_valid, checkCustom_eq_valid]
  simp only [validate, Verdict.andThen_eq_valid, schema_eq_valid, custom]
  constructor
  · intro ⟨shaped, fresh, continuous, unobjected⟩
    rw [checkFreshness_eq_valid (fit.lag shaped)] at fresh
    rw [checkContinuity_eq_valid (fit.gap shaped fresh)] at continuous
    exact ⟨shaped, fresh, continuous, unobjected⟩
  · intro ⟨shaped, fresh, continuous, unobjected⟩
    rw [checkFreshness_eq_valid (fit.lag shaped), checkContinuity_eq_valid (fit.gap shaped fresh)]
    exact ⟨shaped, fresh, continuous, unobjected⟩

theorem validate_of_fits : contract.validate checks record nowMs prevTs =
    contract.validate false record nowMs prevTs := by
  apply Verdict.andThen_congr rfl
  intro shaped
  rw [schema_eq_valid] at shaped
  apply Verdict.andThen_congr
  · cases limit : contract.freshness with
    | none => simp [checkFreshness, limit]
    | some max =>
      simp only [checkFreshness, limit]
      exact checkTime_of_fits (fit.lag shaped (by simp [limit]))
  · intro fresh
    rw [checkFreshness_eq_valid (fit.lag shaped)] at fresh
    apply Verdict.andThen_congr _ fun _ => rfl
    cases limit : contract.continuity with
    | none => simp [checkContinuity, limit]
    | some cadence =>
      cases prevTs with
      | none => simp [checkContinuity, limit]
      | some prev =>
        simp only [checkContinuity, limit]
        exact checkTime_of_fits (fit.gap shaped fresh (by simp [limit]) prev rfl)

end DataContract

end AtomrAgents
