import AtomrAgents.Core.Value

set_option autoImplicit false

namespace AtomrAgents

structure Parser (T : Type) where
  parse : String → Except AgentError T
  formatInstructions : String

-- The answers may differ from request to request, which are counted from 0.
structure RepairModel where
  repair : Nat → String → String → Except AgentError String

structure RepairRequest where
  original : String
  hint : String
  deriving DecidableEq

structure RepairReport (T : Type) where
  result : Except AgentError T
  parsed : List String
  requests : List RepairRequest
  replies : List String

section

variable {T : Type} (inner : Parser T) (model : RepairModel) (hint : String → AgentError → String)
  (exhausted : AgentError)

-- The loop of both parsers, with the passes that are left and the request that comes next.
def repairLoop : Nat → Nat → String → Option AgentError → RepairReport T
  | 0, _, _, lastErr =>
    { result := .error (lastErr.getD exhausted), parsed := [], requests := [], replies := [] }
  | passes + 1, moment, current, _ =>
    match inner.parse current with
    | .ok v => { result := .ok v, parsed := [current], requests := [], replies := [] }
    | .error e =>
      let request : RepairRequest := { original := current, hint := hint current e }
      match model.repair moment request.original request.hint with
      | .error failure => { result := .error failure, parsed := [current], requests := [request], replies := [] }
      | .ok text =>
        let later := repairLoop passes (moment + 1) text (some e)
        { result := later.result
          parsed := current :: later.parsed
          requests := request :: later.requests
          replies := text :: later.replies }

end

structure OutputFixingParser (T : Type) where
  inner : Parser T
  model : RepairModel
  maxAttempts : Nat

structure RetryWithErrorParser (T : Type) where
  inner : Parser T
  model : RepairModel
  maxAttempts : Nat
  originalPrompt : String

variable {T : Type}

namespace OutputFixingParser

def hint (fixing : OutputFixingParser T) (current : String) (_ : AgentError) : String :=
  "Output below failed format instructions. Re-emit corrected output.\n\nFormat:\n" ++
    fixing.inner.formatInstructions ++ "\n\nFailed output:\n" ++ current

def parse (fixing : OutputFixingParser T) (raw : String) : RepairReport T :=
  repairLoop fixing.inner fixing.model fixing.hint (.internal "repair exhausted")
    (max fixing.maxAttempts 1) 0 raw none

end OutputFixingParser

namespace RetryWithErrorParser

def hint (retry : RetryWithErrorParser T) (_ : String) (e : AgentError) : String :=
  "Original prompt:\n" ++ retry.originalPrompt ++ "\n\nError on previous output:\n" ++ e.toString ++
    "\n\nReply again, conforming to the prompt."

def parse (retry : RetryWithErrorParser T) (raw : String) : RepairReport T :=
  repairLoop retry.inner retry.model retry.hint (.internal "retry exhausted")
    (max retry.maxAttempts 1) 0 raw none

end RetryWithErrorParser

section

variable (inner : Parser T) (model : RepairModel) (hint : String → AgentError → String)

def candidate (moment : Nat) (raw : String) : Nat → Option String
  | 0 => some raw
  | repairs + 1 =>
    match candidate moment raw repairs with
    | none => none
    | some text =>
      match inner.parse text with
      | .ok _ => none
      | .error e => (model.repair (moment + repairs) text (hint text e)).toOption

def Recovers (passes moment : Nat) (raw : String) : Prop :=
  ∃ repairs < passes, ∃ text v, candidate inner model hint moment raw repairs = some text ∧
    inner.parse text = .ok v

def Breaks (passes moment : Nat) (raw : String) : Prop :=
  ∃ repairs < passes, ∃ text e failure, candidate inner model hint moment raw repairs = some text ∧
    inner.parse text = .error e ∧ model.repair (moment + repairs) text (hint text e) = .error failure

-- Every text that came back was parsed, and one that can be parsed decides.
structure UsesEveryRepair (attempts : Nat) (raw : String) (report : RepairReport T) : Prop where
  ok_iff : (∃ v, report.result = .ok v) ↔
    ∃ text ∈ raw :: report.replies, ∃ v, inner.parse text = .ok v
  requests : report.requests.length ≤ attempts
  parsed : report.parsed = raw :: report.replies

variable {inner model hint} {exhausted : AgentError} {passes moment attempts : Nat} {raw text : String}
  {lastErr : Option AgentError} {e : AgentError}

theorem candidate_succ (refused : inner.parse raw = .error e)
    (repaired : model.repair moment raw (hint raw e) = .ok text) (repairs : Nat) :
    candidate inner model hint moment raw (repairs + 1) =
      candidate inner model hint (moment + 1) text repairs := by
  induction repairs with
  | zero => simp [candidate, refused, repaired, Except.toOption]
  | succ repairs ih =>
    rw [candidate, ih, candidate]
    simp only [Nat.add_assoc, Nat.add_comm 1]

theorem recovers_succ (refused : inner.parse raw = .error e)
    (repaired : model.repair moment raw (hint raw e) = .ok text) :
    Recovers inner model hint (passes + 1) moment raw ↔ Recovers inner model hint passes (moment + 1) text := by
  constructor
  · rintro ⟨repairs, bound, last, v, reached, parsed⟩
    cases repairs with
    | zero =>
      cases reached
      rw [refused] at parsed
      cases parsed
    | succ repairs =>
      rw [candidate_succ refused repaired] at reached
      exact ⟨repairs, Nat.lt_of_succ_lt_succ bound, last, v, reached, parsed⟩
  · rintro ⟨repairs, bound, last, v, reached, parsed⟩
    refine ⟨repairs + 1, Nat.succ_lt_succ bound, last, v, ?_, parsed⟩
    rwa [candidate_succ refused repaired]

theorem breaks_succ (refused : inner.parse raw = .error e)
    (repaired : model.repair moment raw (hint raw e) = .ok text) :
    Breaks inner model hint (passes + 1) moment raw ↔ Breaks inner model hint passes (moment + 1) text := by
  constructor
  · rintro ⟨repairs, bound, last, e', failure, reached, refused', failed⟩
    cases repairs with
    | zero =>
      cases reached
      rw [refused, Except.error.injEq] at refused'
      subst refused'
      rw [Nat.add_zero, repaired] at failed
      cases failed
    | succ repairs =>
      rw [candidate_succ refused repaired] at reached
      refine ⟨repairs, Nat.lt_of_succ_lt_succ bound, last, e', failure, reached, refused', ?_⟩
      rwa [Nat.add_assoc, Nat.add_comm 1]
  · rintro ⟨repairs, bound, last, e', failure, reached, refused', failed⟩
    refine ⟨repairs + 1, Nat.succ_lt_succ bound, last, e', failure, ?_, refused', ?_⟩
    · rwa [candidate_succ refused repaired]
    · rwa [Nat.add_comm repairs 1, ← Nat.add_assoc]

def Settles (inner : Parser T) (raw : String) (report : RepairReport T) : Prop :=
  ((∃ v, report.result = .ok v) ↔ ∃ text ∈ raw :: report.replies, ∃ v, inner.parse text = .ok v) ∧
    report.parsed = raw :: report.replies

theorem repairLoop_settles_iff :
    Settles inner raw (repairLoop inner model hint exhausted passes moment raw lastErr) ↔
      Recovers inner model hint passes moment raw ∨ Breaks inner model hint passes moment raw := by
  induction passes generalizing moment raw lastErr with
  | zero => simp [repairLoop, Settles, Recovers, Breaks]
  | succ passes ih =>
    rw [repairLoop]
    cases first : inner.parse raw with
    | ok v =>
      have recovers : Recovers inner model hint (passes + 1) moment raw := ⟨0, Nat.succ_pos passes, raw, v, rfl, first⟩
      simp [Settles, recovers, first]
    | error e =>
      cases reply : model.repair moment raw (hint raw e) with
      | error failure =>
        have breaks : Breaks inner model hint (passes + 1) moment raw :=
          ⟨0, Nat.succ_pos passes, raw, e, failure, rfl, first, reply⟩
        simp [Settles, breaks, first, reply]
      | ok text =>
        rw [recovers_succ first reply, breaks_succ first reply, ← @ih (moment + 1) text (some e)]
        simp [Settles, first, reply]

theorem repairLoop_requests :
    (repairLoop inner model hint exhausted passes moment raw lastErr).requests.length ≤ passes := by
  induction passes generalizing moment raw lastErr with
  | zero => exact Nat.le_refl 0
  | succ passes ih =>
    rw [repairLoop]
    cases inner.parse raw with
    | ok v => exact Nat.zero_le _
    | error e =>
      cases reply : model.repair moment raw (hint raw e) with
      | error failure => simp [reply]
      | ok text => simpa [reply] using ih

theorem repairLoop_uses_iff :
    UsesEveryRepair inner attempts raw
        (repairLoop inner model hint exhausted (max attempts 1) 0 raw none) ↔
      Recovers inner model hint (max attempts 1) 0 raw ∨
        1 ≤ attempts ∧ Breaks inner model hint (max attempts 1) 0 raw := by
  have settles := @repairLoop_settles_iff T inner model hint exhausted (max attempts 1) 0 raw none
  have bound := @repairLoop_requests T inner model hint exhausted (max attempts 1) 0 raw none
  cases attempts with
  | zero =>
    have one : max 0 1 = 1 := rfl
    rw [one] at settles ⊢
    rw [or_iff_left fun breaks => absurd breaks.1 (Nat.not_succ_le_zero 0)]
    cases first : inner.parse raw with
    | ok v =>
      have recovers : Recovers inner model hint 1 0 raw := ⟨0, Nat.one_pos, raw, v, rfl, first⟩
      have settled := settles.mpr (.inl recovers)
      refine ⟨fun _ => recovers, fun _ => ⟨settled.1, ?_, settled.2⟩⟩
      simp [repairLoop, first]
    | error e =>
      constructor
      · intro uses
        have asked := uses.requests
        cases reply : model.repair 0 raw (hint raw e) <;> simp [repairLoop, first, reply] at asked
      · rintro ⟨repairs, bound, text, v, reached, parsed⟩
        obtain rfl : repairs = 0 := by omega
        cases reached
        rw [first] at parsed
        cases parsed
  | succ attempts =>
    have passes : max (attempts + 1) 1 = attempts + 1 := by omega
    rw [passes] at settles bound ⊢
    simp only [Nat.le_add_left, true_and, ← settles]
    exact ⟨fun uses => ⟨uses.ok_iff, uses.parsed⟩, fun settled => ⟨settled.1, bound, settled.2⟩⟩

/-- Both parsers drop the reply to their last request. -/
theorem parse_uses_iff (fixing : OutputFixingParser T) (retry : RetryWithErrorParser T) (raw : String) :
    (UsesEveryRepair fixing.inner fixing.maxAttempts raw (fixing.parse raw) ↔
      Recovers fixing.inner fixing.model fixing.hint (max fixing.maxAttempts 1) 0 raw ∨
        1 ≤ fixing.maxAttempts ∧ Breaks fixing.inner fixing.model fixing.hint (max fixing.maxAttempts 1) 0 raw) ∧
    (UsesEveryRepair retry.inner retry.maxAttempts raw (retry.parse raw) ↔
      Recovers retry.inner retry.model retry.hint (max retry.maxAttempts 1) 0 raw ∨
        1 ≤ retry.maxAttempts ∧ Breaks retry.inner retry.model retry.hint (max retry.maxAttempts 1) 0 raw) :=
  ⟨repairLoop_uses_iff, repairLoop_uses_iff⟩

end

section

def picky : Parser String where
  parse text := if text = "null" then .ok text else .error (.serde "expected value")
  formatInstructions := "Reply with JSON."

def mender : RepairModel := { repair := fun _ _ _ => .ok "null" }

-- The only repair that was asked for is a good one.
theorem last_repair_dropped :
    (OutputFixingParser.parse { inner := picky, model := mender, maxAttempts := 1 } "nul").result =
        .error (.serde "expected value") ∧
      (OutputFixingParser.parse { inner := picky, model := mender, maxAttempts := 1 } "nul").replies = ["null"] ∧
      (RetryWithErrorParser.parse
          { inner := picky, model := mender, maxAttempts := 1, originalPrompt := "JSON, please." } "nul").result =
        .error (.serde "expected value") ∧
      (RetryWithErrorParser.parse
          { inner := picky, model := mender, maxAttempts := 1, originalPrompt := "JSON, please." } "nul").replies =
        ["null"] ∧
      picky.parse "null" = .ok "null" := ⟨rfl, rfl, rfl, rfl, rfl⟩

end

end AtomrAgents
