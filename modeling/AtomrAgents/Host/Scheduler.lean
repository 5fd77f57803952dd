import AtomrAgents.Core.Text
import AtomrAgents.Core.Value
import AtomrAgents.Host.Stores
import AtomrAgents.Shared.Operations

set_option autoImplicit false

namespace AtomrAgents

open Shared

structure CronEntry where
  id : String
  expression : String
  call : Value
  input : Value
  enabled : Bool

structure CronFireResult where
  cronId : String
  firedAtMs : Nat
  call : Value
  input : Value

-- The result of `u64` arithmetic in a build with overflow checks or without; nothing stands for a panic.
def checkedU64 (checks : Bool) (n : Nat) : Option Nat :=
  if n < 2 ^ 64 then some n else if checks then none else some (n % 2 ^ 64)

def everyPrefix : List Char := "every:".toList

def secondsOf (checks : Bool) (expr : String) (n : Nat) : Char → Option (Except HostError Nat)
  | 's' => some (.ok n)
  | 'm' => (checkedU64 checks (n * 60)).map .ok
  | 'h' => ((checkedU64 checks (n * 60)).bind fun m => checkedU64 checks (m * 60)).map .ok
  | 'd' =>
    (((checkedU64 checks (n * 60)).bind fun m => checkedU64 checks (m * 60)).bind fun h =>
      checkedU64 checks (h * 24)).map .ok
  | other => some (.error (.scheduler
      ("unsupported unit `" ++ String.singleton other ++ "` in `" ++ expr ++ "` (use s/m/h/d)")))

def positiveInterval (expr : String) : Except HostError Nat → Except HostError Nat
  | .ok 0 => .error (.scheduler ("interval must be > 0 in `" ++ expr ++ "`"))
  | secs => secs

def parseExpression (checks : Bool) (expr : String) : Option (Except HostError Nat) :=
  if everyPrefix <+: expr.toList then
    let rest := expr.toList.drop everyPrefix.length
    match rest.getLast? with
    | none => none
    | some unit =>
      -- `split_at` takes off the last byte.
      if unit.utf8Size = 1 then
        match parseU64 (String.ofList rest.dropLast) with
        | none => some (.error (.scheduler ("invalid number in `" ++ expr ++ "`")))
        | some n => (secondsOf checks expr n unit).map (positiveInterval expr)
      else none
  else
    some (.error (.scheduler
      ("unsupported expression `" ++ expr ++ "` (expected `every:Ns`/`m`/`h`/`d`)")))

structure SchedulerInner where
  entries : Std.ExtTreeMap String CronEntry compare
  nextDueMs : Std.ExtTreeMap String Nat compare

inductive SchedulerReturn where
  | registered (result : Except HostError Nat)
  | removed (known : Bool)
  | fired (results : List CronFireResult)

namespace SchedulerInner

def new : SchedulerInner where
  entries := ∅
  nextDueMs := ∅

-- `now + secs * 1000`
def dueAfter (checks : Bool) (now secs : Nat) : Option Nat :=
  (checkedU64 checks (secs * 1000)).bind fun ms => checkedU64 checks (now + ms)

variable (checks : Bool) (inner : SchedulerInner)

def register (entry : CronEntry) (now : Nat) : Option (Except HostError Nat) × SchedulerInner :=
  match parseExpression checks entry.expression with
  | none => (none, inner)
  | some (.error e) => (some (.error e), inner)
  | some (.ok secs) =>
    match dueAfter checks now secs with
    | none => (none, inner)
    | some next =>
      (some (.ok next), {
        entries := inner.entries.insert entry.id entry
        nextDueMs := inner.nextDueMs.insert entry.id next })

def remove (id : String) : Bool × SchedulerInner :=
  (inner.entries.contains id, {
    entries := inner.entries.erase id
    nextDueMs := inner.nextDueMs.erase id })

def dueIds (now : Nat) : List String := (inner.nextDueMs.toList.filter fun entry => entry.2 ≤ now).map Prod.fst

def fireEach (now : Nat) : List String → List CronFireResult → SchedulerInner →
    Option (List CronFireResult) × SchedulerInner
  | [], fired, inner => (some fired, inner)
  | id :: ids, fired, inner =>
    match inner.entries[id]? with
    | none => fireEach now ids fired inner
    | some entry =>
      if entry.enabled then
        let fired := fired ++ [{ cronId := id, firedAtMs := now, call := entry.call, input := entry.input }]
        match parseExpression checks entry.expression with
        | none => (none, inner)
        | some parsed =>
          match dueAfter checks now (parsed.toOption.getD 60) with
          | none => (none, inner)
          | some next => fireEach now ids fired { inner with nextDueMs := inner.nextDueMs.insert id next }
      else fireEach now ids fired inner

-- The order of the map is that of its keys here; what is fired does not depend on it.
def fireDue (now : Nat) : Option (List CronFireResult) × SchedulerInner :=
  fireEach checks now (inner.dueIds now) [] inner

end SchedulerInner

inductive SchedulerOp where
  | register (entry : CronEntry) (now : Nat)
  | remove (id : String)
  | fireDue (now : Nat)

def SchedulerInner.called (checks : Bool) (inner : SchedulerInner) (op : SchedulerOp) :
    Option SchedulerReturn × SchedulerInner :=
  match op with
  | .register entry now =>
    ((inner.register checks entry now).1.map .registered, (inner.register checks entry now).2)
  | .remove id => (some (.removed (inner.remove id).1), (inner.remove id).2)
  | .fireDue now => ((inner.fireDue checks now).1.map .fired, (inner.fireDue checks now).2)

def unitSeconds : Char → Option Nat
  | 's' => some 1
  | 'm' => some 60
  | 'h' => some 3600
  | 'd' => some 86400
  | _ => none

-- `every:N` with a unit, and the product.
structure ExactInterval (expr : String) (secs : Nat) : Prop where
  reads : ∃ num unit n seconds, expr = "every:" ++ num ++ String.singleton unit ∧ parseU64 num = some n ∧
    unitSeconds unit = some seconds ∧ secs = n * seconds
  positive : 0 < secs

def ParsesExactly (expr : String) : Prop :=
  ∀ checks, ∃ result, parseExpression checks expr = some result ∧ ∀ secs, result = .ok secs → ExactInterval expr secs

-- Behind `every:` there is something, its last character has one byte, and the product fits.
def SafeExpression (expr : String) : Prop :=
  ∀ rest, expr = "every:" ++ rest → ∃ num unit, rest = num ++ String.singleton unit ∧ unit.utf8Size = 1 ∧
    ∀ n seconds, parseU64 num = some n → unitSeconds unit = some seconds → n * seconds < 2 ^ 64

section Parsing

variable {checks : Bool} {expr num : String} {unit : Char} {n seconds secs : Nat}

theorem checkedU64_of_lt (fits : n < 2 ^ 64) : checkedU64 checks n = some n := if_pos fits

theorem checkedU64_of_ge (overflows : ¬ n < 2 ^ 64) : checkedU64 true n = none := by
  rw [checkedU64, if_neg overflows, if_pos rfl]

theorem everyPrefix_iff : everyPrefix <+: expr.toList ↔ ∃ rest, expr = "every:" ++ rest := by
  constructor
  · rintro ⟨rest, same⟩
    refine ⟨String.ofList rest, ?_⟩
    have read : (String.ofList rest).toList = rest := String.toList_ofList
    rw [← String.toList_inj, ← same, String.toList_append, read]
    rfl
  · rintro ⟨rest, rfl⟩
    rw [String.toList_append]
    exact List.prefix_append _ _

theorem parseExpression_other (checks : Bool) (different : ¬ ∃ rest, expr = "every:" ++ rest) :
    ∃ e, parseExpression checks expr = some (.error e) := by
  rw [parseExpression, if_neg (everyPrefix_iff.not.mpr different)]
  exact ⟨_, rfl⟩

theorem parseExpression_empty (checks : Bool) : parseExpression checks "every:" = none := by
  cases checks <;> decide

theorem parseExpression_unit (checks : Bool) (num : String) (unit : Char) :
    parseExpression checks ("every:" ++ num ++ String.singleton unit) =
      if unit.utf8Size = 1 then
        match parseU64 num with
        | none => some (.error (.scheduler
            ("invalid number in `" ++ ("every:" ++ num ++ String.singleton unit) ++ "`")))
        | some n =>
          (secondsOf checks ("every:" ++ num ++ String.singleton unit) n unit).map
            (positiveInterval ("every:" ++ num ++ String.singleton unit))
      else none := by
  have begins : everyPrefix <+: ("every:" ++ num ++ String.singleton unit).toList :=
    everyPrefix_iff.mpr ⟨num ++ String.singleton unit, String.append_assoc⟩
  have rest : ("every:" ++ num ++ String.singleton unit).toList.drop everyPrefix.length = num.toList ++ [unit] := by
    rw [String.toList_append, String.toList_append, String.toList_singleton, List.append_assoc]
    exact List.drop_left
  rw [parseExpression, if_pos begins]
  simp only [rest, List.getLast?_concat, List.dropLast_concat, String.ofList_toList]

theorem unitSeconds_cases (known : unitSeconds unit = some seconds) :
    (unit = 's' ∧ seconds = 1) ∨ (unit = 'm' ∧ seconds = 60) ∨ (unit = 'h' ∧ seconds = 3600) ∨
      (unit = 'd' ∧ seconds = 86400) := by
  unfold unitSeconds at known
  split at known <;> simp_all

theorem secondsOf_fits (known : unitSeconds unit = some seconds) (fits : n * seconds < 2 ^ 64) :
    secondsOf checks expr n unit = some (.ok (n * seconds)) := by
  rcases unitSeconds_cases known with ⟨rfl, rfl⟩ | ⟨rfl, rfl⟩ | ⟨rfl, rfl⟩ | ⟨rfl, rfl⟩
  · simp [secondsOf]
  · simp [secondsOf, checkedU64_of_lt fits]
  · have minutes : n * 60 < 2 ^ 64 := by omega
    have hours : n * 60 * 60 < 2 ^ 64 := by omega
    have product : n * 3600 = n * 60 * 60 := by omega
    simp [secondsOf, checkedU64_of_lt minutes, checkedU64_of_lt hours, product]
  · have minutes : n * 60 < 2 ^ 64 := by omega
    have hours : n * 60 * 60 < 2 ^ 64 := by omega
    have days : n * 60 * 60 * 24 < 2 ^ 64 := by omega
    have product : n * 86400 = n * 60 * 60 * 24 := by omega
    simp [secondsOf, checkedU64_of_lt minutes, checkedU64_of_lt hours, checkedU64_of_lt days, product]

theorem secondsOf_overflows (known : unitSeconds unit = some seconds) (word : n < 2 ^ 64)
    (overflows : ¬ n * seconds < 2 ^ 64) : secondsOf true expr n unit = none := by
  rcases unitSeconds_cases known with ⟨rfl, rfl⟩ | ⟨rfl, rfl⟩ | ⟨rfl, rfl⟩ | ⟨rfl, rfl⟩
  · exact absurd word (by omega)
  · simp [secondsOf, checkedU64_of_ge overflows]
  · by_cases minutes : n * 60 < 2 ^ 64
    · have hours : ¬ n * 60 * 60 < 2 ^ 64 := by omega
      simp [secondsOf, checkedU64_of_lt minutes, checkedU64_of_ge hours]
    · simp [secondsOf, checkedU64_of_ge minutes]
  · by_cases minutes : n * 60 < 2 ^ 64
    · by_cases hours : n * 60 * 60 < 2 ^ 64
      · have days : ¬ n * 60 * 60 * 24 < 2 ^ 64 := by omega
        simp [secondsOf, checkedU64_of_lt minutes, checkedU64_of_lt hours, checkedU64_of_ge days]
      · simp [secondsOf, checkedU64_of_lt minutes, checkedU64_of_ge hours]
    · simp [secondsOf, checkedU64_of_ge minutes]

theorem secondsOf_unknown (checks : Bool) (expr : String) (n : Nat) (unknown : unitSeconds unit = none) :
    ∃ e, secondsOf checks expr n unit = some (.error e) := by
  unfold unitSeconds at unknown
  unfold secondsOf
  split at unknown <;> simp_all

theorem positiveInterval_of_pos (positive : 0 < secs) : positiveInterval expr (.ok secs) = .ok secs := by
  cases secs with
  | zero => cases positive
  | succ secs => rfl

theorem ok_of_positiveInterval {result : Except HostError Nat} (ok : positiveInterval expr result = .ok secs) :
    result = .ok secs ∧ 0 < secs := by
  unfold positiveInterval at ok
  split at ok
  next => cases ok
  next nonzero =>
    subst ok
    exact ⟨rfl, Nat.pos_of_ne_zero fun zero => nonzero (zero ▸ rfl)⟩

theorem parseU64_lt (parsed : parseU64 num = some n) : n < 2 ^ 64 := by
  unfold parseU64 at parsed
  grind

theorem parseExpression_exact (exact : ExactInterval expr secs) (fits : secs < 2 ^ 64) (checks : Bool) :
    parseExpression checks expr = some (.ok secs) := by
  obtain ⟨⟨num, unit, n, seconds, rfl, parsed, known, rfl⟩, positive⟩ := exact
  have byte : unit.utf8Size = 1 := by
    rcases unitSeconds_cases known with ⟨rfl, -⟩ | ⟨rfl, -⟩ | ⟨rfl, -⟩ | ⟨rfl, -⟩ <;> rfl
  rw [parseExpression_unit, if_pos byte, parsed]
  simp only [secondsOf_fits known fits, Option.map_some, positiveInterval_of_pos positive]

theorem ExactInterval.eq_of_parses {parsed : Nat} (exact : ExactInterval expr secs)
    (parses : parseExpression true expr = some (.ok parsed)) : secs = parsed := by
  have fits : secs < 2 ^ 64 := by
    by_contra overflows
    obtain ⟨⟨num, unit, n, seconds, rfl, read, known, rfl⟩, -⟩ := exact
    rw [parseExpression_unit] at parses
    split at parses
    next => simp [read, secondsOf_overflows known (parseU64_lt read) overflows] at parses
    next => cases parses
  have same := (parseExpression_exact exact fits true).symm.trans parses
  cases same
  rfl

theorem parses_of_safe (safe : SafeExpression expr) : ParsesExactly expr := by
  intro checks
  by_cases begins : ∃ rest, expr = "every:" ++ rest
  · obtain ⟨rest, rfl⟩ := begins
    obtain ⟨num, unit, rfl, byte, fits⟩ := safe rest rfl
    rw [← String.append_assoc, parseExpression_unit, if_pos byte]
    cases parsed : parseU64 num with
    | none => exact ⟨_, rfl, by simp⟩
    | some n =>
      cases known : unitSeconds unit with
      | none =>
        obtain ⟨e, failed⟩ := secondsOf_unknown checks ("every:" ++ num ++ String.singleton unit) n known
        simp only [failed, Option.map_some]
        exact ⟨_, rfl, fun secs ok => by cases ok⟩
      | some seconds =>
        simp only [secondsOf_fits known (fits n seconds parsed known), Option.map_some]
        refine ⟨_, rfl, fun secs ok => ?_⟩
        obtain ⟨product, positive⟩ := ok_of_positiveInterval ok
        cases product
        exact ⟨⟨num, unit, n, seconds, rfl, parsed, known, rfl⟩, positive⟩
  · obtain ⟨e, failed⟩ := parseExpression_other checks begins
    exact ⟨_, failed, by simp⟩

theorem safe_of_parses (parses : ParsesExactly expr) : SafeExpression expr := by
  rintro rest rfl
  rcases rest.toList.eq_nil_or_concat with empty | ⟨num, unit, parts⟩
  · obtain ⟨result, returned, -⟩ := parses true
    rw [String.toList_eq_nil_iff.mp empty] at returned
    cases returned.symm.trans (parseExpression_empty true)
  · have split : rest = String.ofList num ++ String.singleton unit := by
      rw [← String.toList_inj, parts]
      simp
    obtain ⟨result, returned, -⟩ := parses true
    rw [split, ← String.append_assoc, parseExpression_unit] at returned
    refine ⟨String.ofList num, unit, split, ?_⟩
    split at returned
    next byte =>
      refine ⟨byte, fun n seconds parsed known => ?_⟩
      by_contra overflows
      simp only [parsed, secondsOf_overflows known (parseU64_lt parsed) overflows] at returned
      cases returned
    next => cases returned

theorem parsesExactly_iff (expr : String) : ParsesExactly expr ↔ SafeExpression expr :=
  ⟨safe_of_parses, parses_of_safe⟩

end Parsing

end AtomrAgents
