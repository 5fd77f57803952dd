import AtomrAgents.Shared.Occurrences
import Mathlib.Data.String.Basic
import Mathlib.Data.List.DropRight
import Std.Data.String.ToNat

set_option autoImplicit false

namespace AtomrAgents

-- The Unicode property White_Space.
def isWhitespace (c : Char) : Bool :=
  let n := c.toNat
  (9 ≤ n ∧ n ≤ 13) ∨ n = 0x20 ∨ n = 0x85 ∨ n = 0xA0 ∨ n = 0x1680 ∨ (0x2000 ≤ n ∧ n ≤ 0x200A) ∨
    n = 0x2028 ∨ n = 0x2029 ∨ n = 0x202F ∨ n = 0x205F ∨ n = 0x3000

def trim (s : String) : String :=
  String.ofList ((s.toList.dropWhile isWhitespace).rdropWhile isWhitespace)

-- The first `skip` letters belong to a match already replaced.
def replaceFrom (pattern new : List Char) : Nat → List Char → List Char
  | _, [] => []
  | skip + 1, _ :: rest => replaceFrom pattern new skip rest
  | 0, c :: rest =>
    if pattern <+: c :: rest then new ++ replaceFrom pattern new (pattern.length - 1) rest
    else c :: replaceFrom pattern new 0 rest

-- `str::replace` with a pattern that is not empty.
def replace (s pattern new : String) : String :=
  String.ofList (replaceFrom pattern.toList new.toList 0 s.toList)

-- `str::parse::<u64>`
def parseU64 (text : String) : Option Nat :=
  let digits :=
    match text.toList with
    | '+' :: digits => digits
    | digits => digits
  if digits = [] ∨ ¬ digits.all Char.isDigit then none
  else
    let n := Nat.ofDigitChars 10 digits 0
    if n < 2 ^ 64 then some n else none

theorem replaceFrom_eq (pattern new : List Char) (skip : Nat) (text : List Char) :
    replaceFrom pattern new skip text = Shared.replaced pattern new (text.drop skip) := by
  induction text generalizing skip with
  | nil => cases skip <;> simp [replaceFrom, Shared.replaced, Shared.gaps, Shared.gapsFrom, List.intercalate]
  | cons c rest ih =>
    cases skip with
    | succ skip => exact ih skip
    | zero =>
      rw [replaceFrom, ih, ih, List.drop_zero, List.drop_zero]
      by_cases begins : pattern <+: c :: rest
      · have step : Shared.gaps pattern (c :: rest) = [] :: Shared.gaps pattern (rest.drop (pattern.length - 1)) := by
          rw [Shared.gaps, Shared.gapsFrom, if_pos begins, Shared.gapsFrom_skip]
        rw [if_pos begins, Shared.replaced, Shared.replaced, step, Shared.intercalate_cons _ _ (Shared.gaps_ne_nil _ _)]
        rfl
      · obtain ⟨gap, more, parts⟩ := List.exists_cons_of_ne_nil (Shared.gaps_ne_nil pattern rest)
        rw [if_neg begins, Shared.replaced, Shared.replaced, Shared.gaps_cons begins, parts]
        cases more <;> simp [List.intercalate]

theorem toList_replace (s pattern new : String) :
    (replace s pattern new).toList = Shared.replaced pattern.toList new.toList s.toList := by
  rw [replace, String.toList_ofList, replaceFrom_eq, List.drop_zero]

theorem colon_not_mem_toString (n : Nat) : ':' ∉ (toString n).toList := by
  intro member
  rw [Nat.toString_eq_repr, Nat.toList_repr] at member
  have digit := Nat.isDigit_of_mem_toDigits (by decide) (by decide) member
  exact absurd digit (by decide)

end AtomrAgents
