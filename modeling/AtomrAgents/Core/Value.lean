import Mathlib.Algebra.Group.Int.Defs
import Mathlib.Data.String.Basic
import Std.Data.ExtTreeMap

set_option autoImplicit false

namespace AtomrAgents

abbrev WorkflowId := String
abbrev RunId := String

-- `serde_json::Number`; a float is kept as its bit pattern.
inductive Number where
  | posInt (n : UInt64)
  | negInt (n : Int64)
  | float (bits : UInt64)
  deriving DecidableEq

-- `serde_json::Value`; the fields of an object are listed by key, as its map iterates them.
inductive Value where
  | null
  | bool (b : Bool)
  | number (n : Number)
  | string (s : String)
  | array (items : List Value)
  | object (fields : List (String × Value))

-- `HashMap<String, Value>`, compared by its entries.
abbrev Values := Std.ExtTreeMap String Value compare

def Number.asI64 : Number → Option Int
  | .posInt n => if n.toNat < 2 ^ 63 then some n.toNat else none
  | .negInt n => some n.toInt
  | .float _ => none

namespace Value

def field (fields : List (String × Value)) (key : String) : Option Value :=
  (fields.find? (fun entry => entry.1 == key)).map Prod.snd

def get (key : String) : Value → Option Value
  | .object fields => field fields key
  | _ => none

def asStr : Value → Option String
  | .string s => some s
  | _ => none

def asBool : Value → Option Bool
  | .bool b => some b
  | _ => none

def asI64 : Value → Option Int
  | .number n => n.asI64
  | _ => none

def asU64 : Value → Option UInt64
  | .number (.posInt n) => some n
  | _ => none

def asArray : Value → Option (List Value)
  | .array items => some items
  | _ => none

def ofValues (values : Values) : Value := .object values.toList

end Value

-- `serde_json::to_value` and `serde_json::from_value` at one type.
structure SerdeValue (α : Type) where
  toValue : α → Except String Value
  fromValue : Value → Except String α

def SerdeValue.RoundTrips {α : Type} (serde : SerdeValue α) (x : α) : Prop :=
  ∃ value, serde.toValue x = .ok value ∧ serde.fromValue value = .ok x

inductive AgentError where
  | budgetExceeded (what : String)
  | strategy (message : String)
  | tool (message : String)
  | memory (message : String)
  | inference (message : String)
  | policyDenied (message : String)
  | workflow (message : String)
  | harness (message : String)
  | serde (message : String)
  | internal (message : String)
  deriving DecidableEq

def AgentError.toString : AgentError → String
  | .budgetExceeded what => "budget exceeded: " ++ what
  | .strategy message => "strategy resolution failed: " ++ message
  | .tool message => "tool invocation failed: " ++ message
  | .memory message => "memory operation failed: " ++ message
  | .inference message => "inference call failed: " ++ message
  | .policyDenied message => "policy denied: " ++ message
  | .workflow message => "workflow error: " ++ message
  | .harness message => "harness error: " ++ message
  | .serde message => "serialization error: " ++ message
  | .internal message => "internal: " ++ message

end AtomrAgents

namespace AtomrAgents

-- `serde_json` at one type, as a store uses it for its columns. Writing a value does not fail.
structure SerdeJson (α : Type) where
  toString : α → String
  fromStr : String → Except AgentError α

def SerdeJson.RoundTrips {α : Type} (json : SerdeJson α) (value : α) : Prop :=
  json.fromStr (json.toString value) = .ok value

-- `n as i64` and `i as u64`.
def asI64 (n : Nat) : Int := Int.bmod n (2 ^ 64)

def asU64 (i : Int) : Nat := (i % (2 ^ 64 : Nat)).toNat

-- Subtraction of `i64`, which wraps around.
def subI64 (a b : Int) : Int := Int.bmod (a - b) (2 ^ 64)

section

variable {n m : Nat}

theorem emod_of_fits (fits : n < m) : (n : Int) % m = n :=
  Int.emod_eq_of_lt (Int.natCast_nonneg n) (Int.ofNat_lt.mpr fits)

theorem toNat_bmod_emod (fits : n < m) : (Int.bmod n m % m).toNat = n := by
  rw [Int.bmod_emod, emod_of_fits fits, Int.toNat_natCast]

theorem bmod_of_fits (fits : n < m) : Int.bmod n m = if n < (m + 1) / 2 then (n : Int) else n - m := by
  rw [Int.bmod_def, emod_of_fits fits]
  split <;> split <;> omega

end

theorem asU64_asI64 {n : Nat} (fits : n < 2 ^ 64) : asU64 (asI64 n) = n := toNat_bmod_emod fits

theorem asI64_of_fits {n : Nat} (fits : n < 2 ^ 64) :
    asI64 n = if n < 2 ^ 63 then (n : Int) else n - (2 ^ 64 : Nat) := bmod_of_fits fits

theorem asI64_of_small {n : Nat} (small : n < 2 ^ 63) : asI64 n = n := by
  rw [asI64_of_fits (small.trans (by decide)), if_pos small]

theorem subI64_of_fits {a b : Int} (above : -2 ^ 63 ≤ a - b) (below : a - b < 2 ^ 63) :
    subI64 a b = a - b := by
  apply Int.bmod_eq_of_le
  · omega
  · omega

-- Nothing below depends on how the numbers wrap around.
attribute [irreducible] asI64 asU64

theorem asI64_inj {a b : Nat} (a_fits : a < 2 ^ 64) (b_fits : b < 2 ^ 64) :
    asI64 a = asI64 b ↔ a = b := by
  constructor
  · intro same
    rw [← asU64_asI64 a_fits, same, asU64_asI64 b_fits]
  · rintro rfl
    rfl

theorem lt_of_asI64_lt {a b last : Nat} (a_fits : a < 2 ^ 64) (b_fits : b < 2 ^ 64)
    (last_fits : last < 2 ^ 64) (lt : asI64 a < asI64 b) (b_le : asI64 b ≤ asI64 last)
    (a_le : a ≤ last) : a < b := by
  rw [asI64_of_fits a_fits, asI64_of_fits b_fits] at lt
  rw [asI64_of_fits b_fits, asI64_of_fits last_fits] at b_le
  generalize (2 : Nat) ^ 64 = modulus at *
  generalize (2 : Nat) ^ 63 = half at *
  split at lt <;> split at lt <;> split at b_le <;> omega

end AtomrAgents
