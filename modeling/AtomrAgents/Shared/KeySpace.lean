import Mathlib.Data.Prod.Lex
import Mathlib.Data.String.Basic
import Mathlib.Logic.Function.Basic

set_option autoImplicit false

/-! `SET`, `GET`, `ZADD`, `ZRANGE` and `ZREVRANGE`, as a key-value server has them. A sorted set has its
members in the order of their scores, and members with the same score in the order of their texts. -/

namespace Shared

inductive Entry (S : Type) where
  | text (text : String)
  | sortedSet (members : List (String × S))

abbrev KeySpace (S : Type) := String → Option (Entry S)

-- The key holds the other kind of value.
inductive WrongType where
  | wrongType

namespace KeySpace

variable {S : Type} (space : KeySpace S) (key : String)

def set (text : String) : KeySpace S := Function.update space key (some (.text text))

def get : Except WrongType (Option String) :=
  match space key with
  | none => .ok none
  | some (.text text) => .ok (some text)
  | some (.sortedSet _) => .error .wrongType

def zadd (member : String) (score : S) : Except WrongType (KeySpace S) :=
  match space key with
  | none => .ok (Function.update space key (some (.sortedSet [(member, score)])))
  | some (.sortedSet members) =>
    let others := members.filter fun other => other.1 ≠ member
    .ok (Function.update space key (some (.sortedSet (others ++ [(member, score)]))))
  | some (.text _) => .error .wrongType

variable {space} {key} in
theorem set_of_ne {other : String} (apart : other ≠ key) (text : String) :
    space.set key text other = space other :=
  Function.update_of_ne apart _ _

variable {space} {key} in
theorem zadd_of_ne {other member : String} {score : S} {after : KeySpace S} (apart : other ≠ key)
    (added : space.zadd key member score = .ok after) : after other = space other := by
  unfold zadd at added
  split at added
  · cases added
    exact Function.update_of_ne apart _ _
  · cases added
    exact Function.update_of_ne apart _ _
  · cases added

variable [LinearOrder S]

-- `ZRANGE key 0 -1`
def zrange : Except WrongType (List String) :=
  match space key with
  | none => .ok []
  | some (.sortedSet members) =>
    let sorted := members.mergeSort fun a b => toLex (a.2, a.1) ≤ toLex (b.2, b.1)
    .ok (sorted.map Prod.fst)
  | some (.text _) => .error .wrongType

-- `ZREVRANGE key 0 (count - 1)`
def zrevrange (count : Nat) : Except WrongType (List String) :=
  (space.zrange key).map fun members => members.reverse.take count

end KeySpace

end Shared
