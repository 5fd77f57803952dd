import Mathlib.Data.List.Basic
import Mathlib.Data.List.Induction

set_option autoImplicit false

namespace Shared

variable {α : Type} (ends : α → Bool)

def pieces : List α → List (List α)
  | [] => []
  | x :: rest =>
    if ends x then [x] :: pieces rest
    else
      match pieces rest with
      | [] => [[x]]
      | piece :: more => (x :: piece) :: more

def unfinished (xs : List α) : Bool := xs.getLast?.any fun x => !ends x

def CutAtEnds : List (List α) → Prop
  | [] => True
  | xs :: rest => (rest.flatten = [] ∨ unfinished ends xs = false) ∧ CutAtEnds rest

variable {ends} {xs ys : List α}

theorem pieces_ne_nil (some : xs ≠ []) : pieces ends xs ≠ [] := by
  cases xs with
  | nil => exact absurd rfl some
  | cons x rest =>
    rw [pieces]
    split
    · exact List.cons_ne_nil _ _
    · split <;> exact List.cons_ne_nil _ _

@[simp] theorem flatten_pieces (xs : List α) : (pieces ends xs).flatten = xs := by
  induction xs with
  | nil => rfl
  | cons x rest ih =>
    rw [pieces]
    split
    · rw [List.flatten_cons, ih, List.singleton_append]
    · split
      · next none =>
        rw [none, List.flatten_nil] at ih
        rw [← ih]
        rfl
      · next piece more some =>
        rw [some, List.flatten_cons] at ih
        rw [List.flatten_cons, List.cons_append, ih]

@[simp] theorem unfinished_singleton (x : α) : unfinished ends [x] = !ends x := rfl

theorem unfinished_append (some : ys ≠ []) : unfinished ends (xs ++ ys) = unfinished ends ys := by
  cases ys using List.reverseRecOn with
  | nil => exact absurd rfl some
  | append_singleton ys y => simp [unfinished, ← List.append_assoc]

theorem unfinished_cons {x : α} (some : xs ≠ []) : unfinished ends (x :: xs) = unfinished ends xs := by
  rw [← unfinished_append some, List.singleton_append]

theorem pieces_append (finished : unfinished ends xs = false) :
    pieces ends (xs ++ ys) = pieces ends xs ++ pieces ends ys := by
  induction xs with
  | nil => rfl
  | cons x rest ih =>
    rw [List.cons_append, pieces, pieces]
    by_cases none : rest = []
    · subst none
      rw [unfinished_singleton, Bool.not_eq_false'] at finished
      simp [finished, pieces]
    · rw [unfinished_cons none] at finished
      rw [ih finished]
      split
      · rfl
      · cases first : pieces ends rest with
        | nil => exact absurd first (pieces_ne_nil none)
        | cons piece more => rfl

theorem length_pieces (xs : List α) :
    (pieces ends xs).length = xs.countP ends + (unfinished ends xs).toNat := by
  induction xs with
  | nil => rfl
  | cons x rest ih =>
    rw [pieces]
    by_cases none : rest = []
    · subst none
      cases end_ : ends x <;> simp [end_, pieces]
    · rw [unfinished_cons none]
      cases end_ : ends x with
      | true => simp only [if_true, List.length_cons, ih, List.countP_cons_of_pos end_, Nat.add_right_comm]
      | false =>
        rw [List.countP_cons_of_neg (by simp [end_]), ← ih]
        cases first : pieces ends rest with
        | nil => exact absurd first (pieces_ne_nil none)
        | cons piece more => rfl

theorem pieces_flatten {cut : List (List α)} (atEnds : CutAtEnds ends cut) :
    pieces ends cut.flatten = cut.flatMap (pieces ends) := by
  induction cut with
  | nil => rfl
  | cons xs rest ih =>
    rw [List.flatten_cons, List.flatMap_cons, ← ih atEnds.2]
    rcases atEnds.1 with none | finished
    · rw [none, List.append_nil]
      exact (List.append_nil _).symm
    · exact pieces_append finished

theorem length_pieces_le (ends : α → Bool) (cut : List (List α)) :
    (pieces ends cut.flatten).length ≤ (cut.flatMap (pieces ends)).length := by
  induction cut with
  | nil => exact Nat.le_refl 0
  | cons xs rest ih =>
    rw [List.flatten_cons, List.flatMap_cons, List.length_append]
    by_cases none : rest.flatten = []
    · rw [none, List.append_nil]
      exact Nat.le_add_right _ _
    · rw [length_pieces, unfinished_append none, List.countP_append, length_pieces]
      rw [length_pieces] at ih
      omega

theorem cutAtEnds_of_length {cut : List (List α)}
    (same : (cut.flatMap (pieces ends)).length = (pieces ends cut.flatten).length) : CutAtEnds ends cut := by
  induction cut with
  | nil => trivial
  | cons xs rest ih =>
    have more := length_pieces_le ends rest
    rw [List.flatten_cons, List.flatMap_cons, List.length_append] at same
    by_cases none : rest.flatten = []
    · rw [none, List.append_nil] at same
      have empty : (pieces ends []).length = 0 := rfl
      rw [none] at ih
      exact ⟨.inl none, ih (by omega)⟩
    · rw [length_pieces, length_pieces, unfinished_append none, List.countP_append] at same
      rw [length_pieces] at more ih
      refine ⟨.inr ?_, ih (by omega)⟩
      rw [← Bool.toNat_eq_zero]
      omega

end Shared
