import Mathlib.Algebra.BigOperators.Group.List.Basic
import Mathlib.Algebra.GroupWithZero.Nat

set_option autoImplicit false

namespace Shared

variable {α : Type} {weight : α → Nat} {capacity taken : Nat} {xs : List α} {x : α}

def greedy (weight : α → Nat) (capacity : Nat) : Nat → List α → List α
  | _, [] => []
  | taken, x :: rest =>
    if taken + weight x ≤ capacity then x :: greedy weight capacity (taken + weight x) rest
    else greedy weight capacity taken rest

def total (weight : α → Nat) (xs : List α) : Nat := (xs.map weight).sum

@[simp] theorem total_nil : total weight [] = 0 := rfl

@[simp] theorem total_cons (x : α) (xs : List α) : total weight (x :: xs) = weight x + total weight xs := by
  simp [total]

theorem total_perm {ys : List α} (same : xs.Perm ys) : total weight xs = total weight ys :=
  (same.map weight).sum_eq

theorem greedy_sublist (taken : Nat) (xs : List α) : (greedy weight capacity taken xs).Sublist xs := by
  induction xs generalizing taken with
  | nil => exact .refl []
  | cons x rest ih =>
    rw [greedy]
    split
    · exact (ih _).cons_cons x
    · exact (ih _).cons x

theorem greedy_fits (room : taken ≤ capacity) (xs : List α) :
    taken + total weight (greedy weight capacity taken xs) ≤ capacity := by
  induction xs generalizing taken with
  | nil => simpa [greedy] using room
  | cons x rest ih =>
    rw [greedy]
    split
    · next fits =>
      have after := ih fits
      rw [total_cons]
      omega
    · exact ih room

theorem greedy_maximal {before : α → α → Bool} (ordered : xs.Pairwise fun x y => before x y) (member : x ∈ xs)
    (out : x ∉ greedy weight capacity taken xs) :
    capacity < taken + total weight ((greedy weight capacity taken xs).filter (before · x)) + weight x := by
  induction xs generalizing taken with
  | nil => cases member
  | cons y rest ih =>
    obtain ⟨first, ordered⟩ := List.pairwise_cons.mp ordered
    rw [greedy] at out ⊢
    rcases List.mem_cons.mp member with rfl | later
    · split at out
      · exact absurd List.mem_cons_self out
      · next full =>
        rw [if_neg full]
        omega
    · split
      · next fits =>
        rw [if_pos fits] at out
        have rest_full := ih ordered later (mt (List.mem_cons_of_mem y) out)
        rw [List.filter_cons, if_pos (first x later), total_cons]
        omega
      · next full =>
        rw [if_neg full] at out
        exact ih ordered later out

end Shared
