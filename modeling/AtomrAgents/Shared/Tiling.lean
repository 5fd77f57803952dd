import Mathlib.Data.List.Basic

set_option autoImplicit false

namespace Shared

variable {α β : Type} {number : α → Nat} {bounds : α → Nat × Nat} {xs ys : List α} {x : α} {a b k : Nat}

def Numbered (number : α → Nat) (xs : List α) : Prop := ∀ (i : Nat) x, xs[i]? = some x → number x = i

theorem Numbered.front (numbered : Numbered number (xs ++ ys)) : Numbered number xs := by
  intro i x found
  exact numbered i x ((List.getElem?_append_left (List.getElem?_eq_some_iff.mp found).1).trans found)

theorem Numbered.concat (numbered : Numbered number xs) (next : number x = xs.length) :
    Numbered number (xs ++ [x]) := by
  intro i y found
  by_cases old : i < xs.length
  · exact numbered i y ((List.getElem?_append_left old).symm.trans found)
  · rw [List.getElem?_append_right (by omega), List.getElem?_singleton] at found
    split at found
    · rw [Option.some_inj] at found
      subst found
      omega
    · cases found

theorem Numbered.of_prefix (numbered : Numbered number ys) (front : xs <+: ys) : Numbered number xs := by
  obtain ⟨rest, rfl⟩ := front
  exact numbered.front

theorem Numbered.lt (numbered : Numbered number xs) (member : x ∈ xs) : number x < xs.length := by
  obtain ⟨i, found⟩ := List.mem_iff_getElem?.mp member
  rw [numbered i x found]
  exact (List.getElem?_eq_some_iff.mp found).1

theorem Numbered.le_of_mem_drop (numbered : Numbered number xs) (member : x ∈ xs.drop k) : k ≤ number x := by
  obtain ⟨i, found⟩ := List.mem_iff_getElem?.mp member
  rw [List.getElem?_drop] at found
  rw [numbered _ x found]
  exact Nat.le_add_right k i

theorem Numbered.lt_of_mem_take (numbered : Numbered number xs) (member : x ∈ xs.take k) : number x < k := by
  have front := (numbered.of_prefix (List.take_prefix k xs)).lt member
  rw [List.length_take] at front
  omega

theorem Numbered.filter_le (numbered : Numbered number xs) (k : Nat) :
    (xs.filter fun x => k ≤ number x) = xs.drop k := by
  conv_lhs => rw [← List.take_append_drop k xs]
  rw [List.filter_append, List.filter_eq_nil_iff.mpr, List.filter_eq_self.mpr, List.nil_append]
  · intro x member
    exact decide_eq_true (numbered.le_of_mem_drop member)
  · intro x member
    have less := numbered.lt_of_mem_take member
    simpa using less

theorem Numbered.getLast (numbered : Numbered number xs) (last : xs.getLast? = some x) :
    number x + 1 = xs.length := by
  rw [List.getLast?_eq_getElem?] at last
  have bound := (List.getElem?_eq_some_iff.mp last).1
  rw [numbered _ x last]
  omega

-- The spans of the items follow one another from `a` to before `b`.
def Tiles (bounds : α → Nat × Nat) : Nat → List α → Nat → Prop
  | a, [], b => a = b
  | a, x :: rest, b => (bounds x).1 = a ∧ a ≤ (bounds x).2 ∧ Tiles bounds ((bounds x).2 + 1) rest b

theorem Tiles.concat (tiles : Tiles bounds a xs (bounds x).1) (ordered : (bounds x).1 ≤ (bounds x).2) :
    Tiles bounds a (xs ++ [x]) ((bounds x).2 + 1) := by
  induction xs generalizing a with
  | nil => exact ⟨tiles.symm, tiles ▸ ordered, rfl⟩
  | cons y rest ih => exact ⟨tiles.1, tiles.2.1, ih tiles.2.2⟩

theorem Tiles.covers (tiles : Tiles bounds a xs b) (from_ : a ≤ k) (below : k < b) :
    ∃ x ∈ xs, (bounds x).1 ≤ k ∧ k ≤ (bounds x).2 := by
  induction xs generalizing a with
  | nil => exact absurd below (Nat.not_lt.mpr (tiles ▸ from_))
  | cons x rest ih =>
    by_cases here : k ≤ (bounds x).2
    · exact ⟨x, List.mem_cons_self, tiles.1 ▸ from_, here⟩
    · obtain ⟨y, member, inside⟩ := ih tiles.2.2 (Nat.lt_of_not_le here)
      exact ⟨y, List.mem_cons_of_mem x member, inside⟩

end Shared
