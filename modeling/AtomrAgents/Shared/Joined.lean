import Mathlib.Data.List.Basic

set_option autoImplicit false

namespace Shared

variable {α : Type} {s : α} {a b a' b' : List α}

-- The piece `t` goes from the first part to the second one.
def Shifted (s : α) (a b a' b' : List α) : Prop := ∃ t, a = a' ++ s :: t ∧ b' = t ++ s :: b

theorem joined_eq_iff : a ++ s :: b = a' ++ s :: b' ↔
    a = a' ∧ b = b' ∨ Shifted s a b a' b' ∨ Shifted s a' b' a b := by
  rw [List.append_eq_append_iff]
  constructor
  · rintro (⟨t, first, second⟩ | ⟨t, first, second⟩)
    · cases t with
      | nil =>
        cases second
        exact .inl ⟨(first.trans (List.append_nil a)).symm, rfl⟩
      | cons c t =>
        cases second
        exact .inr (.inr ⟨t, first, rfl⟩)
    · cases t with
      | nil =>
        cases second
        exact .inl ⟨first.trans (List.append_nil a'), rfl⟩
      | cons c t =>
        cases second
        exact .inr (.inl ⟨t, first, rfl⟩)
  · rintro (⟨rfl, rfl⟩ | ⟨t, rfl, rfl⟩ | ⟨t, rfl, rfl⟩)
    · exact .inl ⟨[], by simp, by simp⟩
    · exact .inr ⟨s :: t, rfl, rfl⟩
    · exact .inl ⟨s :: t, rfl, rfl⟩

theorem Shifted.mem (shifted : Shifted s a b a' b') : s ∈ a := by
  obtain ⟨t, rfl, -⟩ := shifted
  simp

theorem Shifted.mem_right (shifted : Shifted s a b a' b') : s ∈ b' := by
  obtain ⟨t, -, rfl⟩ := shifted
  simp

theorem Shifted.ne (shifted : Shifted s a b a' b') : a ≠ a' := by
  obtain ⟨t, rfl, -⟩ := shifted
  simp

theorem joined_inj_of_not_mem (plain : s ∉ a) (plain' : s ∉ a') :
    a ++ s :: b = a' ++ s :: b' ↔ a = a' ∧ b = b' := by
  rw [joined_eq_iff]
  constructor
  · rintro (same | shifted | shifted)
    · exact same
    · exact absurd shifted.mem plain
    · exact absurd shifted.mem plain'
  · exact .inl

theorem joined_inj_of_not_mem_right (plain : s ∉ b) (plain' : s ∉ b') :
    a ++ s :: b = a' ++ s :: b' ↔ a = a' ∧ b = b' := by
  rw [joined_eq_iff]
  constructor
  · rintro (same | shifted | shifted)
    · exact same
    · exact absurd shifted.mem_right plain'
    · exact absurd shifted.mem_right plain
  · exact .inl

end Shared
