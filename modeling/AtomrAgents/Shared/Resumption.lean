import Mathlib.Data.List.Basic
import Mathlib.Data.List.Nodup

set_option autoImplicit false

/-! A log is only appended to. Each pass over it starts at a mark before which everything has been read, and
may be stopped at any entry. What has been read is then a beginning of the log, and the entries were read for
the first time in the order of the log. -/

namespace Shared.Resumption

variable {α : Type} [BEq α] [LawfulBEq α] {log entries : List α} {n m k : Nat}

-- The first readings are the first `n` entries of the log.
def Covers (log entries : List α) (n : Nat) : Prop := n ≤ log.length ∧ entries.eraseDups = log.take n

omit [LawfulBEq α] in
theorem covers_nil (log : List α) : Covers log [] 0 := ⟨Nat.zero_le _, rfl⟩

omit [LawfulBEq α] in
theorem Covers.grow (covers : Covers log entries n) (more : List α) : Covers (log ++ more) entries n := by
  refine ⟨by rw [List.length_append]; exact Nat.le_add_right_of_le covers.1, ?_⟩
  rw [covers.2, List.take_append_of_le_length covers.1]

theorem eraseDups_of_nodup (distinct : log.Nodup) : log.eraseDups = log := by
  induction log with
  | nil => rfl
  | cons entry log ih =>
    obtain ⟨absent, distinct⟩ := List.nodup_cons.mp distinct
    have others : log.filter (fun other => !other == entry) = log := by
      rw [List.filter_eq_self]
      intro other member
      have apart : other ≠ entry := fun same => absent (same ▸ member)
      simpa using apart
    rw [List.eraseDups_cons, others, ih distinct]

theorem filter_eq_drop {β : Type} {p : β → Bool} {items : List β}
    (first : items.Pairwise fun a b => p b = true → p a = true) :
    items.filter (fun item => !p item) = items.drop (items.countP p) := by
  induction items with
  | nil => rfl
  | cons item items ih =>
    obtain ⟨here, later⟩ := List.pairwise_cons.mp first
    cases early : p item with
    | true =>
      rw [List.filter_cons_of_neg (by simp [early]), List.countP_cons_of_pos early, List.drop_succ_cons,
        ih later]
    | false =>
      have none (other : β) (member : other ∈ items) : p other = false := by
        cases late : p other with
        | false => rfl
        | true => rw [here other member late] at early; cases early
      have zero : items.countP p = 0 := List.countP_eq_zero.mpr fun other member => by
        simp [none other member]
      rw [List.countP_cons_of_neg (by simp [early]), zero, List.drop_zero, List.filter_eq_self]
      intro other member
      rcases List.mem_cons.mp member with rfl | member
      · simp [early]
      · simp [none other member]

theorem Covers.read (distinct : log.Nodup) (covers : Covers log entries n) (mark : m ≤ n)
    (within : m + k ≤ log.length) :
    Covers log (entries ++ (log.drop m).take k) (max n (m + k)) := by
  obtain ⟨inside, read⟩ := covers
  refine ⟨by omega, ?_⟩
  obtain ⟨front, back, rfl, length⟩ : ∃ front back, log = front ++ back ∧ front.length = n :=
    ⟨log.take n, log.drop n, (List.take_append_drop n log).symm, by rw [List.length_take]; omega⟩
  rw [List.take_left' length] at read
  have known (entry : α) : entry ∈ entries ↔ entry ∈ front := by rw [← read, List.mem_eraseDups]
  obtain ⟨-, distinctBack, disjoint⟩ := List.nodup_append.mp distinct
  have again : ((front.drop m).take k).removeAll entries = [] := by
    rw [List.removeAll, List.filter_eq_nil_iff]
    intro entry member
    have old := List.mem_of_mem_drop (List.mem_of_mem_take member)
    simpa [known] using old
  have new : (back.take (k - (n - m))).removeAll entries = back.take (k - (n - m)) := by
    rw [List.removeAll, List.filter_eq_self]
    intro entry member
    have fresh : entry ∉ front := fun old => disjoint entry old entry (List.mem_of_mem_take member) rfl
    simpa [known] using fresh
  have segment : ((front ++ back).drop m).take k =
      (front.drop m).take k ++ back.take (k - (n - m)) := by
    rw [List.drop_append_of_le_length (by omega), List.take_append, List.length_drop, length]
  have both : ((front.drop m).take k ++ back.take (k - (n - m))).removeAll entries =
      back.take (k - (n - m)) := by
    rw [List.removeAll, List.filter_append]
    rw [List.removeAll] at again new
    rw [again, new, List.nil_append]
  have whole : front.take (max n (m + k)) = front := List.take_of_length_le (by omega)
  rw [List.eraseDups_append, read, segment, both, eraseDups_of_nodup (distinctBack.sublist
    (List.take_sublist _ _)), List.take_append, whole, length]
  congr 2
  omega

end Shared.Resumption
