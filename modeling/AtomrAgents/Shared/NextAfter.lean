import Mathlib.Order.Bounds.Basic

set_option autoImplicit false

namespace Shared

variable {T : Type} [LinearOrder T] {s p : T → Prop} {next : T → Option T} {a b c m n t x : T} {k : Nat}

def Next (s : T → Prop) (t n : T) : Prop := IsLeast {x | s x ∧ t < x} n

def visited (next : T → Option T) : Nat → T → List T
  | 0, _ => []
  | k + 1, t =>
    match next t with
    | none => []
    | some n => n :: visited next k n

omit [LinearOrder T] in
theorem visited_cons (found : next t = some n) : visited next (k + 1) t = n :: visited next k n := by
  rw [visited, found]

theorem Next.le (first : Next s t n) (member : s x) (after : t < x) : n ≤ x := first.2 ⟨member, after⟩

theorem Next.of_skip (onward : t ≤ c) (skipped : ∀ x, s x → t < x → x ≤ c → ¬ p x)
    (first : Next (fun x => s x ∧ p x) c m) : Next (fun x => s x ∧ p x) t m := by
  constructor
  · exact ⟨first.1.1, onward.trans_lt first.1.2⟩
  · intro x member
    by_cases later : c < x
    · exact first.le member.1 later
    · exact absurd member.1.2 (skipped x member.1.1 member.2 (not_lt.mp later))

theorem Next.between (first : Next s a n) (onward : a ≤ b) (before : b < n) : Next s b n :=
  ⟨⟨first.1.1, before⟩, fun _ member => first.le member.1 (onward.trans_lt member.2)⟩

omit [LinearOrder T] in
theorem visited_succ_subset (k : Nat) (t : T) : visited next k t ⊆ visited next (k + 1) t := by
  induction k generalizing t with
  | zero => simp [visited]
  | succ k ih =>
    cases found : next t with
    | none => simp [visited, found]
    | some n =>
      have later := ih n
      simp only [visited, found] at later ⊢
      exact List.cons_subset_cons n later

section

-- `next` need not be right where `valid` does not hold.
variable {valid : T → Prop} (least : ∀ t, valid t → ∀ n, next t = some n ↔ Next s t n) (points : ∀ x, s x → valid x)

include least points

theorem mem_visited_of_later (starts : valid a) (there : valid b) (member : x ∈ visited next k a) (onward : a ≤ b)
    (before : b < x) : x ∈ visited next k b := by
  induction k generalizing a with
  | zero => simp [visited] at member
  | succ k ih =>
    cases found : next a with
    | none => simp [visited, found] at member
    | some n =>
      have first := (least a starts n).mp found
      by_cases earlier : b < n
      · have same := (least b there n).mpr (first.between onward earlier)
        simpa [visited, found, same] using member
      · simp only [visited, found, List.mem_cons] at member
        cases member with
        | inl here => exact absurd before (here ▸ earlier)
        | inr later =>
          exact visited_succ_subset k b (ih (points n first.1.1) later (not_lt.mp earlier))

end

section

variable (sound : ∀ t n, next t = some n → Next s t n)

include sound

theorem mem_visited (member : x ∈ visited next k t) : s x ∧ t < x := by
  induction k generalizing t with
  | zero => simp [visited] at member
  | succ k ih =>
    cases found : next t with
    | none => simp [visited, found] at member
    | some n =>
      have first := (sound t n found).1
      simp only [visited, found, List.mem_cons] at member
      cases member with
      | inl here => exact here ▸ first
      | inr later => exact ⟨(ih later).1, first.2.trans (ih later).2⟩

theorem visited_increasing (k : Nat) (t : T) : (visited next k t).Pairwise (· < ·) := by
  induction k generalizing t with
  | zero => simp [visited]
  | succ k ih =>
    cases found : next t with
    | none => simp [visited, found]
    | some n =>
      simp only [visited, found, List.pairwise_cons]
      exact ⟨fun x member => (mem_visited sound member).2, ih n⟩

theorem visited_complete (point : s x) (after : t < x) (last : ∃ y ∈ visited next k t, x ≤ y) :
    x ∈ visited next k t := by
  induction k generalizing t with
  | zero => simp [visited] at last
  | succ k ih =>
    cases found : next t with
    | none => simp [visited, found] at last
    | some n =>
      simp only [visited, found, List.mem_cons] at last ⊢
      have first := sound t n found
      by_cases here : x = n
      · exact .inl here
      · right
        have later : n < x := lt_of_le_of_ne (first.le point after) (Ne.symm here)
        apply ih later
        cases last with
        | intro y reached =>
          cases reached.1 with
          | inl same => exact absurd (same ▸ reached.2) (not_le.mpr later)
          | inr member => exact ⟨y, member, reached.2⟩

end

omit [LinearOrder T] in
theorem next_of_visited (short : (visited next k t).length < k) :
    next ((visited next k t).getLast?.getD t) = none := by
  induction k generalizing t with
  | zero => simp at short
  | succ k ih =>
    cases found : next t with
    | none => simp [visited, found]
    | some n =>
      simp only [visited, found, List.length_cons, Nat.add_lt_add_iff_right] at short ⊢
      simpa [List.getLast?_cons] using ih short

end Shared
