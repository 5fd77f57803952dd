import Mathlib.Algebra.Order.Group.Int
import Mathlib.Algebra.Order.Group.Unbundled.Basic
import Mathlib.Data.List.Basic
import Mathlib.Order.Lattice

set_option autoImplicit false

namespace Shared.SlidingWindow

section FilterDropWhile

variable {τ : Type} {p gone : τ → Bool} {kept : List τ}

theorem filter_sublist_dropWhile (stays : ∀ x ∈ kept, p x = true → gone x = false) :
    List.Sublist (kept.filter p) (kept.dropWhile gone) := by
  induction kept with
  | nil => exact List.Sublist.slnil
  | cons x rest ih =>
    have later := ih fun y member => stays y (List.mem_cons_of_mem x member)
    cases goes : gone x with
    | true =>
      have dropped : p x = false := by
        cases keeps : p x with
        | false => rfl
        | true =>
          rw [stays x List.mem_cons_self keeps] at goes
          cases goes
      rw [List.filter_cons_of_neg (by simp [dropped]), List.dropWhile_cons_of_pos goes]
      exact later
    | false =>
      rw [List.dropWhile_cons_of_neg (by simp [goes])]
      exact List.filter_sublist

end FilterDropWhile

variable {τ α : Type} [AddCommGroup α] [LinearOrder α] (time : τ → α) (size : α)

def Fresh (now event : τ) : Prop := time now - time event < size

def Inside (start : α) (event : τ) : Prop := start ≤ time event ∧ time event < start + size

instance (now event : τ) : Decidable (Fresh time size now event) :=
  inferInstanceAs (Decidable (time now - time event < size))

instance (start : α) (event : τ) : Decidable (Inside time size start event) :=
  inferInstanceAs (Decidable (start ≤ time event ∧ time event < start + size))

-- What still counts at some time from `now` on has been kept.
def Retains (kept events : List τ) (now : τ) : Prop :=
  ∀ later, time now ≤ time later →
    List.Sublist (events.filter fun event => Fresh time size later event) kept

def Limited (limit : Nat) (events : List τ) : Prop :=
  ∀ start, events.countP (fun event => Inside time size start event) ≤ limit

variable {time size} {kept events : List τ} {now next : τ} {limit : Nat}

theorem retains_nil (kept : List τ) (now : τ) : Retains time size kept [] now :=
  fun _ _ => List.nil_sublist kept

theorem limited_nil (limit : Nat) : Limited time size limit [] := fun _ => Nat.zero_le limit

theorem Retains.mono (retains : Retains time size kept events now) (le : time now ≤ time next) :
    Retains time size kept events next :=
  fun later more => retains later (le.trans more)

theorem Retains.admit (retains : Retains time size kept events now) :
    Retains time size (kept ++ [now]) (events ++ [now]) now := by
  intro later le
  rw [List.filter_append]
  exact (retains later le).append List.filter_sublist

variable [IsOrderedAddMonoid α]

theorem Retains.dropWhile (retains : Retains time size kept events now) {gone : τ → Bool}
    (stays : ∀ event ∈ kept, Fresh time size now event → gone event = false) :
    Retains time size (kept.dropWhile gone) events now := by
  intro later le
  have before := (retains later le).filter fun event => Fresh time size later event
  rw [List.filter_filter] at before
  simp only [Bool.and_self] at before
  apply before.trans
  apply filter_sublist_dropWhile
  intro event member fresh
  have earlier : time now - time event ≤ time later - time event := sub_le_sub_right le _
  exact stays event member (lt_of_le_of_lt earlier (of_decide_eq_true fresh))

theorem Limited.admit (limited : Limited time size limit events)
    (retains : Retains time size kept events now) (room : kept.length < limit) :
    Limited time size limit (events ++ [now]) := by
  intro start
  rw [List.countP_append, List.countP_singleton]
  split
  · next inside =>
    obtain ⟨-, before⟩ := of_decide_eq_true inside
    have counts : events.countP (fun event => Inside time size start event) ≤
        events.countP (fun event => Fresh time size now event) := by
      apply List.countP_mono_left
      intro event _ there
      obtain ⟨after, -⟩ := of_decide_eq_true there
      have fresh : time now - time event < size :=
        sub_lt_iff_lt_add'.mpr (lt_of_lt_of_le before (add_le_add_left after size))
      exact decide_eq_true fresh
    have few := (retains now le_rfl).length_le
    rw [← List.countP_eq_length_filter] at few
    omega
  · exact limited start

end Shared.SlidingWindow
