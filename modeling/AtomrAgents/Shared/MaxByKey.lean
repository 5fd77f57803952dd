import Mathlib.Data.List.Induction

set_option autoImplicit false

namespace Shared

variable {α : Type}

-- The last of the items whose key is largest, as iterators pick it.
def maxByKey (key : α → Nat) : List α → Option α
  | [] => none
  | item :: rest =>
    match maxByKey key rest with
    | none => some item
    | some best => if key item ≤ key best then some best else some item

theorem maxByKey_eq_none (key : α → Nat) (items : List α) :
    maxByKey key items = none ↔ items = [] := by
  cases items with
  | nil => simp [maxByKey]
  | cons item rest =>
    cases found : maxByKey key rest with
    | none => simp [maxByKey, found]
    | some best => by_cases le : key item ≤ key best <;> simp [maxByKey, found, le]

theorem maxByKey_snoc (key : α → Nat) (items : List α) (last : α) :
    maxByKey key (items ++ [last]) =
      match maxByKey key items with
      | none => some last
      | some best => if key best ≤ key last then some last else some best := by
  induction items with
  | nil => rfl
  | cons item rest ih =>
    cases found : maxByKey key rest with
    | none =>
      simp only [List.cons_append, maxByKey, ih, found]
    | some best =>
      by_cases new : key best ≤ key last <;> by_cases old : key item ≤ key best
      · have : key item ≤ key last := Nat.le_trans old new
        simp [maxByKey, ih, found, new, old, this]
      · simp [maxByKey, ih, found, new, old]
      · simp [maxByKey, ih, found, new, old]
      · have : ¬ key item ≤ key last := by omega
        simp [maxByKey, ih, found, new, old, this]

theorem maxByKey_max (key : α → Nat) (items : List α) (best : α)
    (found : maxByKey key items = some best) :
    best ∈ items ∧ ∀ item ∈ items, key item ≤ key best := by
  induction items generalizing best with
  | nil => simp [maxByKey] at found
  | cons item rest ih =>
    cases tail : maxByKey key rest with
    | none =>
      rw [maxByKey_eq_none] at tail
      subst tail
      simp only [maxByKey, Option.some.injEq] at found
      simp [found]
    | some top =>
      obtain ⟨member, bound⟩ := ih top tail
      simp only [maxByKey, tail] at found
      split at found
      · next le =>
        cases found
        simp_all
      · next lt =>
        cases found
        refine ⟨by simp, fun other inside => ?_⟩
        rcases List.mem_cons.mp inside with same | inside
        · simp [same]
        · have := bound other inside
          omega

theorem maxByKey_of_pairwise (key : α → Nat) (items : List α)
    (increasing : items.Pairwise fun a b => key a < key b) :
    maxByKey key items = items.getLast? := by
  induction items using List.reverseRecOn with
  | nil => rfl
  | append_singleton front last ih =>
    rw [List.pairwise_append] at increasing
    rw [maxByKey_snoc, List.getLast?_concat, ih increasing.1]
    cases found : front.getLast? with
    | none => rfl
    | some best =>
      have lt := increasing.2.2 best (List.mem_of_getLast? found) last (List.mem_singleton_self last)
      exact if_pos (Nat.le_of_lt lt)

end Shared
