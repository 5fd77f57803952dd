import Mathlib.Algebra.GroupWithZero.Nat
import Mathlib.Data.List.Basic
import Mathlib.Data.List.Sort
import Mathlib.Logic.Function.Basic
import Mathlib.Order.Compare
import Std.Data.ExtTreeMap

set_option autoImplicit false

/-! Records are folded into a map from their keys, each into the entry of its key. What an entry comes to is
what folding the records with that key comes to. -/

namespace Shared

section GroupedFold

variable {ρ κ μ σ : Type} [DecidableEq κ] (key : ρ → Option κ) (add : μ → ρ → μ)

def credit (entries : κ → μ) (record : ρ) : κ → μ :=
  match key record with
  | some k => Function.update entries k (add (entries k) record)
  | none => entries

variable {key add}

theorem foldl_of_credit {step : σ → ρ → σ} (entries : σ → κ → μ)
    (credited : ∀ state record, entries (step state record) = credit key add (entries state) record)
    (state : σ) (records : List ρ) (k : κ) :
    entries (records.foldl step state) k =
      (records.filter fun record => key record = some k).foldl add (entries state k) := by
  induction records generalizing state with
  | nil => rfl
  | cons record rest ih =>
    rw [List.foldl_cons, ih, credited]
    cases here : key record with
    | none => simp [credit, here]
    | some own =>
      by_cases same : own = k
      · simp [credit, here, same]
      · simp [credit, here, same, Function.update_of_ne (Ne.symm same)]

end GroupedFold

section Sum

variable {ρ : Type} (amount : ρ → Nat) {part whole : ρ → Bool}

theorem sum_filter_add (inside : ∀ record, part record = true → whole record = true) (records : List ρ) :
    ((records.filter whole).map amount).sum = ((records.filter part).map amount).sum +
      ((records.filter fun record => whole record && !part record).map amount).sum := by
  induction records with
  | nil => rfl
  | cons record rest ih =>
    cases there : whole record with
    | false =>
      have outside : part record = false := by
        cases here : part record with
        | false => rfl
        | true =>
          rw [inside record here] at there
          cases there
      simp [there, outside, ih]
    | true =>
      cases here : part record with
      | false =>
        simp only [List.filter_cons, there, here, Bool.not_false, Bool.and_self, if_true, List.map_cons,
          List.sum_cons, Bool.false_eq_true, if_false]
        omega
      | true =>
        simp only [List.filter_cons, there, here, Bool.not_true, Bool.and_false, if_true, List.map_cons,
          List.sum_cons, Bool.false_eq_true, if_false]
        omega

theorem sum_filter_le (part : ρ → Bool) (records : List ρ) :
    ((records.filter part).map amount).sum ≤ (records.map amount).sum := by
  have inside : ∀ record, part record = true → (fun _ : ρ => true) record = true := fun _ _ => rfl
  have split := sum_filter_add amount inside records
  rw [List.filter_true] at split
  omega

theorem sum_filter_eq_iff (inside : ∀ record, part record = true → whole record = true)
    (records : List ρ) :
    ((records.filter whole).map amount).sum = ((records.filter part).map amount).sum ↔
      ∀ record ∈ records, whole record = true → part record = false → amount record = 0 := by
  rw [sum_filter_add amount inside, Nat.add_eq_left, List.sum_eq_zero_iff_forall_eq_nat]
  simp only [List.mem_map, List.mem_filter, Bool.and_eq_true, Bool.not_eq_true']
  constructor
  · intro none record member there outside
    exact none _ ⟨record, ⟨member, there, outside⟩, rfl⟩
  · rintro none _ ⟨record, ⟨member, there, outside⟩, rfl⟩
    exact none record member there outside

end Sum

end Shared

namespace Shared

variable {ρ μ : Type} {slot : ρ → Nat} {update : μ → ρ → μ} {empty : μ} {records : List ρ} {k : Nat}

def fill (slot : ρ → Nat) (update : μ → ρ → μ) (empty : μ) (slots : Std.ExtTreeMap Nat μ compare) (record : ρ) :
    Std.ExtTreeMap Nat μ compare :=
  slots.insert (slot record) (update (slots[slot record]?.getD empty) record)

def fillAll (slot : ρ → Nat) (update : μ → ρ → μ) (empty : μ) (records : List ρ) : Std.ExtTreeMap Nat μ compare :=
  records.foldl (fill slot update empty) ∅

theorem fill_credit (slot : ρ → Nat) (update : μ → ρ → μ) (empty : μ) (slots : Std.ExtTreeMap Nat μ compare)
    (record : ρ) :
    (fun k => (fill slot update empty slots record)[k]?) =
      credit (fun record => some (slot record)) (fun held record => some (update (held.getD empty) record))
        (fun k => slots[k]?) record := by
  funext k
  by_cases same : slot record = k
  · simp [fill, credit, same]
  · simp [fill, credit, Std.ExtTreeMap.getElem?_insert, same, Function.update_of_ne (Ne.symm same)]

theorem foldl_some (held : μ) (records : List ρ) :
    records.foldl (fun held record => some (update (held.getD empty) record)) (some held) =
      some (records.foldl update held) := by
  induction records generalizing held with
  | nil => rfl
  | cons record rest ih => exact ih (update held record)

def ownRecords (slot : ρ → Nat) (k : Nat) (records : List ρ) : List ρ := records.filter (slot · = k)

theorem getElem?_fillAll (k : Nat) :
    (fillAll slot update empty records)[k]? =
      if ownRecords slot k records = [] then none
      else some ((ownRecords slot k records).foldl update empty) := by
  have held := foldl_of_credit (fun (slots : Std.ExtTreeMap Nat μ compare) k => slots[k]?)
    (fill_credit slot update empty) ∅ records k
  simp only [Option.some.injEq, Std.ExtTreeMap.getElem?_empty] at held
  rw [fillAll, held, ← ownRecords]
  cases ownRecords slot k records with
  | nil => rfl
  | cons record rest => exact foldl_some (update empty record) rest

theorem toList_eq {slots : Std.ExtTreeMap Nat μ compare} {entries : List (Nat × μ)}
    (increasing : entries.Pairwise fun a b => a.1 < b.1)
    (lookup : ∀ k v, slots[k]? = some v ↔ (k, v) ∈ entries) : slots.toList = entries := by
  have ordered : slots.toList.Pairwise fun a b => a.1 < b.1 :=
    slots.ordered_keys_toList.imp Nat.compare_eq_lt.mp
  have nodup {xs : List (Nat × μ)} (sorted : xs.Pairwise fun a b => a.1 < b.1) : xs.Nodup :=
    sorted.imp fun less same => Nat.ne_of_lt less (congrArg Prod.fst same)
  refine List.Perm.eq_of_pairwise (fun a b _ _ less more => ?_) ordered increasing ?_
  · exact absurd less (Nat.lt_asymm more)
  · rw [List.perm_ext_iff_of_nodup (nodup ordered) (nodup increasing)]
    intro entry
    rw [← lookup entry.1 entry.2, ← Std.ExtTreeMap.mem_toList_iff_getElem?_eq_some]

theorem ownRecords_eq_nil : ownRecords slot k records = [] ↔ ∀ record ∈ records, slot record ≠ k := by
  simp [ownRecords, List.filter_eq_nil_iff]

theorem toList_fillAll {numbers : List Nat} (increasing : numbers.Pairwise (· < ·))
    (opened : ∀ k, k ∈ numbers ↔ ∃ record ∈ records, slot record = k) :
    (fillAll slot update empty records).toList =
      numbers.map fun k => (k, (ownRecords slot k records).foldl update empty) := by
  apply toList_eq
  · rw [List.pairwise_map]
    exact increasing
  · intro k v
    rw [getElem?_fillAll, List.mem_map]
    by_cases none : ownRecords slot k records = []
    · rw [if_pos none]
      rw [ownRecords_eq_nil] at none
      constructor
      · exact nofun
      · rintro ⟨number, member, same⟩
        cases same
        obtain ⟨record, inside, here⟩ := (opened k).mp member
        exact absurd here (none record inside)
    · rw [if_neg none]
      rw [ownRecords_eq_nil] at none
      push Not at none
      constructor
      · intro same
        cases same
        exact ⟨k, (opened k).mpr none, rfl⟩
      · rintro ⟨number, -, same⟩
        cases same
        rfl

end Shared
