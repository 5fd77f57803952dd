import Mathlib.Data.List.Basic
import Mathlib.Data.List.Nodup
import Mathlib.Order.Lattice

set_option autoImplicit false

/-! `INSERT .. ON CONFLICT DO UPDATE`, `UPDATE .. SET .. WHERE` and lookups by key. The rows of a table have
different keys, and no statement here changes the key of a row. -/

namespace Shared

@[ext] structure Table {ρ κ : Type} (key : ρ → κ) where
  rows : List ρ
  unique : (rows.map key).Nodup

namespace Table

variable {ρ κ : Type} {key : ρ → κ}

def empty : Table key := { rows := [], unique := List.nodup_nil }

theorem map_key_of_keeps {change : ρ → ρ} (keeps : ∀ row, key (change row) = key row)
    (rows : List ρ) : (rows.map change).map key = rows.map key := by
  simp [keeps]

def changeWhere (condition : ρ → Bool) (set : ρ → ρ) (row : ρ) : ρ :=
  if condition row then set row else row

theorem key_changeWhere (condition : ρ → Bool) {set : ρ → ρ} (keeps : ∀ row, key (set row) = key row)
    (row : ρ) : key (changeWhere condition set row) = key row := by
  rw [changeWhere]
  split
  · exact keeps row
  · rfl

def update (table : Table key) (condition : ρ → Bool) (set : ρ → ρ)
    (keeps : ∀ row, key (set row) = key row) : Table key where
  rows := table.rows.map (changeWhere condition set)
  unique := by
    rw [map_key_of_keeps (key_changeWhere condition keeps)]
    exact table.unique

def rowsAffected (table : Table key) (condition : ρ → Bool) : Nat := table.rows.countP condition

variable [DecidableEq κ]

def find (table : Table key) (k : κ) : Option ρ := table.rows.find? fun row => key row = k

def upsert (table : Table key) (new : ρ) : Table key where
  rows :=
    if key new ∈ table.rows.map key then
      table.rows.map fun row => if key row = key new then new else row
    else table.rows ++ [new]
  unique := by
    split
    · rw [map_key_of_keeps fun row => ?_]
      · exact table.unique
      · split
        · next same => exact same.symm
        · rfl
    · next absent =>
      rw [List.map_append, List.nodup_append]
      refine ⟨table.unique, by simp, ?_⟩
      rintro k member k' new' rfl
      rw [List.map_singleton, List.mem_singleton] at new'
      subst new'
      exact absent member

variable {table : Table key}

theorem find_eq_some_iff {k : κ} {row : ρ} : table.find k = some row ↔ row ∈ table.rows ∧ key row = k := by
  constructor
  · intro found
    exact ⟨List.mem_of_find?_eq_some found, by simpa using List.find?_some found⟩
  · rintro ⟨member, rfl⟩
    cases found : table.find (key row) with
    | none =>
      have absent := List.find?_eq_none.mp found row member
      simp at absent
    | some other =>
      have other_ := List.mem_of_find?_eq_some found
      have same : key other = key row := by simpa using List.find?_some found
      rw [List.inj_on_of_nodup_map table.unique other_ member same]

theorem find_update (condition : ρ → Bool) (set : ρ → ρ) (keeps : ∀ row, key (set row) = key row)
    (k : κ) : (table.update condition set keeps).find k =
      (table.find k).map (changeWhere condition set) := by
  have same : (fun row => decide (key row = k)) ∘ changeWhere condition set =
      fun row => decide (key row = k) := by
    funext row
    simp [key_changeWhere condition keeps]
  simp only [find, update, List.find?_map, same]

theorem mem_rows_upsert (table : Table key) (new row : ρ) : row ∈ (table.upsert new).rows ↔
    row = new ∨ row ∈ table.rows ∧ key row ≠ key new := by
  by_cases present : key new ∈ table.rows.map key
  · simp only [upsert, present, if_true, List.mem_map]
    constructor
    · rintro ⟨old, member, rfl⟩
      by_cases same : key old = key new
      · exact .inl (if_pos same)
      · rw [if_neg same]
        exact .inr ⟨member, same⟩
    · rintro (rfl | ⟨member, other⟩)
      · obtain ⟨old, member, same⟩ := List.mem_map.mp present
        exact ⟨old, member, if_pos same⟩
      · exact ⟨row, member, if_neg other⟩
  · simp only [upsert, present, if_false, List.mem_append, List.mem_singleton]
    constructor
    · rintro (member | rfl)
      · exact .inr ⟨member, fun same => present (List.mem_map.mpr ⟨row, member, same⟩)⟩
      · exact .inl rfl
    · rintro (rfl | ⟨member, _⟩)
      · exact .inr rfl
      · exact .inl member

theorem find_upsert (table : Table key) (new : ρ) (k : κ) :
    (table.upsert new).find k = if key new = k then some new else table.find k := by
  apply Option.ext
  intro row
  rw [find_eq_some_iff, mem_rows_upsert]
  split
  · next same =>
    subst same
    rw [Option.some_inj]
    constructor
    · rintro ⟨rfl | ⟨-, other⟩, same⟩
      · rfl
      · exact absurd same other
    · rintro rfl
      exact ⟨.inl rfl, rfl⟩
  · next other =>
    rw [find_eq_some_iff]
    constructor
    · rintro ⟨rfl | ⟨member, -⟩, same⟩
      · exact absurd same other
      · exact ⟨member, same⟩
    · rintro ⟨member, rfl⟩
      exact ⟨.inr ⟨member, fun same => other same.symm⟩, rfl⟩

theorem rowsAffected_eq_one_iff {condition : ρ → Bool} {k : κ}
    (about : ∀ row, condition row = true → key row = k) :
    table.rowsAffected condition = 1 ↔ ∃ row, table.find k = some row ∧ condition row = true := by
  have one : (table.rows.filter condition).Nodup := (table.unique.of_map key).filter _
  constructor
  · intro counted
    have positive : 0 < table.rows.countP condition := by
      rw [rowsAffected] at counted
      omega
    obtain ⟨row, member, holds⟩ := List.countP_pos_iff.mp positive
    exact ⟨row, find_eq_some_iff.mpr ⟨member, about row holds⟩, holds⟩
  · rintro ⟨row, found, holds⟩
    obtain ⟨member, rfl⟩ := find_eq_some_iff.mp found
    have alone : table.rows.filter condition = [row] := by
      apply List.Perm.eq_singleton
      rw [List.perm_ext_iff_of_nodup one (List.nodup_singleton row)]
      intro other
      rw [List.mem_filter, List.mem_singleton]
      constructor
      · rintro ⟨inside, also⟩
        exact List.inj_on_of_nodup_map table.unique inside member (about other also)
      · rintro rfl
        exact ⟨member, holds⟩
    rw [rowsAffected, List.countP_eq_length_filter, alone]
    rfl

theorem rows_upsert_perm (table : Table key) (new : ρ) :
    (table.upsert new).rows.Perm (table.rows.filter (fun row => key row ≠ key new) ++ [new]) := by
  have distinct : (table.rows.filter (fun row => key row ≠ key new) ++ [new]).Nodup := by
    rw [List.nodup_append]
    refine ⟨(table.unique.of_map key).filter _, by simp, ?_⟩
    rintro row member other last rfl
    rw [List.mem_singleton] at last
    subst last
    simp at member
  rw [List.perm_ext_iff_of_nodup ((table.upsert new).unique.of_map key) distinct]
  intro row
  simp [mem_rows_upsert, or_comm]

theorem filter_rows_upsert (table : Table key) (part : κ → Bool) {new : ρ} (outside : part (key new) = false) :
    (table.upsert new).rows.filter (fun row => part (key row)) =
      table.rows.filter fun row => part (key row) := by
  rw [upsert]
  split
  next =>
    rw [List.filter_map]
    have same : ((fun row => part (key row)) ∘ fun row => if key row = key new then new else row) =
        fun row => part (key row) := by
      funext row
      by_cases same : key row = key new <;> simp [same, outside]
    rw [same]
    conv_rhs => rw [← List.map_id (table.rows.filter fun row => part (key row))]
    apply List.map_congr_left
    intro row member
    have inside := (List.mem_filter.mp member).2
    rw [if_neg, id_eq]
    intro same
    rw [same, outside] at inside
    cases inside
  next => simp [outside]

theorem rows_upsert_of_absent {new : ρ} (absent : table.find (key new) = none) :
    (table.upsert new).rows = table.rows ++ [new] := by
  have other : key new ∉ table.rows.map key := by
    rw [List.mem_map]
    rintro ⟨row, member, same⟩
    have found := find_eq_some_iff.mpr ⟨member, same⟩
    rw [absent] at found
    cases found
  rw [upsert]
  exact if_neg other

theorem filter_map_of_kept {part : ρ → Bool} {change : ρ → ρ} {rows : List ρ}
    (same : ∀ row ∈ rows, part (change row) = part row)
    (kept : ∀ row ∈ rows, part row = true → change row = row) :
    (rows.map change).filter part = rows.filter part := by
  induction rows with
  | nil => rfl
  | cons row rows ih =>
    rw [List.forall_mem_cons] at same kept
    rw [List.map_cons, List.filter_cons, List.filter_cons, same.1, ih same.2 kept.2]
    split
    · next inside => rw [kept.1 inside]
    · rfl

theorem filter_rows_upsert_of_outside (part : ρ → Bool) {new : ρ} (outside : part new = false)
    (replaced : ∀ old, table.find (key new) = some old → part old = false) :
    (table.upsert new).rows.filter part = table.rows.filter part := by
  cases absent : table.find (key new) with
  | none => simp [rows_upsert_of_absent absent, outside]
  | some old =>
    obtain ⟨member, named⟩ := find_eq_some_iff.mp absent
    have present : key new ∈ table.rows.map key := List.mem_map.mpr ⟨old, member, named⟩
    have only (row : ρ) (there : row ∈ table.rows) (same : key row = key new) : part row = false :=
      replaced row (find_eq_some_iff.mpr ⟨there, same⟩)
    rw [upsert]
    simp only [present, if_true]
    apply filter_map_of_kept
    · intro row there
      split
      · next same => rw [outside, only row there same]
      · rfl
    · intro row there inside
      rw [if_neg]
      intro same
      rw [only row there same] at inside
      cases inside

section Delete

-- DELETE .. WHERE the key is `k`, or the removal from a map.
def delete (table : Table key) (k : κ) : Table key where
  rows := table.rows.filter fun row => key row ≠ k
  unique := table.unique.sublist (List.filter_sublist.map key)

theorem find_delete (table : Table key) (k k' : κ) :
    (table.delete k).find k' = if k' = k then none else table.find k' := by
  apply Option.ext
  intro row
  rw [find_eq_some_iff, delete, List.mem_filter]
  split
  · next same =>
    subst same
    simp +contextual
  · next other =>
    rw [find_eq_some_iff]
    constructor
    · rintro ⟨⟨member, -⟩, same⟩
      exact ⟨member, same⟩
    · rintro ⟨member, rfl⟩
      exact ⟨⟨member, by simpa using other⟩, rfl⟩

theorem length_delete {k : κ} {row : ρ} (found : table.find k = some row) :
    (table.delete k).rows.length + 1 = table.rows.length := by
  have one : table.rows.countP (fun row => key row = k) = 1 :=
    (rowsAffected_eq_one_iff fun _ holds => of_decide_eq_true holds).mpr
      ⟨row, found, decide_eq_true (find_eq_some_iff.mp found).2⟩
  have split := List.length_eq_countP_add_countP (fun row => key row = k) (l := table.rows)
  simp only [delete, ← List.countP_eq_length_filter, decide_not]
  simp only [Bool.not_eq_true, Bool.decide_eq_false] at split
  omega

theorem delete_upsert_of_absent {new : ρ} (absent : table.find (key new) = none) :
    (table.upsert new).delete (key new) = table := by
  have kept : table.rows.filter (fun row => key row ≠ key new) = table.rows := by
    rw [List.filter_eq_self]
    intro row member
    have other := List.find?_eq_none.mp absent row member
    simpa using other
  apply Table.ext
  simp only [delete, rows_upsert_of_absent absent, List.filter_append, kept]
  simp

end Delete

section Written

variable {log : List ρ}

-- The table holds what the log has last under each key.
def Written (table : Table key) (log : List ρ) : Prop :=
  ∀ k, table.find k = log.reverse.find? fun row => key row = k

omit table in
theorem Written.empty : Written (Table.empty : Table key) [] := fun _ => rfl

theorem Written.upsert (written : table.Written log) (new : ρ) :
    (table.upsert new).Written (log ++ [new]) := by
  intro k
  rw [find_upsert, List.reverse_append, List.reverse_singleton, List.singleton_append,
    List.find?_cons]
  by_cases same : key new = k
  · simp [same]
  · simp [same, written k]

theorem Written.mem_log (written : table.Written log) {row : ρ} (member : row ∈ table.rows) :
    row ∈ log := by
  have found := find_eq_some_iff.mpr ⟨member, rfl⟩
  rw [written] at found
  exact List.mem_reverse.mp (List.mem_of_find?_eq_some found)

theorem Written.filter_perm (written : table.Written log) (part : κ → Bool)
    (once : ((log.filter fun row => part (key row)).map key).Nodup) :
    (table.rows.filter fun row => part (key row)).Perm (log.filter fun row => part (key row)) := by
  rw [List.perm_ext_iff_of_nodup ((table.unique.of_map key).filter _) (once.of_map key)]
  intro row
  simp only [List.mem_filter, and_congr_left_iff]
  intro inside
  refine ⟨written.mem_log, fun member => ?_⟩
  cases found : table.find (key row) with
  | none =>
    rw [written, List.find?_eq_none] at found
    have other := found row (List.mem_reverse.mpr member)
    simp at other
  | some other =>
    obtain ⟨stored, same⟩ := find_eq_some_iff.mp found
    have both : other ∈ log.filter fun row => part (key row) :=
      List.mem_filter.mpr ⟨written.mem_log stored, by rw [same]; exact inside⟩
    have this : row ∈ log.filter fun row => part (key row) := List.mem_filter.mpr ⟨member, inside⟩
    rwa [← List.inj_on_of_nodup_map once both this same]

end Written

end Table

end Shared

namespace Shared

variable {ρ β : Type} [LinearOrder β]

-- `ORDER BY .. ASC`; items of the same rank keep their order.
def orderBy (rank : ρ → β) (items : List ρ) : List ρ := items.mergeSort fun a b => rank a ≤ rank b

variable {rank : ρ → β} {items : List ρ}

theorem orderBy_perm (rank : ρ → β) (items : List ρ) : (orderBy rank items).Perm items :=
  List.mergeSort_perm items _

theorem pairwise_orderBy (rank : ρ → β) (items : List ρ) :
    (orderBy rank items).Pairwise fun a b => rank a ≤ rank b := by
  have sorted : (orderBy rank items).Pairwise fun a b => decide (rank a ≤ rank b) :=
    List.pairwise_mergeSort
      (fun a b c ab bc => by
        simp only [decide_eq_true_iff] at ab bc ⊢
        exact le_trans ab bc)
      (fun a b => by simpa using le_total (rank a) (rank b)) items
  exact sorted.imp fun le => by simpa using le

theorem strictly_increasing_orderBy (distinct : (items.map rank).Nodup) :
    (orderBy rank items).Pairwise fun a b => rank a < rank b := by
  have apart := ((orderBy_perm rank items).map rank).nodup_iff.mpr distinct
  rw [List.Nodup, List.pairwise_map] at apart
  exact ((pairwise_orderBy rank items).and apart).imp fun both => lt_of_le_of_ne both.1 both.2

theorem orderBy_map {ρ' : Type} (f : ρ' → ρ) (items : List ρ') :
    orderBy rank (items.map f) = (orderBy (fun item => rank (f item)) items).map f := by
  symm
  apply List.map_mergeSort
  intro a _ b _
  rfl

theorem orderBy_eq {ordered : List ρ} (same : items.Perm ordered)
    (increasing : ordered.Pairwise fun a b => rank a < rank b) : orderBy rank items = ordered := by
  apply List.Perm.eq_of_pairwise _ (pairwise_orderBy rank items) (increasing.imp le_of_lt)
    ((orderBy_perm rank items).trans same)
  intro a b here there le ge
  have member : a ∈ ordered := same.mem_iff.mp ((orderBy_perm rank items).mem_iff.mp here)
  have distinct : (ordered.map rank).Nodup := List.pairwise_map.mpr (increasing.imp ne_of_lt)
  exact List.inj_on_of_nodup_map distinct member there (le_antisymm le ge)

theorem orderBy_congr {items' : List ρ} (same : items.Perm items') (distinct : (items'.map rank).Nodup) :
    orderBy rank items = orderBy rank items' :=
  orderBy_eq (same.trans (orderBy_perm rank items').symm) (strictly_increasing_orderBy distinct)

end Shared
