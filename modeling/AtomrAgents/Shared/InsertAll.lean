import Std.Data.ExtTreeMap
import Mathlib.Data.List.Nodup
import Mathlib.Data.List.Pairwise

set_option autoImplicit false

namespace Shared

variable {κ β : Type} {cmp : κ → κ → Ordering} [Std.TransCmp cmp] [Std.LawfulEqCmp cmp]

def insertAll (entries : List (κ × β)) (map : Std.ExtTreeMap κ β cmp) : Std.ExtTreeMap κ β cmp :=
  entries.foldl (fun map entry => map.insert entry.1 entry.2) map

def Ascending (cmp : κ → κ → Ordering) (entries : List (κ × β)) : Prop :=
  entries.Pairwise fun a b => cmp a.1 b.1 = .lt

omit [Std.LawfulEqCmp cmp] in
theorem Ascending.nodup {entries : List (κ × β)} (ascending : Ascending cmp entries) :
    (entries.map Prod.fst).Nodup := by
  rw [List.Nodup, List.pairwise_map]
  refine ascending.imp fun {a b} less same => ?_
  have equal : cmp a.1 b.1 = .eq := same ▸ Std.ReflCmp.compare_self
  cases less.symm.trans equal

omit [Std.LawfulEqCmp cmp] in
theorem ascending_toList (map : Std.ExtTreeMap κ β cmp) : Ascending cmp map.toList :=
  Std.ExtTreeMap.ordered_keys_toList

theorem getElem?_insertAll {entries : List (κ × β)} (distinct : (entries.map Prod.fst).Nodup)
    (map : Std.ExtTreeMap κ β cmp) (key : κ) (value : β) :
    (insertAll entries map)[key]? = some value ↔
      (key, value) ∈ entries ∨ key ∉ entries.map Prod.fst ∧ map[key]? = some value := by
  induction entries generalizing map with
  | nil => simp [insertAll]
  | cons entry entries ih =>
    obtain ⟨fresh, distinct⟩ := List.nodup_cons.mp distinct
    have step : insertAll (entry :: entries) map = insertAll entries (map.insert entry.1 entry.2) := rfl
    rw [step, ih distinct, Std.ExtTreeMap.getElem?_insert]
    obtain ⟨first, content⟩ := entry
    by_cases same : first = key
    · subst same
      have absent : (first, value) ∉ entries := fun member => fresh (List.mem_map.mpr ⟨_, member, rfl⟩)
      have itself : cmp first first = .eq := Std.ReflCmp.compare_self
      simp [absent, fresh, itself, eq_comm]
    · have different : cmp first key ≠ .eq := fun equal => same (Std.LawfulEqCmp.eq_of_compare equal)
      simp [different, Ne.symm same]

theorem insertAll_toList (map : Std.ExtTreeMap κ β cmp) : insertAll map.toList ∅ = map := by
  ext key value
  rw [getElem?_insertAll (ascending_toList map).nodup, Std.ExtTreeMap.mem_toList_iff_getElem?_eq_some]
  simp

theorem toList_insertAll {entries : List (κ × β)} (ascending : Ascending cmp entries) :
    (insertAll entries (∅ : Std.ExtTreeMap κ β cmp)).toList = entries := by
  have distinct := ascending.nodup
  have members : ∀ entry, entry ∈ (insertAll entries (∅ : Std.ExtTreeMap κ β cmp)).toList ↔ entry ∈ entries := by
    intro ⟨key, value⟩
    rw [Std.ExtTreeMap.mem_toList_iff_getElem?_eq_some, getElem?_insertAll distinct]
    simp
  have perm := (List.perm_ext_iff_of_nodup (ascending_toList _).nodup.of_map distinct.of_map).mpr members
  refine perm.eq_of_pairwise ?_ (ascending_toList _) ascending
  intro a b _ _ less greater
  have swapped : cmp a.1 b.1 = (cmp b.1 a.1).swap := Std.OrientedCmp.eq_swap
  rw [less, greater] at swapped
  cases swapped

end Shared
