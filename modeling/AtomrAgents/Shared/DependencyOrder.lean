import Mathlib.Data.Fintype.Card
import Mathlib.Data.List.Chain
import Mathlib.Data.Set.Finite.List
import Mathlib.Logic.Relation

set_option autoImplicit false

namespace Shared

variable {α : Type} {r : α → α → Prop} {order : List α} {a x : α}

def Acyclic (r : α → α → Prop) : Prop := ∀ a, ¬ Relation.TransGen r a a

theorem acyclic_of_rank (rank : α → Nat) (increases : ∀ a b, r a b → rank a < rank b) : Acyclic r := by
  intro a cycle
  have less : ∀ b, Relation.TransGen r a b → rank a < rank b := by
    intro b path
    induction path with
    | single edge => exact increases _ _ edge
    | tail _ edge ih => exact Nat.lt_trans ih (increases _ _ edge)
  exact Nat.lt_irrefl _ (less a cycle)

theorem Acyclic.mono {r' : α → α → Prop} (acyclic : Acyclic r) (fewer : ∀ a b, r' a b → r a b) : Acyclic r' :=
  fun a cycle => acyclic a (Relation.TransGen.mono fewer a a cycle)

theorem Acyclic.exists_first (acyclic : Acyclic r) {xs : List α} (member : x ∈ xs) :
    ∃ first ∈ xs, ∀ a ∈ xs, ¬ r a first := by
  let before := fun a b : {a // a ∈ xs} => Relation.TransGen r a.1 b.1
  have transitive : IsTrans {a // a ∈ xs} before := ⟨fun _ _ _ => Relation.TransGen.trans⟩
  have irreflexive : Std.Irrefl before := ⟨fun a => acyclic a.1⟩
  have finite : Finite {a // a ∈ xs} := xs.finite_toSet.to_subtype
  have wellFounded : WellFounded before := Finite.wellFounded_of_trans_of_irrefl before
  obtain ⟨first, -, least⟩ := wellFounded.has_min Set.univ ⟨⟨x, member⟩, trivial⟩
  exact ⟨first.1, first.2, fun a inside edge => least ⟨a, inside⟩ trivial (.single edge)⟩

def DependenciesFirst (r : α → α → Prop) (order : List α) : Prop :=
  ∀ front x rest, order = front ++ x :: rest → ∀ a, r a x → a ∈ front

theorem dependenciesFirst_nil : DependenciesFirst r [] := by
  intro front x rest split
  simp at split

theorem DependenciesFirst.snoc (first : DependenciesFirst r order) (here : ∀ a, r a x → a ∈ order) :
    DependenciesFirst r (order ++ [x]) := by
  intro front y rest split a edge
  rcases List.eq_nil_or_concat rest with rfl | ⟨inner, last, rfl⟩
  · obtain ⟨rfl, same⟩ := List.append_inj' split rfl
    obtain rfl : x = y := by simpa using same
    exact here a edge
  · have longer : order ++ [x] = (front ++ y :: inner) ++ [last] := by simpa using split
    exact first front y inner (List.append_inj' longer rfl).1 a edge

theorem DependenciesFirst.mem (first : DependenciesFirst r order) (member : x ∈ order) (edge : r a x) :
    a ∈ order := by
  obtain ⟨front, rest, rfl⟩ := List.append_of_mem member
  exact List.mem_append_left _ (first front x rest rfl a edge)

theorem DependenciesFirst.idxOf_lt [DecidableEq α] (first : DependenciesFirst r order) (member : x ∈ order)
    (edge : r a x) : order.idxOf a < order.idxOf x := by
  obtain ⟨front, rest, rfl, fresh⟩ := List.eq_append_cons_of_mem member
  have before := first front x rest rfl a edge
  rw [List.idxOf_append_of_mem before, List.idxOf_append_of_notMem fresh]
  exact Nat.lt_of_lt_of_le (List.idxOf_lt_length_iff.mpr before) (Nat.le_add_right _ _)

theorem DependenciesFirst.not_back [DecidableEq α] {front rest : List α}
    (first : DependenciesFirst r (front ++ x :: rest)) (fresh : x ∉ front) (member : a = x ∨ a ∈ front) :
    ¬ r x a := by
  intro edge
  rcases member with rfl | before
  · exact fresh (first front a rest rfl a edge)
  · have later := first.idxOf_lt (List.mem_append_left _ before) edge
    rw [List.idxOf_append_of_mem before, List.idxOf_append_of_notMem fresh, List.idxOf_cons_self] at later
    have early := List.idxOf_lt_length_iff.mpr before
    omega

-- A path is as long as it has edges.
structure LongestPath (r : α → α → Prop) (x : α) (length : Nat) : Prop where
  attained : ∃ path : List α, path.IsChain r ∧ path.getLast? = some x ∧ path.length = length + 1
  bound : ∀ path : List α, path.IsChain r → path.getLast? = some x → path.length ≤ length + 1

theorem isChain_snoc {path : List α} :
    (path ++ [x]).IsChain r ↔ path.IsChain r ∧ ∀ last, path.getLast? = some last → r last x := by
  simp [List.isChain_append]

theorem longestPath_of_depth {depth : α → Nat} (increases : ∀ a x, r a x → depth a < depth x)
    (reached : ∀ x, depth x ≠ 0 → ∃ a, r a x ∧ depth x = depth a + 1) (x : α) :
    LongestPath r x (depth x) where
  attained := by
    induction length : depth x generalizing x with
    | zero => exact ⟨[x], List.isChain_singleton x, rfl, rfl⟩
    | succ n ih =>
      obtain ⟨a, edge, next⟩ := reached x (by omega)
      obtain ⟨path, chain, last, long⟩ := ih a (by omega)
      refine ⟨path ++ [x], isChain_snoc.mpr ⟨chain, ?_⟩, by simp, by simp [long]⟩
      intro last' found
      rw [last, Option.some_inj] at found
      rwa [← found]
  bound := by
    intro path
    induction path using List.reverseRecOn generalizing x with
    | nil => simp
    | append_singleton path y ih =>
      intro chain last
      obtain rfl : y = x := by simpa using last
      obtain ⟨chain, edge⟩ := isChain_snoc.mp chain
      rw [List.length_append, List.length_singleton]
      cases before : path.getLast? with
      | none => simp [List.getLast?_eq_none_iff.mp before]
      | some a =>
        have shorter := ih a chain before
        have raised := increases a y (edge a before)
        omega

theorem exists_depth {depth : α → Nat} (reached : ∀ x, depth x ≠ 0 → ∃ a, r a x ∧ depth x = depth a + 1)
    {n : Nat} (below : n ≤ depth x) : ∃ y, depth y = n ∧ (y = x ∨ ∃ z, r y z) := by
  induction behind : depth x - n generalizing x with
  | zero => exact ⟨x, by omega, .inl rfl⟩
  | succ k ih =>
    obtain ⟨a, edge, next⟩ := reached x (by omega)
    obtain ⟨y, here, same | source⟩ := ih (x := a) (by omega) (by omega)
    · exact ⟨y, here, .inr ⟨x, same ▸ edge⟩⟩
    · exact ⟨y, here, .inr source⟩

end Shared
