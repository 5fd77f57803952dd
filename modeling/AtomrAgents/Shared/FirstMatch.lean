import Mathlib.Data.List.Basic
import Mathlib.Data.List.Induction
import Mathlib.Data.List.Nodup

set_option autoImplicit false

namespace Shared

variable {α β : Type} {p : α → Bool} {change : α → α} {xs front : List α} {x : α}

def modifyFirst (p : α → Bool) (change : α → α) (xs : List α) : List α :=
  xs.replaceF fun x => if p x then some (change x) else none

def findLast (p : α → Bool) (xs : List α) : Option α := xs.reverse.find? p

def modifyLast (p : α → Bool) (change : α → α) (xs : List α) : List α :=
  (modifyFirst p change xs.reverse).reverse

theorem modifyFirst_cases (p : α → Bool) (change : α → α) (xs : List α) :
    modifyFirst p change xs = xs ∨
      ∃ before x after, p x = true ∧ xs = before ++ x :: after ∧
        modifyFirst p change xs = before ++ change x :: after := by
  rcases List.exists_or_eq_self_of_replaceF (fun x => if p x then some (change x) else none) xs with
    same | ⟨x, x', before, after, -, changed, found, result⟩
  · exact .inl same
  · rw [Option.ite_none_right_eq_some, Option.some_inj] at changed
    exact .inr ⟨before, x, after, changed.1, found, by rw [changed.2]; exact result⟩

theorem modifyFirst_append (others : ∀ y ∈ front, p y = false) (found : p x = true) (rest : List α) :
    modifyFirst p change (front ++ x :: rest) = front ++ change x :: rest := by
  induction front with
  | nil => simp [modifyFirst, found]
  | cons y front ih =>
    obtain ⟨here, others⟩ := List.forall_mem_cons.mp others
    rw [modifyFirst] at ih ⊢
    simp [here, ih others]

theorem map_modifyFirst (f : α → β) (same : ∀ x, f (change x) = f x) :
    (modifyFirst p change xs).map f = xs.map f := by
  rcases modifyFirst_cases p change xs with unchanged | ⟨before, x, after, -, found, result⟩
  · rw [unchanged]
  · rw [result, found]
    simp [same]

theorem mem_modifyFirst (member : x ∈ modifyFirst p change xs) : x ∈ xs ∨ ∃ y ∈ xs, x = change y := by
  rcases modifyFirst_cases p change xs with unchanged | ⟨before, y, after, -, found, result⟩
  · rw [unchanged] at member
    exact .inl member
  · rw [result, List.mem_append, List.mem_cons] at member
    rcases member with member | rfl | member
    · exact .inl (by rw [found]; exact List.mem_append_left _ member)
    · exact .inr ⟨y, by rw [found]; simp, rfl⟩
    · exact .inl (by rw [found]; simp [member])

theorem find?_modifyFirst_self (same : ∀ x, p (change x) = p x) :
    (modifyFirst p change xs).find? p = (xs.find? p).map change := by
  induction xs with
  | nil => rfl
  | cons x xs ih =>
    rw [modifyFirst] at ih ⊢
    rw [List.replaceF_cons]
    cases here : p x with
    | true =>
      rw [List.find?_cons_of_pos (by rw [here])]
      simp [same, here]
    | false =>
      rw [List.find?_cons_of_neg (by simp [here])]
      simp [here, ih]

theorem find?_modifyFirst_other {q : α → Bool} (other : ∀ x, p x = true → q x = false ∧ q (change x) = false) :
    (modifyFirst p change xs).find? q = xs.find? q := by
  induction xs with
  | nil => rfl
  | cons x xs ih =>
    rw [modifyFirst] at ih ⊢
    rw [List.replaceF_cons]
    cases here : p x with
    | true =>
      obtain ⟨before, after⟩ := other x here
      simp [before, after]
    | false => simp [List.find?_cons, ih]

theorem findLast_concat : findLast p (front ++ [x]) = if p x then some x else findLast p front := by
  rw [findLast, List.reverse_concat, List.find?_cons, findLast]
  cases p x <;> rfl

theorem findLast_eq_none (none : ∀ x ∈ xs, p x = false) : findLast p xs = .none := by
  rw [findLast, List.find?_eq_none]
  intro x member
  rw [none x (List.mem_reverse.mp member)]
  exact Bool.false_ne_true

theorem modifyLast_concat :
    modifyLast p change (front ++ [x]) =
      if p x then front ++ [change x] else modifyLast p change front ++ [x] := by
  rw [modifyLast, List.reverse_concat, modifyFirst, List.replaceF_cons]
  cases p x with
  | true => simp
  | false => simp [modifyLast, modifyFirst]

theorem length_modifyLast : (modifyLast p change xs).length = xs.length := by
  rw [modifyLast, List.length_reverse, modifyFirst, List.length_replaceF, List.length_reverse]

theorem modifyLast_of_none (none : ∀ x ∈ xs, p x = false) : modifyLast p change xs = xs := by
  rw [modifyLast, modifyFirst, List.replaceF_of_forall_none, List.reverse_reverse]
  intro x member
  rw [none x (List.mem_reverse.mp member)]
  rfl

theorem getElem?_modifyLast {i : Nat} (found : xs[i]? = some x) (other : p x = false) :
    (modifyLast p change xs)[i]? = some x := by
  induction xs using List.reverseRecOn with
  | nil => cases found
  | append_singleton front y ih =>
    rw [modifyLast_concat]
    rcases Nat.lt_or_ge i front.length with before | last
    · rw [List.getElem?_append_left before] at found
      split
      · rw [List.getElem?_append_left before]
        exact found
      · rw [List.getElem?_append_left (by rw [length_modifyLast]; exact before)]
        exact ih found
    · rw [List.getElem?_append_right last] at found
      have same := List.mem_singleton.mp (List.mem_of_getElem? found)
      rw [← same] at found ⊢
      rw [other, if_neg Bool.false_ne_true, List.getElem?_append_right (by rw [length_modifyLast]; exact last),
        length_modifyLast]
      exact found

theorem dropLast_modifyLast (others : ∀ x ∈ xs.dropLast, p x = false) :
    (modifyLast p change xs).dropLast = xs.dropLast := by
  cases xs using List.reverseRecOn with
  | nil => rfl
  | append_singleton front y _ =>
    rw [List.dropLast_concat] at others
    rw [modifyLast_concat]
    split
    · simp
    · rw [modifyLast_of_none others]

end Shared

namespace Shared

variable {α κ : Type} [DecidableEq κ] {key : α → κ} {seen : List κ} {xs : List α} {ks : List κ} {k : κ} {i : Nat}

def firsts (key : α → κ) : List κ → List α → List α
  | _, [] => []
  | seen, x :: rest =>
    if key x ∈ seen then firsts key seen rest else x :: firsts key (seen ++ [key x]) rest

theorem firsts_id_cons (seen : List κ) (k : κ) (ks : List κ) :
    firsts id seen (k :: ks) =
      if k ∈ seen then firsts id seen ks else k :: firsts id (seen ++ [k]) ks := rfl

theorem map_firsts (key : α → κ) (seen : List κ) (xs : List α) :
    (firsts key seen xs).map key = firsts id seen (xs.map key) := by
  induction xs generalizing seen with
  | nil => rfl
  | cons x rest ih =>
    rw [firsts, List.map_cons, firsts_id_cons]
    split
    · exact ih seen
    · rw [List.map_cons, ih]

theorem firsts_sublist (key : α → κ) (seen : List κ) (xs : List α) : (firsts key seen xs).Sublist xs := by
  induction xs generalizing seen with
  | nil => exact .refl []
  | cons x rest ih =>
    rw [firsts]
    split
    · exact (ih seen).cons x
    · exact (ih _).cons_cons x

theorem mem_firsts : k ∈ firsts id seen ks ↔ k ∈ ks ∧ k ∉ seen := by
  induction ks generalizing seen with
  | nil => simp [firsts]
  | cons x rest ih =>
    rw [firsts_id_cons]
    split
    · next known =>
      rw [ih, List.mem_cons]
      refine and_congr_left fun fresh => (or_iff_right fun same => fresh ?_).symm
      exact same ▸ known
    · next fresh =>
      rw [List.mem_cons, ih, List.mem_cons, List.mem_append, List.mem_singleton]
      by_cases same : k = x
      · simpa [same] using fresh
      · simp [same]

theorem firsts_concat (seen ks : List κ) (k : κ) :
    firsts id seen (ks ++ [k]) =
      if k ∈ seen ∨ k ∈ ks then firsts id seen ks else firsts id seen ks ++ [k] := by
  induction ks generalizing seen with
  | nil =>
    rw [List.nil_append, firsts_id_cons]
    simp [firsts]
  | cons x rest ih =>
    rw [List.cons_append, firsts_id_cons, firsts_id_cons, ih, ih]
    by_cases known : x ∈ seen
    · have same : (k ∈ seen ∨ k ∈ x :: rest) ↔ k ∈ seen ∨ k ∈ rest := by
        rw [List.mem_cons]
        exact or_congr_right' fun fresh => or_iff_right fun is => fresh (is ▸ known)
      simp only [if_pos known, same]
    · have same : (k ∈ seen ∨ k ∈ x :: rest) ↔ k ∈ seen ++ [x] ∨ k ∈ rest := by
        rw [List.mem_cons, List.mem_append, List.mem_singleton, or_assoc]
      simp only [if_neg known, same]
      split <;> rfl

theorem nodup_firsts (seen ks : List κ) : (firsts id seen ks).Nodup := by
  induction ks generalizing seen with
  | nil => exact List.nodup_nil
  | cons x rest ih =>
    rw [firsts_id_cons]
    split
    · exact ih seen
    · refine List.nodup_cons.mpr ⟨fun again => (mem_firsts.mp again).2 ?_, ih _⟩
      simp

theorem firsts_of_nodup (nodup : ks.Nodup) (fresh : ∀ k ∈ ks, k ∉ seen) : firsts id seen ks = ks := by
  induction ks generalizing seen with
  | nil => rfl
  | cons x rest ih =>
    obtain ⟨new, nodup⟩ := List.nodup_cons.mp nodup
    rw [firsts_id_cons, if_neg (fresh x List.mem_cons_self), ih nodup]
    · intro k member known
      rcases List.mem_append.mp known with known | same
      · exact fresh k (List.mem_cons_of_mem x member) known
      · rw [List.mem_singleton] at same
        exact new (same ▸ member)

theorem idxOf_firsts (member : k ∈ ks) (fresh : k ∉ seen) :
    (firsts id seen ks).idxOf k = (firsts id seen (ks.take (ks.idxOf k))).length := by
  induction ks generalizing seen with
  | nil => cases member
  | cons x rest ih =>
    by_cases same : x = k
    · subst same
      rw [firsts_id_cons, if_neg fresh, List.idxOf_cons_self, List.idxOf_cons_self]
      rfl
    · have later : k ∈ rest := (List.mem_cons.mp member).resolve_left (Ne.symm same)
      rw [List.idxOf_cons_ne rest same, List.take_succ_cons, firsts_id_cons, firsts_id_cons]
      split
      · exact ih later fresh
      · have fresh' : k ∉ seen ++ [x] := by simpa [fresh] using Ne.symm same
        rw [List.idxOf_cons_ne _ same, List.length_cons, ih later fresh']

theorem idxOf_firsts_eq_iff (bound : i < ks.length) :
    (firsts id [] ks).idxOf ks[i] = i ↔ (ks.take (i + 1)).Nodup := by
  have member : ks[i] ∈ ks := List.getElem_mem bound
  have here : ks[i] ∈ ks.take (i + 1) := List.mem_take_iff_getElem.mpr ⟨i, by omega, rfl⟩
  have before : ks.idxOf ks[i] < i + 1 := (List.mem_take_iff_idxOf_lt member).mp here
  rw [idxOf_firsts member List.not_mem_nil]
  constructor
  · intro same
    have shorter := (firsts_sublist id [] (ks.take (ks.idxOf ks[i]))).length_le
    have first : ks.idxOf ks[i] = i := by
      rw [same, List.length_take] at shorter
      omega
    rw [first] at same
    have whole : firsts id [] (ks.take i) = ks.take i :=
      (firsts_sublist id [] (ks.take i)).eq_of_length (by rw [same, List.length_take]; omega)
    have fresh : ks[i] ∉ ks.take i := by
      rw [List.mem_take_iff_idxOf_lt member, first]
      exact Nat.lt_irrefl i
    rw [List.take_succ_eq_append_getElem bound, List.nodup_append_comm, List.singleton_append, List.nodup_cons]
    exact ⟨fresh, whole ▸ nodup_firsts [] (ks.take i)⟩
  · intro nodup
    rw [List.take_succ_eq_append_getElem bound, List.nodup_append_comm, List.singleton_append,
      List.nodup_cons] at nodup
    have first : ks.idxOf ks[i] = i := by
      have := mt (List.mem_take_iff_idxOf_lt member).mpr nodup.1
      omega
    rw [first, firsts_of_nodup nodup.2 fun _ _ => List.not_mem_nil, List.length_take]
    omega

end Shared
