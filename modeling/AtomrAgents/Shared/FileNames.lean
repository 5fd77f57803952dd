import AtomrAgents.Shared.LexicalPath
import Mathlib.Algebra.Group.Nat.Defs
import Mathlib.Data.Char
import Mathlib.Data.List.Lex

set_option autoImplicit false

namespace Shared.UnixPath

def splitStem (name : List Char) : Option (List Char × List Char) :=
  match name.reverse.dropWhile (· ≠ '.') with
  | [] => none
  | _ :: front =>
    if front = [] ∨ name = ['.', '.'] then none
    else some (front.reverse, (name.reverse.takeWhile (· ≠ '.')).reverse)

def sortNames (names : List (List Char)) : List (List Char) := names.mergeSort fun a b => decide (a ≤ b)

section Names

theorem splitStem_append {stem ext : List Char} (present : stem ≠ []) (named : ext ≠ []) (dotless : '.' ∉ ext) :
    splitStem (stem ++ '.' :: ext) = some (stem, ext) := by
  have reversed : (stem ++ '.' :: ext).reverse = ext.reverse ++ '.' :: stem.reverse := by simp
  have letters : ∀ c ∈ ext.reverse, decide (c ≠ '.') = true := by
    intro c member
    refine decide_eq_true fun dot => dotless ?_
    rw [← dot]
    exact List.mem_reverse.mp member
  have back : (ext.reverse ++ '.' :: stem.reverse).dropWhile (· ≠ '.') = '.' :: stem.reverse := by
    rw [List.dropWhile_append_of_pos letters, List.dropWhile_cons_of_neg (by simp)]
  have front : (ext.reverse ++ '.' :: stem.reverse).takeWhile (· ≠ '.') = ext.reverse := by
    rw [List.takeWhile_append_of_pos letters, List.takeWhile_cons_of_neg (by simp), List.append_nil]
  have other : stem ++ '.' :: ext ≠ ['.', '.'] := by
    intro same
    have size := congrArg List.length same
    have first := List.length_pos_iff.mpr present
    have last := List.length_pos_iff.mpr named
    simp only [List.length_append, List.length_cons, List.length_nil] at size
    omega
  rw [splitStem, reversed, back]
  simp only [front, List.reverse_eq_nil_iff, present, other, or_self, if_false, List.reverse_reverse]

theorem append_of_splitStem {name stem ext : List Char} (found : splitStem name = some (stem, ext)) :
    name = stem ++ '.' :: ext ∧ stem ≠ [] := by
  rw [splitStem] at found
  split at found
  next => cases found
  next dot front rest =>
    split at found
    next => cases found
    next proper =>
      rw [not_or] at proper
      cases found
      have sides := List.takeWhile_append_dropWhile (p := fun c => decide (c ≠ '.')) (l := name.reverse)
      have stop := List.head?_dropWhile_not (fun c => decide (c ≠ '.')) name.reverse
      rw [rest] at stop
      obtain rfl : dot = '.' := by simpa using stop
      rw [rest] at sides
      refine ⟨?_, by simpa using proper.1⟩
      have whole := congrArg List.reverse sides
      rw [List.reverse_reverse, List.reverse_append, List.reverse_cons, List.append_assoc] at whole
      exact whole.symm

theorem sortNames_perm (names : List (List Char)) : (sortNames names).Perm names := List.mergeSort_perm ..

theorem sortNames_pairwise (names : List (List Char)) : (sortNames names).Pairwise (· ≤ ·) := by
  refine (List.pairwise_mergeSort ?_ ?_ names).imp fun {a b} ordered => of_decide_eq_true ordered
  · intro a b c first second
    simp only [decide_eq_true_eq] at first second ⊢
    exact le_trans first second
  · intro a b
    simp only [Bool.or_eq_true, decide_eq_true_eq]
    exact le_total a b

theorem sortNames_eq {names ascending : List (List Char)} (distinct : names.Nodup)
    (ordered : ascending.Pairwise (· < ·)) (members : ∀ name, name ∈ names ↔ name ∈ ascending) :
    sortNames names = ascending := by
  have nodup : ascending.Nodup := ordered.imp fun {a b} less same => by
    subst same
    exact List.lt_irrefl a less
  have perm : (sortNames names).Perm ascending :=
    (sortNames_perm names).trans ((List.perm_ext_iff_of_nodup distinct nodup).mpr members)
  exact perm.eq_of_pairwise (fun a b _ _ less greater => le_antisymm less greater) (sortNames_pairwise names)
    (ordered.imp fun less => le_of_lt less)

theorem getLast_sortNames {names : List (List Char)} {name : List Char} (member : name ∈ names)
    (greatest : ∀ other ∈ names, other ≤ name) : (sortNames names).getLast? = some name := by
  have inside : name ∈ sortNames names := (sortNames_perm names).mem_iff.mpr member
  cases last : (sortNames names).getLast? with
  | none => simp [List.getLast?_eq_none_iff.mp last] at inside
  | some other =>
    obtain ⟨front, whole⟩ := List.getLast?_eq_some_iff.mp last
    have there : other ∈ names := (sortNames_perm names).mem_iff.mp (whole ▸ List.mem_concat_self)
    refine congrArg some (le_antisymm (greatest other there) ?_)
    have ordered := sortNames_pairwise names
    rw [whole] at ordered inside
    rcases List.mem_append.mp inside with early | same
    · exact (List.pairwise_append.mp ordered).2.2 name early other (List.mem_singleton_self other)
    · rw [List.mem_singleton.mp same]

end Names

section Numbered

theorem isDigit_of_mem_toString {n : Nat} {c : Char} (member : c ∈ (toString n).toList) : c.isDigit = true := by
  rw [Nat.toString_eq_repr, Nat.toList_repr] at member
  exact Nat.isDigit_of_mem_toDigits (by decide) (by decide) member

theorem toString_toList_ne_nil (n : Nat) : (toString n).toList ≠ [] := by
  rw [Nat.toString_eq_repr, Nat.toList_repr]
  exact Nat.toDigits_ne_nil

theorem not_mem_numbered {c : Char} (other : c.isDigit = false) {suffix : String} (off : c ∉ suffix.toList) (n : Nat) :
    c ∉ (toString n ++ suffix).toList := by
  rw [String.toList_append, List.mem_append, not_or]
  refine ⟨fun digit => ?_, off⟩
  rw [isDigit_of_mem_toString digit] at other
  cases other

theorem ofPiece_numbered {suffix : String} (long : 2 < suffix.toList.length) (n : Nat) :
    Component.ofPiece (toString n ++ suffix).toList = some (.normal (toString n ++ suffix).toList) := by
  refine Component.ofPiece_of_long ?_
  rw [String.toList_append, List.length_append]
  omega

theorem push_numbered {suffix : String} (long : 2 < suffix.toList.length) (unseparated : '/' ∉ suffix.toList)
    (dir : List Component) (n : Nat) :
    push dir (toString n ++ suffix).toList = dir ++ [.normal (toString n ++ suffix).toList] :=
  push_name (not_mem_numbered (by decide) unseparated n) (ofPiece_numbered long n) dir

theorem digit_bounds {c : Char} (digit : c.isDigit = true) : 48 ≤ c.toNat ∧ c.toNat ≤ 57 :=
  Char.isDigit_iff_toNat.mp digit

theorem value_cons (c : Char) (digits : List Char) : Nat.ofDigitChars 10 (c :: digits) 0 =
    10 ^ digits.length * (c.toNat - 48) + Nat.ofDigitChars 10 digits 0 := by
  rw [Nat.ofDigitChars_cons, Nat.ofDigitChars_eq_ofDigitChars_zero, Nat.mul_zero, Nat.zero_add]
  rfl

theorem value_lt {digits : List Char} (all : ∀ c ∈ digits, c.isDigit = true) :
    Nat.ofDigitChars 10 digits 0 < 10 ^ digits.length := by
  induction digits with
  | nil => simp
  | cons c digits ih =>
    have bounds := digit_bounds (all c List.mem_cons_self)
    have rest := ih fun other member => all other (List.mem_cons_of_mem c member)
    have top : 10 ^ digits.length * (c.toNat - 48) ≤ 10 ^ digits.length * 9 := Nat.mul_le_mul_left _ (by omega)
    rw [value_cons, List.length_cons, Nat.pow_succ]
    omega

theorem digits_lt {front back : List Char} (suffix : List Char) (size : front.length = back.length)
    (digits : ∀ c ∈ front, c.isDigit = true) (digits' : ∀ c ∈ back, c.isDigit = true)
    (less : Nat.ofDigitChars 10 front 0 < Nat.ofDigitChars 10 back 0) : front ++ suffix < back ++ suffix := by
  induction front generalizing back with
  | nil =>
    obtain rfl : back = [] := List.length_eq_zero_iff.mp size.symm
    exact absurd less (Nat.lt_irrefl _)
  | cons a front ih =>
    cases back with
    | nil => cases size
    | cons b back =>
      obtain ⟨low, -⟩ := digit_bounds (digits a List.mem_cons_self)
      obtain ⟨low', -⟩ := digit_bounds (digits' b List.mem_cons_self)
      have later := fun c member => digits c (List.mem_cons_of_mem a member)
      have later' := fun c member => digits' c (List.mem_cons_of_mem b member)
      have equal : front.length = back.length := by simpa using size
      rw [value_cons, value_cons, equal] at less
      rw [List.cons_append, List.cons_append, List.cons_lt_cons_iff]
      rcases Nat.lt_trichotomy a.toNat b.toNat with smaller | same | greater
      · exact .inl smaller
      · rw [same] at less
        exact .inr ⟨Char.toNat_inj.mp same, ih equal later later' (by omega)⟩
      · -- A greater first digit outweighs all that follow.
        have rest := value_lt later'
        have most : 10 ^ back.length * (b.toNat - 48 + 1) ≤ 10 ^ back.length * (a.toNat - 48) :=
          Nat.mul_le_mul_left _ (by omega)
        rw [Nat.mul_add, Nat.mul_one] at most
        omega

theorem numbered_lt {m n : Nat} (less : m < n) (size : (toString m).length = (toString n).length) (suffix : String) :
    (toString m ++ suffix).toList < (toString n ++ suffix).toList := by
  rw [String.toList_append, String.toList_append]
  have sizes : (toString m).toList.length = (toString n).toList.length := by
    rw [String.length_toList, String.length_toList, size]
  refine digits_lt _ sizes (fun c => isDigit_of_mem_toString) (fun c => isDigit_of_mem_toString) ?_
  simpa [Nat.toString_eq_repr, Nat.toList_repr] using less

end Numbered

end Shared.UnixPath
