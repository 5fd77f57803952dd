import Mathlib.Data.List.Basic
import Mathlib.Data.List.Infix
import Mathlib.Tactic.LinearCombination

set_option autoImplicit false

/-! A text is cut at the occurrences of a pattern, from the left and without overlap. What stands between them
is joined again by the pattern, or by what replaces it. -/

namespace Shared

variable {α : Type} [DecidableEq α] {pattern new text front back : List α} {a : α}

-- The first `skip` letters belong to an occurrence already found.
def gapsFrom (pattern : List α) : Nat → List α → List (List α)
  | _, [] => [[]]
  | skip + 1, _ :: rest => gapsFrom pattern skip rest
  | 0, a :: rest =>
    if pattern <+: a :: rest then [] :: gapsFrom pattern (pattern.length - 1) rest
    else (gapsFrom pattern 0 rest).modifyHead (a :: ·)

def gaps (pattern text : List α) : List (List α) := gapsFrom pattern 0 text

def occurrences (pattern text : List α) : Nat := (gaps pattern text).length - 1

def replaced (pattern new text : List α) : List α := new.intercalate (gaps pattern text)

theorem gapsFrom_skip (skip : Nat) (text : List α) : gapsFrom pattern skip text = gaps pattern (text.drop skip) := by
  induction text generalizing skip with
  | nil => cases skip <;> simp [gaps, gapsFrom]
  | cons a rest ih =>
    cases skip with
    | zero => rfl
    | succ skip => exact ih skip

theorem gaps_ne_nil (pattern text : List α) : gaps pattern text ≠ [] := by
  induction text with
  | nil => exact List.cons_ne_nil _ _
  | cons a rest ih =>
    rw [gaps, gapsFrom]
    split
    · exact List.cons_ne_nil _ _
    · exact fun none => ih (List.modifyHead_eq_nil_iff.mp none)

theorem gaps_cons (elsewhere : ¬ pattern <+: a :: text) :
    gaps pattern (a :: text) = (gaps pattern text).modifyHead (a :: ·) := by
  rw [gaps, gapsFrom, if_neg elsewhere]
  rfl

theorem gaps_pattern (filled : pattern ≠ []) (text : List α) :
    gaps pattern (pattern ++ text) = [] :: gaps pattern text := by
  cases pattern with
  | nil => exact absurd rfl filled
  | cons a pattern =>
    have begins : a :: pattern <+: a :: (pattern ++ text) := List.prefix_append (a :: pattern) text
    rw [List.cons_append, gaps, gapsFrom, if_pos begins, gapsFrom_skip, List.length_cons, Nat.add_sub_cancel,
      List.drop_left]

theorem gaps_of_absent (absent : ¬ pattern <:+: text) : gaps pattern text = [text] := by
  induction text with
  | nil => rfl
  | cons a rest ih =>
    rw [List.infix_cons_iff, not_or] at absent
    rw [gaps_cons absent.1, ih absent.2]
    rfl

theorem gaps_of_first (filled : pattern ≠ []) (first : ¬ pattern <:+: front ++ pattern.dropLast) (text : List α) :
    gaps pattern (front ++ pattern ++ text) = front :: gaps pattern text := by
  induction front with
  | nil => exact gaps_pattern filled text
  | cons a front ih =>
    rw [List.cons_append, List.infix_cons_iff, not_or] at first
    have elsewhere : ¬ pattern <+: a :: (front ++ pattern ++ text) := by
      intro begins
      apply first.1
      have before : a :: (front ++ pattern.dropLast) <+: a :: (front ++ pattern ++ text) := by
        rw [List.cons_prefix_cons, List.append_assoc, List.prefix_append_right_inj]
        exact ⟨rfl, (List.dropLast_prefix pattern).trans (List.prefix_append pattern text)⟩
      refine List.prefix_of_prefix_length_le begins before ?_
      have := List.length_pos_iff.mpr filled
      simp only [List.length_cons, List.length_append, List.length_dropLast]
      omega
    rw [List.cons_append, List.cons_append, gaps_cons elsewhere, ih first.2]
    rfl

omit [DecidableEq α] in
theorem exists_first (filled : pattern ≠ []) (found : pattern <:+: text) :
    ∃ front back, text = front ++ pattern ++ back ∧ ¬ pattern <:+: front ++ pattern.dropLast := by
  induction text with
  | nil => exact absurd (List.infix_nil.mp found) filled
  | cons a rest ih =>
    by_cases begins : pattern <+: a :: rest
    · obtain ⟨back, whole⟩ := begins
      refine ⟨[], back, whole.symm, fun inside => ?_⟩
      have shorter := inside.length_le
      have := List.length_pos_iff.mpr filled
      rw [List.nil_append, List.length_dropLast] at shorter
      omega
    · obtain ⟨front, back, rfl, first⟩ := ih ((List.infix_cons_iff.mp found).resolve_left begins)
      refine ⟨a :: front, back, rfl, ?_⟩
      rw [List.cons_append, List.infix_cons_iff, not_or]
      refine ⟨fun earlier => begins (earlier.trans ?_), first⟩
      rw [List.cons_prefix_cons, List.append_assoc, List.prefix_append_right_inj]
      exact ⟨rfl, (List.dropLast_prefix pattern).trans (List.prefix_append pattern back)⟩

omit [DecidableEq α] in
theorem occurrence_induction {motive : List α → Prop} (filled : pattern ≠ [])
    (absent : ∀ text, ¬ pattern <:+: text → motive text)
    (first : ∀ front text, ¬ pattern <:+: front ++ pattern.dropLast → motive text → motive (front ++ pattern ++ text))
    (text : List α) : motive text := by
  induction size : text.length using Nat.strong_induction_on generalizing text with
  | h n ih =>
    by_cases found : pattern <:+: text
    · obtain ⟨front, back, rfl, fresh⟩ := exists_first filled found
      refine first front back fresh (ih back.length ?_ back rfl)
      have := List.length_pos_iff.mpr filled
      simp only [List.length_append] at size
      omega
    · exact absent text found

theorem occurrences_of_absent (absent : ¬ pattern <:+: text) : occurrences pattern text = 0 := by
  rw [occurrences, gaps_of_absent absent]
  rfl

theorem occurrences_of_first (filled : pattern ≠ []) (first : ¬ pattern <:+: front ++ pattern.dropLast)
    (text : List α) : occurrences pattern (front ++ pattern ++ text) = occurrences pattern text + 1 := by
  have := List.length_pos_iff.mpr (gaps_ne_nil pattern text)
  rw [occurrences, occurrences, gaps_of_first filled first, List.length_cons]
  omega

theorem occurrences_eq_zero (filled : pattern ≠ []) : occurrences pattern text = 0 ↔ ¬ pattern <:+: text := by
  constructor
  · intro none found
    obtain ⟨front, back, rfl, first⟩ := exists_first filled found
    rw [occurrences_of_first filled first] at none
    exact absurd none (Nat.succ_ne_zero _)
  · exact occurrences_of_absent

omit [DecidableEq α] in
theorem intercalate_cons (sep piece : List α) {pieces : List (List α)} (more : pieces ≠ []) :
    sep.intercalate (piece :: pieces) = piece ++ sep ++ sep.intercalate pieces := by
  cases pieces with
  | nil => exact absurd rfl more
  | cons next pieces => simp [List.intercalate]

theorem replaced_of_absent (absent : ¬ pattern <:+: text) : replaced pattern new text = text := by
  rw [replaced, gaps_of_absent absent]
  simp [List.intercalate]

theorem replaced_of_first (filled : pattern ≠ []) (first : ¬ pattern <:+: front ++ pattern.dropLast)
    (text : List α) :
    replaced pattern new (front ++ pattern ++ text) = front ++ new ++ replaced pattern new text := by
  rw [replaced, gaps_of_first filled first, intercalate_cons _ _ (gaps_ne_nil _ text)]
  rfl

theorem intercalate_gaps (filled : pattern ≠ []) (text : List α) : pattern.intercalate (gaps pattern text) = text := by
  induction text using occurrence_induction filled with
  | absent text absent => exact replaced_of_absent absent
  | first front text first ih =>
    rw [gaps_of_first filled first, intercalate_cons _ _ (gaps_ne_nil _ text), ih]

omit [DecidableEq α] in
theorem infix_intercalate {sep piece : List α} {pieces : List (List α)} (member : piece ∈ pieces) :
    piece <:+: sep.intercalate pieces := by
  induction pieces with
  | nil => simp at member
  | cons first pieces ih =>
    by_cases last : pieces = []
    · rw [last, List.mem_singleton] at member
      simp [last, member, List.intercalate]
    · rw [intercalate_cons _ _ last, List.append_assoc]
      cases List.mem_cons.mp member with
      | inl here =>
        rw [here]
        exact (List.prefix_append _ _).isInfix
      | inr later => exact (ih later).trans ((List.suffix_append _ _).trans (List.suffix_append _ _)).isInfix

theorem infix_of_mem_gaps {piece : List α} (filled : pattern ≠ []) (member : piece ∈ gaps pattern text) :
    piece <:+: text := by
  have inside : piece <:+: pattern.intercalate (gaps pattern text) := infix_intercalate member
  rwa [intercalate_gaps filled] at inside

theorem not_infix_of_mem_gaps {piece : List α} (filled : pattern ≠ []) (member : piece ∈ gaps pattern text) :
    ¬ pattern <:+: piece := by
  induction text using occurrence_induction filled with
  | absent text absent =>
    rw [gaps_of_absent absent, List.mem_singleton] at member
    rwa [member]
  | first front text first ih =>
    rw [gaps_of_first filled first] at member
    cases List.mem_cons.mp member with
    | inl here => exact fun found => first (here ▸ found.trans (List.prefix_append _ _).isInfix)
    | inr later => exact ih later

theorem length_replaced (filled : pattern ≠ []) (new text : List α) :
    (replaced pattern new text).length + occurrences pattern text * pattern.length =
      text.length + occurrences pattern text * new.length := by
  induction text using occurrence_induction filled with
  | absent text absent => rw [replaced_of_absent absent, occurrences_of_absent absent, Nat.zero_mul, Nat.zero_mul]
  | first front text first ih =>
    rw [replaced_of_first filled first, occurrences_of_first filled first, Nat.succ_mul, Nat.succ_mul]
    simp only [List.length_append]
    omega

theorem replaced_eq_self_iff (filled : pattern ≠ []) :
    replaced pattern new text = text ↔ occurrences pattern text = 0 ∨ new = pattern := by
  constructor
  · intro same
    by_cases found : pattern <:+: text
    · obtain ⟨front, back, rfl, first⟩ := exists_first filled found
      have sizes := length_replaced filled new (front ++ pattern ++ back)
      rw [same, occurrences_of_first filled first, Nat.add_left_cancel_iff,
        Nat.mul_right_inj (Nat.succ_ne_zero _)] at sizes
      rw [replaced_of_first filled first, List.append_assoc, List.append_assoc, List.append_cancel_left_eq] at same
      exact .inr (List.append_inj same sizes.symm).1
    · exact .inl (occurrences_of_absent found)
  · rintro (none | rfl)
    · exact replaced_of_absent ((occurrences_eq_zero filled).mp none)
    · exact intercalate_gaps filled text

-- No end of the pattern is a beginning of it.
def Unbordered (pattern : List α) : Prop := ∀ part, part <+: pattern → part <:+ pattern → part = [] ∨ part = pattern

omit [DecidableEq α] in
theorem Unbordered.absent (unbordered : Unbordered pattern) (filled : pattern ≠ []) (absent : ¬ pattern <:+: text) :
    ¬ pattern <:+: text ++ pattern.dropLast := by
  rintro ⟨front, back, whole⟩
  rw [List.append_eq_append_iff] at whole
  obtain ⟨rest, here, -⟩ | ⟨rest, here, tail⟩ := whole
  · exact absent ⟨front, rest, here.symm⟩
  · rw [List.append_eq_append_iff] at here
    obtain ⟨middle, inside, last⟩ | ⟨middle, inside, last⟩ := here
    · have begins : rest <+: pattern := by
        refine List.IsPrefix.trans ?_ (List.dropLast_prefix pattern)
        exact ⟨back, tail.symm⟩
      obtain none | all := unbordered rest begins ⟨middle, last.symm⟩
      · rw [none, List.append_nil] at last
        exact absent ⟨front, [], by rw [inside, last, List.append_nil]⟩
      · have shorter := congrArg List.length tail
        have := List.length_pos_iff.mpr filled
        rw [all, List.length_dropLast, List.length_append] at shorter
        omega
    · have longer := congrArg List.length tail
      have inner := congrArg List.length last
      have := List.length_pos_iff.mpr filled
      rw [List.length_dropLast, List.length_append] at longer
      rw [List.length_append] at inner
      omega

theorem gaps_append (unbordered : Unbordered pattern) (filled : pattern ≠ []) (front back : List α) :
    gaps pattern (front ++ pattern ++ back) = gaps pattern front ++ gaps pattern back := by
  induction front using occurrence_induction filled with
  | absent front absent =>
    rw [gaps_of_first filled (unbordered.absent filled absent), gaps_of_absent absent, List.singleton_append]
  | first earlier front first ih =>
    have assoc : earlier ++ pattern ++ front ++ pattern ++ back = earlier ++ pattern ++ (front ++ pattern ++ back) := by
      simp only [List.append_assoc]
    rw [assoc, gaps_of_first filled first, gaps_of_first filled first, ih, List.cons_append]

theorem occurrences_append (unbordered : Unbordered pattern) (filled : pattern ≠ []) (front back : List α) :
    occurrences pattern (front ++ pattern ++ back) = occurrences pattern front + 1 + occurrences pattern back := by
  have before := List.length_pos_iff.mpr (gaps_ne_nil pattern front)
  have behind := List.length_pos_iff.mpr (gaps_ne_nil pattern back)
  rw [occurrences, gaps_append unbordered filled, List.length_append, occurrences, occurrences]
  omega

omit [DecidableEq α] in
theorem intercalate_append (sep : List α) {xs ys : List (List α)} (some : xs ≠ []) (more : ys ≠ []) :
    sep.intercalate (xs ++ ys) = sep.intercalate xs ++ sep ++ sep.intercalate ys := by
  induction xs with
  | nil => exact absurd rfl some
  | cons x xs ih =>
    by_cases last : xs = []
    · rw [last, List.singleton_append, intercalate_cons _ _ more]
      simp [List.intercalate]
    · rw [List.cons_append, intercalate_cons _ _ (List.append_ne_nil_of_left_ne_nil last ys), ih last,
        intercalate_cons _ _ last]
      simp only [List.append_assoc]

theorem replaced_append (unbordered : Unbordered pattern) (filled : pattern ≠ []) (new front back : List α) :
    replaced pattern new (front ++ pattern ++ back) =
      replaced pattern new front ++ new ++ replaced pattern new back := by
  rw [replaced, gaps_append unbordered filled, intercalate_append _ (gaps_ne_nil _ front) (gaps_ne_nil _ back)]
  rfl

section Pieces

variable {pieces : List (List α)}

theorem replaced_intercalate (unbordered : Unbordered pattern) (filled : pattern ≠ []) (new : List α)
    (some : pieces ≠ []) :
    replaced pattern new (pattern.intercalate pieces) = new.intercalate (pieces.map (replaced pattern new)) := by
  induction pieces with
  | nil => exact absurd rfl some
  | cons piece pieces ih =>
    by_cases last : pieces = []
    · rw [last]
      simp [List.intercalate]
    · rw [intercalate_cons _ _ last, replaced_append unbordered filled, ih last, List.map_cons,
        intercalate_cons _ _ (by simpa using last)]

theorem occurrences_intercalate_cons (unbordered : Unbordered pattern) (filled : pattern ≠ []) (piece : List α)
    (some : pieces ≠ []) : occurrences pattern (pattern.intercalate (piece :: pieces)) =
      occurrences pattern piece + 1 + occurrences pattern (pattern.intercalate pieces) := by
  rw [intercalate_cons _ _ some, occurrences_append unbordered filled]

theorem length_le_occurrences (unbordered : Unbordered pattern) (filled : pattern ≠ []) (some : pieces ≠ []) :
    pieces.length ≤ occurrences pattern (pattern.intercalate pieces) + 1 := by
  induction pieces with
  | nil => exact absurd rfl some
  | cons piece pieces ih =>
    by_cases last : pieces = []
    · rw [last]
      exact Nat.le_add_left 1 _
    · have := ih last
      rw [occurrences_intercalate_cons unbordered filled piece last, List.length_cons]
      omega

theorem occurrences_intercalate_iff (unbordered : Unbordered pattern) (filled : pattern ≠ []) (some : pieces ≠ []) :
    occurrences pattern (pattern.intercalate pieces) + 1 = pieces.length ↔
      ∀ piece ∈ pieces, occurrences pattern piece = 0 := by
  induction pieces with
  | nil => exact absurd rfl some
  | cons piece pieces ih =>
    by_cases last : pieces = []
    · rw [last]
      simp [List.intercalate]
    · have least := length_le_occurrences unbordered filled last
      rw [occurrences_intercalate_cons unbordered filled piece last, List.length_cons, List.forall_mem_cons, ← ih last]
      omega

omit [DecidableEq α] in
theorem length_intercalate_add (pattern new : List α) (some : pieces ≠ []) :
    (new.intercalate pieces).length + pieces.length * pattern.length + new.length =
      (pattern.intercalate pieces).length + pieces.length * new.length + pattern.length := by
  induction pieces with
  | nil => exact absurd rfl some
  | cons piece pieces ih =>
    by_cases last : pieces = []
    · rw [last]
      simp only [List.intercalate, List.intersperse, List.length_singleton, Nat.one_mul]
      omega
    · have rest := ih last
      rw [intercalate_cons _ _ last, intercalate_cons _ _ last]
      simp only [List.length_append, List.length_cons, Nat.succ_mul]
      omega

theorem replaced_pieces (filled : pattern ≠ []) (even : new.length = pattern.length) (some : pieces ≠ [])
    (same : new.intercalate (pieces.map (replaced pattern new)) = new.intercalate pieces) :
    ∀ piece ∈ pieces, replaced pattern new piece = piece := by
  induction pieces with
  | nil => exact absurd rfl some
  | cons piece pieces ih =>
    have size : (replaced pattern new piece).length = piece.length := by
      have lengths := length_replaced filled new piece
      rw [even] at lengths
      exact Nat.add_right_cancel lengths
    by_cases last : pieces = []
    · rw [last] at same ⊢
      simpa [List.intercalate] using same
    · rw [List.map_cons, intercalate_cons _ _ (by simpa using last), intercalate_cons _ _ last, List.append_assoc,
        List.append_assoc] at same
      obtain ⟨here, rest⟩ := List.append_inj same size
      exact List.forall_mem_cons.mpr ⟨here, ih last (List.append_cancel_left rest)⟩

theorem replaced_joints_iff (unbordered : Unbordered pattern) (filled : pattern ≠ []) (some : pieces ≠ []) :
    replaced pattern new (pattern.intercalate pieces) = new.intercalate pieces ↔
      new = pattern ∨ occurrences pattern (pattern.intercalate pieces) + 1 = pieces.length := by
  constructor
  · intro same
    have lengths := length_replaced filled new (pattern.intercalate pieces)
    have joints := length_intercalate_add pattern new some
    rw [same] at lengths
    by_cases even : new.length = pattern.length
    · rw [replaced_intercalate unbordered filled new some] at same
      by_cases itself : new = pattern
      · exact .inl itself
      · refine .inr ((occurrences_intercalate_iff unbordered filled some).mpr fun piece member => ?_)
        have still := replaced_pieces filled even some same piece member
        exact ((replaced_eq_self_iff filled).mp still).resolve_right itself
    · right
      have cross : ((occurrences pattern (pattern.intercalate pieces) + 1 : Int) - pieces.length) *
          (new.length - pattern.length) = 0 := by
        have first : (_ : Int) = _ := congrArg Nat.cast lengths
        have second : (_ : Int) = _ := congrArg Nat.cast joints
        push_cast at first second
        linear_combination second - first
      have uneven : (new.length - pattern.length : Int) ≠ 0 := by omega
      have := (mul_eq_zero.mp cross).resolve_right uneven
      omega
  · rintro (rfl | exactly)
    · exact intercalate_gaps filled _
    · have none := (occurrences_intercalate_iff unbordered filled some).mp exactly
      rw [replaced_intercalate unbordered filled new some]
      congr 1
      exact (List.map_congr_left fun piece member =>
        (replaced_eq_self_iff filled).mpr (.inl (none piece member))).trans (List.map_id _)

omit [DecidableEq α] in
theorem flatMap_intercalate {β : Type} (f : α → List β) (sep : List α) (pieces : List (List α)) :
    (sep.intercalate pieces).flatMap f = (sep.flatMap f).intercalate (pieces.map fun piece => piece.flatMap f) := by
  induction pieces with
  | nil => rfl
  | cons piece pieces ih =>
    by_cases last : pieces = []
    · rw [last]
      simp [List.intercalate]
    · rw [intercalate_cons _ _ last, List.map_cons, intercalate_cons _ _ (by simpa using last), List.flatMap_append,
        List.flatMap_append, ih]

theorem exists_pieces (a : α) (xs : List α) :
    ∃ pieces, xs = [a].intercalate pieces ∧ pieces.length = xs.count a + 1 ∧ ∀ piece ∈ pieces, a ∉ piece := by
  induction xs with
  | nil => exact ⟨[[]], rfl, rfl, by simp⟩
  | cons x xs ih =>
    obtain ⟨pieces, rfl, size, plain⟩ := ih
    have filled : pieces ≠ [] := List.ne_nil_of_length_eq_add_one size
    by_cases here : x = a
    · subst here
      refine ⟨[] :: pieces, by rw [intercalate_cons _ _ filled]; rfl, ?_, List.forall_mem_cons.mpr ⟨by simp, plain⟩⟩
      rw [List.length_cons, size, List.count_cons_self]
    · obtain ⟨piece, pieces, rfl⟩ := List.exists_cons_of_ne_nil filled
      obtain ⟨first, rest⟩ := List.forall_mem_cons.mp plain
      refine ⟨(x :: piece) :: pieces, ?_, by rw [List.count_cons_of_ne here, ← size]; rfl,
        List.forall_mem_cons.mpr ⟨?_, rest⟩⟩
      · cases pieces <;> simp [List.intercalate]
      · rw [List.mem_cons, not_or]
        exact ⟨Ne.symm here, first⟩

end Pieces

end Shared
