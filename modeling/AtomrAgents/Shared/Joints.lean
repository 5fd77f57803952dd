import AtomrAgents.Shared.Occurrences

set_option autoImplicit false

/-! Where pieces are joined by a separator, a pattern that is in none of them can lie across a joint. Several
patterns that are replaced one after the other can so bring each other back. -/

namespace Shared

variable {α : Type} {q sep a b piece : List α} {pieces : List (List α)}

-- `q` begins at the end of `a` and ends at the beginning of `b`.
def Crosses (q a b : List α) : Prop := ∃ u v, u ≠ [] ∧ v ≠ [] ∧ q = u ++ v ∧ u <:+ a ∧ v <+: b

def Across (q sep : List α) (pieces : List (List α)) : Prop :=
  ∃ front back, front ≠ [] ∧ back ≠ [] ∧ pieces = front ++ back ∧
    (Crosses q (sep.intercalate front) (sep ++ sep.intercalate back) ∨
      Crosses q (sep.intercalate front ++ sep) (sep.intercalate back))

theorem infix_append_iff : q <:+: a ++ b ↔ q <:+: a ∨ q <:+: b ∨ Crosses q a b := List.infix_append_iff_ne_nil

theorem Crosses.extend {a' : List α} (crosses : Crosses q a b) (longer : a <:+ a') : Crosses q a' b := by
  cases crosses with
  | intro u rest =>
    cases rest with
    | intro v parts => exact ⟨u, v, parts.1, parts.2.1, parts.2.2.1, parts.2.2.2.1.trans longer, parts.2.2.2.2⟩

theorem Across.infix_joined (across : Across q sep pieces) : q <:+: sep.intercalate pieces := by
  cases across with
  | intro front rest =>
    cases rest with
    | intro back parts =>
      have whole : sep.intercalate pieces = sep.intercalate front ++ sep ++ sep.intercalate back := by
        simp [parts.2.2.1, intercalate_append sep parts.1 parts.2.1]
      cases parts.2.2.2 with
      | inl left =>
        rw [whole, List.append_assoc]
        exact infix_append_iff.mpr (.inr (.inr left))
      | inr right =>
        rw [whole]
        exact infix_append_iff.mpr (.inr (.inr right))

theorem Across.cons (across : Across q sep pieces) : Across q sep (piece :: pieces) := by
  cases across with
  | intro front rest =>
    cases rest with
    | intro back parts =>
      have longer : sep.intercalate front <:+ sep.intercalate (piece :: front) := by
        rw [intercalate_cons sep piece parts.1]
        exact List.suffix_append _ _
      refine ⟨piece :: front, back, by simp, parts.2.1, by simp [parts.2.2.1], ?_⟩
      cases parts.2.2.2 with
      | inl left => exact .inl (left.extend longer)
      | inr right =>
        right
        apply right.extend
        exact List.suffix_append_self_iff.mpr longer

theorem infix_intercalate_iff (filled : q ≠ []) (clear : ¬ q <:+: sep) :
    q <:+: sep.intercalate pieces ↔ (∃ piece ∈ pieces, q <:+: piece) ∨ Across q sep pieces := by
  constructor
  · intro found
    induction pieces with
    | nil => simp [List.intercalate, filled] at found
    | cons piece pieces ih =>
      by_cases last : pieces = []
      · left
        simpa [last, List.intercalate] using found
      · have first : Crosses q piece (sep ++ sep.intercalate pieces) ∨
            Crosses q (piece ++ sep) (sep.intercalate pieces) →
            Across q sep (piece :: pieces) := by
          intro crosses
          refine ⟨[piece], pieces, by simp, last, rfl, ?_⟩
          simpa [List.intercalate] using crosses
        rw [intercalate_cons sep piece last, List.append_assoc, infix_append_iff, infix_append_iff] at found
        cases found with
        | inl here => exact .inl ⟨piece, by simp, here⟩
        | inr found =>
          cases found with
          | inr crosses => exact .inr (first (.inl crosses))
          | inl found =>
            cases found with
            | inl inside => exact absurd inside clear
            | inr found =>
              cases found with
              | inr crosses => exact .inr (first (.inr (crosses.extend (List.suffix_append piece sep))))
              | inl later =>
                cases ih later with
                | inl member =>
                  left
                  simpa using .inr member
                | inr across => exact .inr across.cons
  · intro found
    cases found with
    | inl member =>
      cases member with
      | intro piece member => exact member.2.trans (infix_intercalate member.1)
    | inr across => exact across.infix_joined

-- No end of the pattern is a beginning of the separator, no end of the separator is a beginning of the pattern,
-- and the pattern is not longer than the separator on both sides.
structure Separates (sep q : List α) : Prop where
  filled : sep ≠ []
  inside : ¬ sep <:+: q
  left : ∀ v, v ≠ [] → v <:+ q → ¬ v <+: sep
  right : ∀ u, u ≠ [] → u <+: q → ¬ u <:+ sep

theorem Separates.of_disjoint (filled : sep ≠ []) (disjoint : ∀ a ∈ q, a ∉ sep) : Separates sep q := by
  have apart : ∀ part : List α, part ≠ [] → part ⊆ q → ¬ part ⊆ sep := by
    intro part some inside outside
    cases List.exists_mem_of_ne_nil part some with
    | intro a member => exact disjoint a (inside member) (outside member)
  constructor
  · exact filled
  · exact fun inside => apart sep filled inside.subset (List.Subset.refl sep)
  · exact fun v some ends begins => apart v some ends.subset begins.subset
  · exact fun u some begins ends => apart u some begins.subset ends.subset

theorem Separates.not_across (separates : Separates sep q) : ¬ Across q sep pieces := by
  intro ⟨front, back, _, _, _, crosses⟩
  cases crosses with
  | inl crosses =>
    obtain ⟨u, v, _, some, whole, _, begins⟩ := crosses
    have ends : v <:+ q := by simp [whole]
    cases List.prefix_or_prefix_of_prefix begins (List.prefix_append sep _) with
    | inl short => exact separates.left v some ends short
    | inr long => exact separates.inside (long.isInfix.trans ends.isInfix)
  | inr crosses =>
    obtain ⟨u, v, some, _, whole, ends, _⟩ := crosses
    have begins : u <+: q := by simp [whole]
    cases List.suffix_or_suffix_of_suffix ends (List.suffix_append _ sep) with
    | inl short => exact separates.right u some begins short
    | inr long => exact separates.inside (long.isInfix.trans begins.isInfix)

section

variable [DecidableEq α] {new text : List α} {patterns : List (List α)}

def replacedAll (new : List α) (patterns : List (List α)) (text : List α) : List α :=
  patterns.foldl (fun text pattern => replaced pattern new text) text

-- Some turn cuts through every occurrence of `q` there is by then.
def Broken (q new : List α) : List (List α) → List α → Prop
  | [], _ => False
  | pattern :: patterns, text =>
    (∀ gap ∈ gaps pattern text, ¬ q <:+: gap) ∨ Broken q new patterns (replaced pattern new text)

-- Whenever a turn puts `q` together across its joints, a later turn cuts through every occurrence of `q`.
def Undone (q new : List α) : List (List α) → List α → Prop
  | [], _ => True
  | pattern :: patterns, text =>
    (Across q new (gaps pattern text) → Broken q new patterns (replaced pattern new text)) ∧
      Undone q new patterns (replaced pattern new text)

theorem infix_replaced_iff {pattern : List α} (filled : q ≠ []) (clear : ¬ q <:+: new) :
    q <:+: replaced pattern new text ↔ (∃ gap ∈ gaps pattern text, q <:+: gap) ∨ Across q new (gaps pattern text) :=
  infix_intercalate_iff filled clear

theorem absent_iff (filled : q ≠ []) (clear : ¬ q <:+: new) (nonempty : ∀ pattern ∈ patterns, pattern ≠ []) :
    ¬ q <:+: replacedAll new patterns text ↔
      Undone q new patterns text ∧ (q <:+: text → Broken q new patterns text) := by
  induction patterns generalizing text with
  | nil => simp [replacedAll, Undone, Broken]
  | cons pattern patterns ih =>
    have step : replacedAll new (pattern :: patterns) text = replacedAll new patterns (replaced pattern new text) := rfl
    have kept : ∀ gap ∈ gaps pattern text, q <:+: gap → q <:+: text := by
      intro gap member inside
      exact inside.trans (infix_of_mem_gaps (nonempty pattern (by simp)) member)
    rw [step, ih fun pattern member => nonempty pattern (by simp [member]), infix_replaced_iff filled clear,
      Undone, Broken]
    constructor
    · intro ⟨undone, broken⟩
      refine ⟨⟨fun across => broken (.inr across), undone⟩, fun _ => ?_⟩
      by_cases free : ∀ gap ∈ gaps pattern text, ¬ q <:+: gap
      · exact .inl free
      · push Not at free
        exact .inr (broken (.inl free))
    · intro ⟨⟨across, undone⟩, broken⟩
      refine ⟨undone, fun found => ?_⟩
      cases found with
      | inl inside =>
        obtain ⟨gap, member, inside⟩ := inside
        exact (broken (kept gap member inside)).resolve_left fun free => free gap member inside
      | inr crosses => exact across crosses

theorem absent_own_iff (filled : q ≠ []) (clear : ¬ q <:+: new) (nonempty : ∀ pattern ∈ patterns, pattern ≠ []) :
    ¬ q <:+: replacedAll new (q :: patterns) text ↔ Undone q new (q :: patterns) text := by
  rw [absent_iff filled clear (by simpa using ⟨filled, nonempty⟩), and_iff_left_iff_imp]
  intro _ _
  left
  intro gap member
  exact not_infix_of_mem_gaps filled member

theorem undone_of_separates (separates : Separates new q) : Undone q new patterns text := by
  induction patterns generalizing text with
  | nil => trivial
  | cons pattern patterns ih => exact ⟨fun across => absurd across separates.not_across, ih⟩

end

end Shared
