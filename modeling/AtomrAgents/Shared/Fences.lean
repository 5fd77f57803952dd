import Mathlib.Data.List.Basic
import Mathlib.Data.List.Count

set_option autoImplicit false

/-! A text is scanned for two markers; what stands between an opening and the next closing one is a fence. A
text without markers is scanned letter by letter, and a letter that is in neither marker cuts the scan in two.
-/

namespace Shared

inductive Token (α : Type) where
  | opening
  | closing
  | letter (a : α)
  deriving DecidableEq

structure Markers (α : Type) where
  opening : List α
  closing : List α
  opening_ne : opening ≠ []
  closing_ne : closing ≠ []
  apart : ¬ opening <+: closing ∧ ¬ closing <+: opening

namespace Markers

variable {α : Type} [DecidableEq α] (m : Markers α)

-- The first `skip` letters belong to a marker already seen.
def lexFrom : Nat → List α → List (Token α)
  | _, [] => []
  | skip + 1, _ :: rest => lexFrom skip rest
  | 0, a :: rest =>
    if m.opening <+: a :: rest then .opening :: lexFrom (m.opening.length - 1) rest
    else if m.closing <+: a :: rest then .closing :: lexFrom (m.closing.length - 1) rest
    else .letter a :: lexFrom 0 rest

def lex (text : List α) : List (Token α) := m.lexFrom 0 text

def Plain (text : List α) : Prop := ¬ m.opening <:+: text ∧ ¬ m.closing <:+: text

variable {m}

omit [DecidableEq α] in
theorem prefix_break {marker rest : List α} {sep : α} (front : List α) (other : sep ∉ marker) :
    marker <+: front ++ sep :: rest ↔ marker <+: front := by
  constructor
  · intro begins
    rcases List.prefix_or_prefix_of_prefix begins (List.prefix_append front (sep :: rest)) with
      inside | ⟨after, rfl⟩
    · exact inside
    · rw [List.prefix_append_right_inj] at begins
      cases after with
      | nil => simp
      | cons a after =>
        obtain ⟨rfl, -⟩ := List.cons_prefix_cons.mp begins
        exact absurd (by simp) other
  · exact fun begins => begins.trans (List.prefix_append _ _)

omit [DecidableEq α] in
theorem length_le_of_prefix_cons {marker : List α} {a : α} {rest : List α}
    (begins : marker <+: a :: rest) : marker.length - 1 ≤ rest.length := by
  have := begins.length_le
  simp only [List.length_cons] at this
  omega

theorem lexFrom_break (front rest : List α) {sep : α} (open_ : sep ∉ m.opening)
    (close : sep ∉ m.closing) (skip : Nat) (inside : skip ≤ front.length) :
    m.lexFrom skip (front ++ sep :: rest) = m.lexFrom skip front ++ .letter sep :: m.lex rest := by
  induction front generalizing skip with
  | nil =>
    obtain rfl : skip = 0 := by simpa using inside
    have noOpening : ¬ m.opening <+: sep :: rest := fun begins =>
      m.opening_ne (List.prefix_nil.mp ((prefix_break [] open_).mp begins))
    have noClosing : ¬ m.closing <+: sep :: rest := fun begins =>
      m.closing_ne (List.prefix_nil.mp ((prefix_break [] close).mp begins))
    simp [lexFrom, lex, noOpening, noClosing]
  | cons a front ih =>
    cases skip with
    | succ skip => exact ih skip (by simpa using inside)
    | zero =>
      have opens : m.opening <+: a :: (front ++ sep :: rest) ↔ m.opening <+: a :: front :=
        prefix_break (a :: front) open_
      have closes : m.closing <+: a :: (front ++ sep :: rest) ↔ m.closing <+: a :: front :=
        prefix_break (a :: front) close
      simp only [List.cons_append, lexFrom, opens, closes]
      split
      · next begins => simp [ih _ (length_le_of_prefix_cons begins)]
      · split
        · next begins => simp [ih _ (length_le_of_prefix_cons begins)]
        · simp [ih 0 (Nat.zero_le _)]

theorem lex_break (front rest : List α) {sep : α} (open_ : sep ∉ m.opening) (close : sep ∉ m.closing) :
    m.lex (front ++ sep :: rest) = m.lex front ++ .letter sep :: m.lex rest :=
  lexFrom_break front rest open_ close 0 (Nat.zero_le _)

theorem lexFrom_skip (marker rest : List α) : m.lexFrom marker.length (marker ++ rest) = m.lex rest := by
  induction marker with
  | nil => rfl
  | cons a marker ih => exact ih

theorem lex_opening (rest : List α) : m.lex (m.opening ++ rest) = .opening :: m.lex rest := by
  have begins := List.prefix_append m.opening rest
  cases open_ : m.opening with
  | nil => exact absurd open_ m.opening_ne
  | cons a marker =>
    rw [open_] at begins
    simp [lex, lexFrom, open_, lexFrom_skip]

theorem lex_closing (rest : List α) : m.lex (m.closing ++ rest) = .closing :: m.lex rest := by
  have other : ¬ m.opening <+: m.closing ++ rest := by
    intro begins
    rcases List.prefix_or_prefix_of_prefix begins (List.prefix_append m.closing rest) with
      within | within
    · exact m.apart.1 within
    · exact m.apart.2 within
  cases close : m.closing with
  | nil => exact absurd close m.closing_ne
  | cons a marker =>
    rw [close] at other
    simp only [lex, List.cons_append, lexFrom] at other ⊢
    rw [if_neg other, if_pos (by rw [close]; exact List.prefix_append (a :: marker) rest)]
    simp [close, lexFrom_skip, lex]

theorem lex_plain {text : List α} (plain : m.Plain text) : m.lex text = text.map .letter := by
  induction text with
  | nil => rfl
  | cons a rest ih =>
    have noOpening : ¬ m.opening <+: a :: rest := fun begins => plain.1 begins.isInfix
    have noClosing : ¬ m.closing <+: a :: rest := fun begins => plain.2 begins.isInfix
    have later := ih ⟨fun inside => plain.1 (inside.trans (List.suffix_cons a rest).isInfix),
      fun inside => plain.2 (inside.trans (List.suffix_cons a rest).isInfix)⟩
    simpa [lex, lexFrom, noOpening, noClosing] using later

theorem plain_of_lex {text : List α} (opens : .opening ∉ m.lex text) (closes : .closing ∉ m.lex text) :
    m.Plain text := by
  induction text with
  | nil =>
    simp [Plain, List.infix_nil, m.opening_ne, m.closing_ne]
  | cons a rest ih =>
    simp only [lex, lexFrom] at opens closes
    by_cases begins : m.opening <+: a :: rest
    · simp [begins] at opens
    by_cases ends : m.closing <+: a :: rest
    · simp [begins, ends] at closes
    simp only [begins, ends, if_false, List.mem_cons, not_or] at opens closes
    obtain ⟨noOpening, noClosing⟩ := ih opens.2 closes.2
    exact ⟨fun inside => (List.infix_cons_iff.mp inside).elim begins noOpening,
      fun inside => (List.infix_cons_iff.mp inside).elim ends noClosing⟩

theorem plain_iff {text : List α} :
    (.opening ∉ m.lex text ∧ .closing ∉ m.lex text) ↔ m.Plain text := by
  constructor
  · exact fun scanned => plain_of_lex scanned.1 scanned.2
  · intro plain
    simp [lex_plain plain]

instance (text : List α) : Decidable (m.Plain text) := decidable_of_iff _ plain_iff

end Markers

section Scan

variable {α β : Type}

inductive Piece (α β : Type) where
  | outside (a : α)
  | fence (inside : β)
  deriving DecidableEq

def Piece.isFence : Piece α β → Bool
  | .outside _ => false
  | .fence _ => true

def Piece.outside? : Piece α β → Option α
  | .outside a => some a
  | .fence _ => none

variable (read : List α → Option β)

-- `some body`: an opening marker and `body` have been read since.
def scanFrom : Option (List α) → List (Token α) → Option (List (Piece α β))
  | none, [] => some []
  | none, .letter a :: rest => (scanFrom none rest).map (.outside a :: ·)
  | none, .opening :: rest => scanFrom (some []) rest
  | none, .closing :: _ => none
  | some _, [] => none
  | some body, .letter a :: rest => scanFrom (some (body ++ [a])) rest
  | some _, .opening :: _ => none
  | some body, .closing :: rest =>
    match read body with
    | none => none
    | some inside => (scanFrom none rest).map (.fence inside :: ·)

def scan (tokens : List (Token α)) : Option (List (Piece α β)) := scanFrom read none tokens

variable {read}

theorem scanFrom_letters (text : List α) (rest : List (Token α)) :
    scanFrom read none (text.map .letter ++ rest) =
      (scanFrom read none rest).map (text.map .outside ++ ·) := by
  induction text with
  | nil => simp
  | cons a text ih =>
    simp only [List.map_cons, List.cons_append, scanFrom, ih, Option.map_map]
    rfl

theorem scanFrom_body (text body : List α) (rest : List (Token α)) :
    scanFrom read (some body) (text.map .letter ++ rest) = scanFrom read (some (body ++ text)) rest := by
  induction text generalizing body with
  | nil => simp
  | cons a text ih => simp [scanFrom, ih]

theorem scanFrom_fence (body : List α) (rest : List (Token α)) :
    scanFrom read none (.opening :: (body.map .letter ++ .closing :: rest)) =
      match read body with
      | none => none
      | some inside => (scanFrom read none rest).map (.fence inside :: ·) := by
  simp [scanFrom, scanFrom_body]

theorem scanFrom_count [DecidableEq α] (tokens : List (Token α)) (pieces : List (Piece α β)) :
    (scanFrom read none tokens = some pieces →
      tokens.count .opening = pieces.countP Piece.isFence ∧
        tokens.count .closing = pieces.countP Piece.isFence) ∧
    ∀ body, scanFrom read (some body) tokens = some pieces →
      tokens.count .opening + 1 = pieces.countP Piece.isFence ∧
        tokens.count .closing = pieces.countP Piece.isFence := by
  induction tokens generalizing pieces with
  | nil =>
    refine ⟨fun scanned => ?_, fun body scanned => ?_⟩
    · cases scanned
      exact ⟨rfl, rfl⟩
    · cases scanned
  | cons token rest ih =>
    cases token with
    | letter a =>
      constructor
      · intro scanned
        obtain ⟨later, tail, rfl⟩ := Option.map_eq_some_iff.mp scanned
        simpa [Piece.isFence] using (ih later).1 tail
      · intro body scanned
        simpa using (ih pieces).2 _ scanned
    | opening =>
      constructor
      · intro scanned
        simpa using (ih pieces).2 _ scanned
      · intro body scanned
        cases scanned
    | closing =>
      constructor
      · intro scanned
        cases scanned
      · intro body scanned
        simp only [scanFrom] at scanned
        split at scanned
        · cases scanned
        · next inside readable =>
          obtain ⟨later, tail, rfl⟩ := Option.map_eq_some_iff.mp scanned
          obtain ⟨opens, closes⟩ := (ih later).1 tail
          have one : (Piece.fence inside :: later).countP Piece.isFence =
              later.countP Piece.isFence + 1 := List.countP_cons_of_pos rfl
          simp [one, opens, closes]

end Scan

section Break

variable {α : Type} [DecidableEq α]

def breakOn (pattern : List α) : List α → Option (List α × List α)
  | [] => none
  | a :: rest =>
    if pattern <+: a :: rest then some ([], (a :: rest).drop pattern.length)
    else (breakOn pattern rest).map fun (front, back) => (a :: front, back)

theorem breakOn_pair {a b : α} (differ : a ≠ b) (front rest : List α) :
    breakOn [a, b] (front ++ a :: b :: rest) = some (front, rest) ↔ ¬ [a, b] <:+: front := by
  induction front with
  | nil => simp [breakOn, List.infix_nil]
  | cons c front ih =>
    simp only [List.cons_append, breakOn]
    by_cases begins : [a, b] <+: c :: (front ++ a :: b :: rest)
    · have inside : [a, b] <:+: c :: front := by
        obtain ⟨rfl, second⟩ := List.cons_prefix_cons.mp begins
        cases front with
        | nil => exact absurd (List.cons_prefix_cons.mp second).1.symm differ
        | cons d front =>
          obtain ⟨rfl, -⟩ := List.cons_prefix_cons.mp second
          exact (List.prefix_append [a, b] front).isInfix
      simp [begins, inside]
    · have notHere : ¬ [a, b] <+: c :: front := fun here =>
        begins (here.trans (List.prefix_append (c :: front) _))
      rw [if_neg begins, List.infix_cons_iff, not_or, ← ih, Option.map_eq_some_iff]
      constructor
      · rintro ⟨⟨first, back⟩, found, same⟩
        cases same
        exact ⟨notHere, found⟩
      · rintro ⟨-, found⟩
        exact ⟨(front, rest), found, rfl⟩

theorem breakOn_append {pattern : List α} (present : pattern ≠ []) (front rest : List α)
    (before : ¬ pattern <:+: front ++ pattern.dropLast) :
    breakOn pattern (front ++ (pattern ++ rest)) = some (front, rest) := by
  induction front with
  | nil =>
    obtain ⟨a, later, rfl⟩ := List.exists_cons_of_ne_nil present
    rw [List.nil_append, List.cons_append, breakOn, ← List.cons_append,
      if_pos (List.prefix_append (a :: later) rest), List.drop_left]
  | cons c front ih =>
    rw [List.cons_append, List.infix_cons_iff, not_or] at before
    have notHere : ¬ pattern <+: c :: (front ++ (pattern ++ rest)) := by
      intro here
      refine before.1 (List.prefix_of_prefix_length_le here ?_ ?_)
      · rw [← List.cons_append, ← List.cons_append, List.prefix_append_right_inj]
        exact (List.dropLast_prefix pattern).trans (List.prefix_append pattern rest)
      · simp only [List.length_cons, List.length_append, List.length_dropLast]
        omega
    rw [List.cons_append, breakOn, if_neg notHere, ih before.2]
    rfl

theorem breakOn_single {c : Char} {front : List Char} (absent : c ∉ front) (rest : List Char) :
    breakOn [c] (front ++ c :: rest) = some (front, rest) := by
  refine breakOn_append (List.cons_ne_nil c []) front rest fun inside => absent ?_
  have letters := inside.subset (List.mem_singleton_self c)
  simpa using letters

theorem append_of_breakOn {pattern text front rest : List α} (found : breakOn pattern text = some (front, rest)) :
    text = front ++ (pattern ++ rest) := by
  induction text generalizing front with
  | nil => cases found
  | cons c text ih =>
    rw [breakOn] at found
    split at found
    next here =>
      cases found
      rw [List.nil_append]
      exact (List.prefix_iff_eq_append.mp here).symm
    next =>
      obtain ⟨⟨before, after⟩, later, same⟩ := Option.map_eq_some_iff.mp found
      cases same
      rw [ih later, List.cons_append]

theorem breakOn_eq_none_iff {pattern text : List α} (present : pattern ≠ []) :
    breakOn pattern text = none ↔ ¬ pattern <:+: text := by
  induction text with
  | nil => simp [breakOn, List.infix_nil, present]
  | cons c text ih =>
    rw [breakOn, List.infix_cons_iff]
    split
    next here => simp [here]
    next missing => simp [missing, ih]

theorem not_mem_of_breakOn {a : α} {text front rest : List α} (found : breakOn [a] text = some (front, rest)) :
    a ∉ front := by
  induction text generalizing front with
  | nil => cases found
  | cons c text ih =>
    rw [breakOn] at found
    split at found
    next =>
      cases found
      exact List.not_mem_nil
    next other =>
      obtain ⟨⟨before, after⟩, later, same⟩ := Option.map_eq_some_iff.mp found
      cases same
      rw [List.mem_cons, not_or]
      refine ⟨?_, ih later⟩
      rintro rfl
      exact other (List.cons_prefix_cons.mpr ⟨rfl, List.nil_prefix⟩)

end Break

end Shared
