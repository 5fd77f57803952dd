import AtomrAgents.Core.Text
import AtomrAgents.Retriever.Bm25
import AtomrAgents.Shared.UnixPath
import Mathlib.Data.List.Basic

set_option autoImplicit false

namespace AtomrAgents

structure TokenSplitter where
  maxTokens : Nat
  overlapTokens : Nat

-- `str::split_whitespace`
def splitWhitespace (text : String) : List String :=
  ((text.toList.splitOnP isWhitespace).filter (· ≠ [])).map String.ofList

namespace TokenSplitter

def step (splitter : TokenSplitter) : Nat := max (splitter.maxTokens - splitter.overlapTokens) 1

-- The loop of `split` from `start` on, with the tokens of each chunk.
def windows (splitter : TokenSplitter) (toks : List String) (start : Nat) : List (List String) :=
  if start < toks.length then
    let stop := min (start + splitter.maxTokens) toks.length
    let chunk := (toks.drop start).take (stop - start)
    chunk :: if stop = toks.length then [] else splitter.windows toks (start + splitter.step)
  else []
termination_by toks.length - start
decreasing_by
  have : 1 ≤ splitter.step := Nat.le_max_right _ 1
  omega

def split {K : Type} [OfNat K 0] (splitter : TokenSplitter) (doc : Document K) : List (Document K) :=
  (splitter.windows (splitWhitespace doc.text) 0).mapIdx fun i chunk =>
    { id := doc.id ++ "#tk" ++ toString i, text := " ".intercalate chunk, metadata := doc.metadata, score := 0 }

end TokenSplitter

section Words

variable {words : List (List Char)}

def IsToken (word : List Char) : Prop := word ≠ [] ∧ ∀ c ∈ word, isWhitespace c = false

theorem isToken_of_mem {text : String} {word : String} (member : word ∈ splitWhitespace text) :
    IsToken word.toList := by
  simp only [splitWhitespace, List.mem_map, List.mem_filter, decide_eq_true_eq] at member
  obtain ⟨part, ⟨inside, filled⟩, rfl⟩ := member
  rw [String.toList_ofList]
  exact ⟨filled, Shared.of_mem_splitOnP inside⟩

theorem splitOnP_joined (some : words ≠ []) (tokens : ∀ word ∈ words, IsToken word) :
    ([' '].intercalate words).splitOnP isWhitespace = words := by
  induction words with
  | nil => exact absurd rfl some
  | cons word words ih =>
    obtain ⟨here, rest⟩ := List.forall_mem_cons.mp tokens
    have alone : word.splitOnP isWhitespace = [word] := List.splitOnP_eq_singleton here.2
    by_cases last : words = []
    · simpa [last, List.intercalate] using alone
    · rw [Shared.intercalate_cons _ _ last, List.append_assoc, List.singleton_append,
        List.splitOnP_append_cons _ _ (by decide), alone, ih last rest]
      rfl

end Words

theorem splitWhitespace_intercalate {words : List String} (tokens : ∀ word ∈ words, IsToken word.toList) :
    splitWhitespace (" ".intercalate words) = words := by
  by_cases none : words = []
  · subst none
    rfl
  · have all : ∀ word ∈ words.map String.toList, IsToken word := by simpa using tokens
    have parts := splitOnP_joined (by simpa using none) all
    have filled : ∀ word ∈ words.map String.toList, decide (word ≠ []) = true := by
      intro word member
      simpa using (all word member).1
    rw [splitWhitespace, String.toList_intercalate]
    change List.map String.ofList (List.filter _
      (([' '].intercalate (words.map String.toList)).splitOnP isWhitespace)) = _
    rw [parts, List.filter_eq_self.mpr filled]
    simp

namespace TokenSplitter

variable {splitter : TokenSplitter} {toks : List String} {start : Nat}

-- A window is given by where it starts and where it stops.
abbrev Window := Nat × Nat

def Window.tokens (toks : List String) (w : Window) : List String := (toks.drop w.1).take (w.2 - w.1)

/-- Windows of at most `size` tokens that cover all tokens from `start` on, each sharing so many with the next. -/
structure Covers (size shared : Nat) (toks : List String) (start : Nat) (windows : List Window) : Prop where
  first : windows.head? = some (start, min (start + size) toks.length)
  last : windows.getLast?.map Prod.snd = some toks.length
  bounds : ∀ w ∈ windows, w.1 < w.2 ∧ w.2 ≤ toks.length ∧ w.2 - w.1 ≤ size
  -- None is contained in the one before it.
  moves : windows.IsChain fun a b => a.1 < b.1 ∧ b.1 ≤ a.2 ∧ a.2 < b.2 ∧ a.2 - b.1 = shared
  covered : ∀ i, start ≤ i → i < toks.length → ∃ w ∈ windows, w.1 ≤ i ∧ i < w.2
  -- A second window is only made when the first one does not reach the end.
  small : ∀ w ∈ windows, w.1 = start ∨ size < toks.length

theorem step_add (positive : 1 ≤ splitter.maxTokens) :
    splitter.step + min splitter.overlapTokens (splitter.maxTokens - 1) = splitter.maxTokens := by
  rw [step]
  omega

theorem Covers.lastWindow {size shared : Nat} (inside : start < toks.length)
    (ends : toks.length ≤ start + size) : Covers size shared toks start [(start, toks.length)] := by
  constructor
  · rw [Nat.min_eq_right ends]
    rfl
  · rfl
  · simp only [List.mem_singleton, forall_eq]
    omega
  · simp
  · simp only [List.mem_singleton, exists_eq_left]
    omega
  · simp

theorem Covers.cons {size shared gap : Nat} {rest : List Window}
    (covers : Covers size shared toks (start + gap) rest) (forward : 1 ≤ gap) (moves : gap + shared = size)
    (more : start + size < toks.length) : Covers size shared toks start ((start, start + size) :: rest) := by
  cases rest with
  | nil =>
    have first := covers.first
    simp at first
  | cons next rest =>
    have begins : next = (start + gap, min (start + gap + size) toks.length) := by
      simpa using covers.first
    constructor
    · rw [Nat.min_eq_left (Nat.le_of_lt more)]
      rfl
    · simpa using covers.last
    · simp only [List.mem_cons, forall_eq_or_imp]
      exact ⟨by omega, by simpa using covers.bounds⟩
    · refine List.isChain_cons_cons.mpr ⟨?_, covers.moves⟩
      simp only [begins]
      omega
    · intro i behind within
      by_cases here : i < start + size
      · exact ⟨_, List.mem_cons_self, behind, here⟩
      · obtain ⟨w, member, place⟩ := covers.covered i (by omega) within
        exact ⟨w, List.mem_cons_of_mem _ member, place⟩
    · intro w _
      right
      omega

theorem windows_cover (positive : 1 ≤ splitter.maxTokens) (inside : start < toks.length) :
    ∃ windows, splitter.windows toks start = windows.map (Window.tokens toks) ∧
      Covers splitter.maxTokens (min splitter.overlapTokens (splitter.maxTokens - 1)) toks start windows := by
  induction left : toks.length - start using Nat.strong_induction_on generalizing start with
  | h n ih =>
    have moves := step_add positive
    have forward : 1 ≤ splitter.step := Nat.le_max_right _ 1
    by_cases ends : toks.length ≤ start + splitter.maxTokens
    · have stop : min (start + splitter.maxTokens) toks.length = toks.length := Nat.min_eq_right ends
      refine ⟨[(start, toks.length)], ?_, .lastWindow inside ends⟩
      rw [windows]
      simp [inside, stop, Window.tokens]
    · have stop : min (start + splitter.maxTokens) toks.length = start + splitter.maxTokens :=
        Nat.min_eq_left (by omega)
      have more : start + splitter.maxTokens ≠ toks.length := by omega
      obtain ⟨rest, same, covers⟩ := ih _ (by omega) (by omega : start + splitter.step < toks.length) rfl
      refine ⟨(start, start + splitter.maxTokens) :: rest, ?_, covers.cons forward moves (by omega)⟩
      rw [windows, List.map_cons, ← same]
      simp [inside, stop, more, Window.tokens]

/-- The chunks of a text are windows of its tokens, each sharing the overlap with the next one, until the first that
ends with the last token. -/
theorem split_windows {K : Type} [OfNat K 0] (splitter : TokenSplitter) (doc : Document K)
    (positive : 1 ≤ splitter.maxTokens) :
    ∃ windows : List Window,
      (splitter.split doc).map (fun chunk => splitWhitespace chunk.text) =
        windows.map (Window.tokens (splitWhitespace doc.text)) ∧
      (splitWhitespace doc.text = [] → windows = []) ∧
      (splitWhitespace doc.text ≠ [] → Covers splitter.maxTokens
        (min splitter.overlapTokens (splitter.maxTokens - 1)) (splitWhitespace doc.text) 0 windows) := by
  have read : ∀ windows : List Window, splitter.windows (splitWhitespace doc.text) 0 =
        windows.map (Window.tokens (splitWhitespace doc.text)) →
      (splitter.split doc).map (fun chunk => splitWhitespace chunk.text) =
        windows.map (Window.tokens (splitWhitespace doc.text)) := by
    intro windows same
    apply List.ext_getElem?
    intro i
    cases here : windows[i]? with
    | none => simp [split, same, here]
    | some w =>
      have tokens : ∀ word ∈ w.tokens (splitWhitespace doc.text), IsToken word.toList := by
        intro word member
        exact isToken_of_mem (List.mem_of_mem_drop (List.mem_of_mem_take member))
      simp [split, same, here, splitWhitespace_intercalate tokens]
  by_cases none : splitWhitespace doc.text = []
  · refine ⟨[], read [] ?_, fun _ => rfl, fun some => absurd none some⟩
    rw [windows]
    simp [none]
  · obtain ⟨windows, same, covers⟩ := windows_cover positive (List.length_pos_iff.mpr none)
    exact ⟨windows, read windows same, fun empty => absurd empty none, fun _ => covers⟩

-- An overlap as large as the window moves on by one token.
theorem split_windows_overlap : ∃ windows : List Window,
    ((TokenSplitter.mk 2 7).split { id := "d", text := "a b c", metadata := .null, score := (0 : Nat) }).map
        (fun chunk => splitWhitespace chunk.text) = windows.map (Window.tokens (splitWhitespace "a b c")) ∧
      (splitWhitespace "a b c" = [] → windows = []) ∧
      (splitWhitespace "a b c" ≠ [] → Covers 2 (min 7 (2 - 1)) (splitWhitespace "a b c") 0 windows) :=
  split_windows (TokenSplitter.mk 2 7) { id := "d", text := "a b c", metadata := .null, score := (0 : Nat) } (by decide)

end TokenSplitter

end AtomrAgents
