import AtomrAgents.Retriever.Bm25
import AtomrAgents.Shared.LossyUtf8
import AtomrAgents.Shared.Occurrences

set_option autoImplicit false

namespace AtomrAgents

structure RecursiveCharacterSplitter where
  chunkSize : Nat
  overlap : Nat
  separators : List String

namespace RecursiveCharacterSplitter

def new (chunkSize overlap : Nat) : RecursiveCharacterSplitter where
  chunkSize
  overlap
  separators := ["\n\n", "\n", ". ", " "]

-- `str::split`; the empty pattern is found between any two characters and at both ends.
def splitOn (sep text : List Char) : List (List Char) :=
  if sep = [] then [] :: text.map (fun c => [c]) ++ [[]] else Shared.gaps sep text

def hardSlices (size : Nat) (text : List Char) : List (List Char) :=
  (Shared.chunks (max size 1) (Shared.utf8 text)).map Shared.fromUtf8Lossy

def merge (size : Nat) (sep : List Char) : List Char → List (List Char) → List (List Char)
  | current, [] => if current = [] then [] else [current]
  | current, p :: parts =>
    if current = [] then merge size sep p parts
    else if current.length + sep.length + p.length ≤ size then merge size sep (current ++ sep ++ p) parts
    else current :: merge size sep p parts

def withOverlap (overlap : Nat) (out : List (List Char)) : List (List Char) :=
  match out with
  | [] => []
  | first :: rest => first :: List.zipWith (fun prev c => (prev.reverse.take overlap).reverse ++ c) out rest

-- The separators from `sep_idx` on.
def splitRecursive (size overlap : Nat) : List String → List Char → List (List Char)
  | [], text => if text.length ≤ size then [text] else hardSlices size text
  | sep :: later, text =>
    if text.length ≤ size then [text]
    else
      let parts := splitOn sep.toList text
      if parts.length = 1 then splitRecursive size overlap later text
      else
        let out := (merge size sep.toList [] parts).flatMap fun c =>
          if size < c.length then splitRecursive size overlap later c else [c]
        if 0 < overlap then withOverlap overlap out else out

def chunkTexts (splitter : RecursiveCharacterSplitter) (text : String) : List (List Char) :=
  splitRecursive splitter.chunkSize splitter.overlap splitter.separators text.toList

def split {K : Type} [OfNat K 0] (splitter : RecursiveCharacterSplitter) (doc : Document K) : List (Document K) :=
  (splitter.chunkTexts doc.text).mapIdx fun i text =>
    { id := doc.id ++ "#chunk" ++ toString i, text := String.ofList text, metadata := doc.metadata, score := 0 }

section Pieces

-- The text is the chunks, with whole separators left out before, between and behind them.
inductive Cut (seps : List (List Char)) : List Char → List (List Char) → Prop
  | nil : Cut seps [] []
  | separator {sep text : List Char} {chunks : List (List Char)} :
      sep ∈ seps → Cut seps text chunks → Cut seps (sep ++ text) chunks
  | chunk (c : List Char) {text : List Char} {chunks : List (List Char)} :
      Cut seps text chunks → Cut seps (c ++ text) (c :: chunks)

variable {seps more : List (List Char)} {text rest c : List Char} {chunks others : List (List Char)}

theorem Cut.single (c : List Char) : Cut seps c [c] := by
  have cut : Cut seps (c ++ []) [c] := .chunk c .nil
  rwa [List.append_nil] at cut

theorem Cut.append (first : Cut seps text chunks) (second : Cut seps rest others) :
    Cut seps (text ++ rest) (chunks ++ others) := by
  induction first with
  | nil => exact second
  | separator member _ ih =>
    rw [List.append_assoc]
    exact .separator member ih
  | chunk c _ ih =>
    rw [List.append_assoc]
    exact .chunk c ih

theorem Cut.mono (cut : Cut seps text chunks) (within : seps ⊆ more) : Cut more text chunks := by
  induction cut with
  | nil => exact .nil
  | separator member _ ih => exact .separator (within member) ih
  | chunk c _ ih => exact .chunk c ih

theorem Cut.refine {cutFurther : List Char → List (List Char)} (cut : Cut seps text chunks)
    (further : ∀ c ∈ chunks, Cut seps c (cutFurther c)) : Cut seps text (chunks.flatMap cutFurther) := by
  induction cut with
  | nil => exact .nil
  | separator member _ ih => exact .separator member (ih further)
  | chunk c _ ih =>
    obtain ⟨here, later⟩ := List.forall_mem_cons.mp further
    exact here.append (ih later)

theorem Cut.of_flatten (chunks : List (List Char)) : Cut seps chunks.flatten chunks := by
  induction chunks with
  | nil => exact .nil
  | cons c chunks ih => exact .chunk c ih

theorem merge_cut (size : Nat) (sep current : List Char) (parts : List (List Char)) :
    Cut [sep] (current ++ parts.flatMap (sep ++ ·)) (merge size sep current parts) := by
  induction parts generalizing current with
  | nil =>
    by_cases none : current = []
    · simpa [merge, none] using Cut.nil
    · simpa [merge, none] using Cut.single current
  | cons p parts ih =>
    have behind : Cut [sep] (sep ++ (p ++ parts.flatMap (sep ++ ·))) (merge size sep p parts) :=
      .separator (List.mem_singleton_self sep) (ih p)
    by_cases none : current = []
    · simpa [merge, none] using behind
    · by_cases fits : current.length + sep.length + p.length ≤ size
      · simpa [merge, none, fits] using ih (current ++ sep ++ p)
      · simpa [merge, none, fits] using Cut.chunk current behind

def InSeparator (seps : List (List Char)) (text : List Char) (i : Nat) : Prop :=
  ∃ sep ∈ seps, ∃ start, start ≤ i ∧ i < start + sep.length ∧ sep <+: text.drop start

-- The chunks are pieces of the text from left to right, of bounded size, and only characters of separators
-- are in none of them. A piece is given by where it starts and where it stops.
def LosesNothing (size : Nat) (seps : List (List Char)) (text : List Char) (chunks : List (List Char)) : Prop :=
  ∃ spans : List (Nat × Nat),
    chunks = spans.map (fun span => (text.drop span.1).take (span.2 - span.1)) ∧
    (∀ span ∈ spans, span.1 ≤ span.2 ∧ span.2 ≤ text.length) ∧
    spans.Pairwise (fun first second => first.2 ≤ second.1) ∧
    (∀ c ∈ chunks, c.length ≤ size) ∧
    ∀ i < text.length, (∃ span ∈ spans, span.1 ≤ i ∧ i < span.2) ∨ InSeparator seps text i

theorem Cut.spans (cut : Cut seps text chunks) (front : List Char) :
    ∃ spans : List (Nat × Nat),
      chunks = spans.map (fun span => ((front ++ text).drop span.1).take (span.2 - span.1)) ∧
      (∀ span ∈ spans, front.length ≤ span.1 ∧ span.1 ≤ span.2 ∧ span.2 ≤ (front ++ text).length) ∧
      spans.Pairwise (fun first second => first.2 ≤ second.1) ∧
      ∀ i < (front ++ text).length, front.length ≤ i →
        (∃ span ∈ spans, span.1 ≤ i ∧ i < span.2) ∨ InSeparator seps (front ++ text) i := by
  induction cut generalizing front with
  | nil => exact ⟨[], by simp, by simp, by simp, by simp; omega⟩
  | @separator sep text chunks member _ ih =>
    obtain ⟨spans, same, bounds, order, covered⟩ := ih (front ++ sep)
    simp only [List.append_assoc] at same bounds covered
    refine ⟨spans, same, fun span inside => ?_, order, fun i within behind => ?_⟩
    · have := bounds span inside
      simp only [List.length_append] at this ⊢
      omega
    · by_cases here : i < (front ++ sep).length
      · right
        refine ⟨sep, member, front.length, behind, by simpa using here, ?_⟩
        rw [List.drop_left]
        exact List.prefix_append _ _
      · exact covered i within (Nat.le_of_not_lt here)
  | @chunk c text chunks _ ih =>
    obtain ⟨spans, same, bounds, order, covered⟩ := ih (front ++ c)
    simp only [List.append_assoc] at same bounds covered
    refine ⟨(front.length, front.length + c.length) :: spans, ?_, ?_, ?_, fun i within behind => ?_⟩
    · rw [List.map_cons, ← same]
      simp
    · intro span inside
      cases List.mem_cons.mp inside with
      | inl here => simp [here]
      | inr later =>
        have := bounds span later
        simp only [List.length_append] at this ⊢
        omega
    · refine List.pairwise_cons.mpr ⟨fun span inside => ?_, order⟩
      simpa using (bounds span inside).1
    · by_cases here : i < front.length + c.length
      · exact .inl ⟨_, List.mem_cons_self, behind, here⟩
      · obtain ⟨span, inside, place⟩ | separator := covered i within (by simpa using here)
        · exact .inl ⟨span, List.mem_cons_of_mem _ inside, place⟩
        · exact .inr separator

theorem Cut.losesNothing {size : Nat} (cut : Cut seps text chunks) (bounded : ∀ c ∈ chunks, c.length ≤ size) :
    LosesNothing size seps text chunks := by
  obtain ⟨spans, same, bounds, order, covered⟩ := cut.spans []
  refine ⟨spans, same, fun span inside => (bounds span inside).2, order, bounded, fun i within => ?_⟩
  exact covered i within (Nat.zero_le i)

theorem LosesNothing.inText {size : Nat} (kept : LosesNothing size seps text chunks) (member : c ∈ chunks) :
    c <:+: text := by
  obtain ⟨spans, same, -⟩ := kept
  rw [same] at member
  obtain ⟨span, -, rfl⟩ := List.mem_map.mp member
  exact (List.take_prefix _ _).isInfix.trans (List.drop_suffix _ _).isInfix

end Pieces

section Oversized

variable {size overlap : Nat} {sep current p text : List Char} {parts : List (List Char)} {seps : List String}

theorem oversized_mem_merge (long : size < p.length) :
    p ∈ merge size sep current parts ↔ p = current ∨ p ∈ parts := by
  have filled : p ≠ [] := List.length_pos_iff.mp (Nat.zero_lt_of_lt long)
  induction parts generalizing current with
  | nil =>
    by_cases none : current = []
    · simp [merge, none, filled]
    · simp [merge, none]
  | cons q parts ih =>
    by_cases none : current = []
    · simp [merge, none, ih, filled]
    · by_cases fits : current.length + sep.length + q.length ≤ size
      · have merged : p ≠ current ++ sep ++ q := by
          intro same
          simp only [same, List.length_append] at long
          omega
        have short : p ≠ current ∧ p ≠ q := by
          constructor <;> intro same <;> rw [same] at long <;> omega
        simp only [List.append_assoc] at merged
        simp [merge, none, fits, ih, merged, short]
      · simp [merge, none, fits, ih]

theorem merge_nil (parts : List (List Char)) : merge size sep [] (p :: parts) = merge size sep p parts := by
  simp [merge]

theorem splitOn_eq_gaps (filled : sep ≠ []) : splitOn sep text = Shared.gaps sep text := by simp [splitOn, filled]

theorem splitOn_single (filled : sep ≠ []) (one : (splitOn sep text).length = 1) : splitOn sep text = [text] := by
  obtain ⟨part, only⟩ := List.length_eq_one_iff.mp one
  have whole := Shared.intercalate_gaps filled text
  rw [splitOn_eq_gaps filled] at only ⊢
  rw [only] at whole ⊢
  simpa [List.intercalate] using whole

theorem length_of_mem_splitOn (filled : sep ≠ []) (member : p ∈ splitOn sep text) : p.length ≤ text.length := by
  rw [splitOn_eq_gaps filled] at member
  exact (Shared.infix_of_mem_gaps filled member).length_le

def fullSplit : List String → List Char → List (List Char)
  | [], text => [text]
  | sep :: later, text => (splitOn sep.toList text).flatMap (fullSplit later)

/-- Wherever a stretch without separators is too long, chunks of so many bytes hold whole characters. -/
def WholeCuts (size : Nat) (seps : List String) (text : List Char) : Prop :=
  ∀ p ∈ fullSplit seps text, size < p.length → Shared.WholeChunks size p

theorem length_of_mem_fullSplit (filled : ∀ sep ∈ seps, sep ≠ "") (member : p ∈ fullSplit seps text) :
    p.length ≤ text.length := by
  induction seps generalizing text with
  | nil => simp [List.mem_singleton.mp member]
  | cons sep later ih =>
    obtain ⟨here, rest⟩ := List.forall_mem_cons.mp filled
    obtain ⟨part, inside, below⟩ := List.mem_flatMap.mp member
    exact (ih rest below).trans (length_of_mem_splitOn (by simpa using here) inside)

theorem wholeCuts_of_short (filled : ∀ sep ∈ seps, sep ≠ "") (short : text.length ≤ size) :
    WholeCuts size seps text := by
  intro p member long
  have := length_of_mem_fullSplit filled member
  omega

theorem wholeCuts_cons {sep : String} {later : List String} :
    WholeCuts size (sep :: later) text ↔ ∀ p ∈ splitOn sep.toList text, WholeCuts size later p := by
  simp only [WholeCuts, fullSplit, List.mem_flatMap]
  constructor
  · intro whole p inside q below
    exact whole q ⟨p, inside, below⟩
  · rintro whole q ⟨p, inside, below⟩
    exact whole p inside q below

theorem splitRecursive_short (short : text.length ≤ size) : splitRecursive size overlap seps text = [text] := by
  cases seps <;> simp [splitRecursive, short]

theorem splitRecursive_single {sep : String} {later : List String} (long : size < text.length)
    (one : (splitOn sep.toList text).length = 1) :
    splitRecursive size overlap (sep :: later) text = splitRecursive size overlap later text := by
  simp [splitRecursive, Nat.not_le.mpr long, one]

def pieces (size overlap : Nat) (sep : String) (later : List String) (text : List Char) : List (List Char) :=
  (merge size sep.toList [] (splitOn sep.toList text)).flatMap fun c =>
    if size < c.length then splitRecursive size overlap later c else [c]

theorem splitRecursive_parts {sep : String} {later : List String} (long : size < text.length)
    (several : (splitOn sep.toList text).length ≠ 1) : splitRecursive size overlap (sep :: later) text =
      if 0 < overlap then withOverlap overlap (pieces size overlap sep later text)
      else pieces size overlap sep later text := by
  simp [splitRecursive, Nat.not_le.mpr long, several, pieces]

theorem hardSlices_eq (positive : 1 ≤ size) (text : List Char) :
    hardSlices size text = (Shared.chunks size (Shared.utf8 text)).map Shared.fromUtf8Lossy := by
  rw [hardSlices, Nat.max_eq_left positive]

theorem mem_splitRecursive_origin (positive : 1 ≤ size) {c : List Char}
    (member : c ∈ splitRecursive size 0 seps text) :
    c = text ∧ c.length ≤ size ∨
      (∃ whole, ∃ chunk ∈ Shared.chunks size (Shared.utf8 whole), c = Shared.fromUtf8Lossy chunk) ∨
      c.length ≤ size ∧ ∃ sep parts, c ∈ merge size sep [] parts := by
  induction seps generalizing text with
  | nil =>
    by_cases short : text.length ≤ size
    · rw [splitRecursive_short short, List.mem_singleton] at member
      exact .inl ⟨member, member ▸ short⟩
    · simp only [splitRecursive, short, if_false, hardSlices_eq positive, List.mem_map] at member
      obtain ⟨chunk, inside, rfl⟩ := member
      exact .inr (.inl ⟨text, chunk, inside, rfl⟩)
  | cons sep later ih =>
    by_cases short : text.length ≤ size
    · rw [splitRecursive_short short, List.mem_singleton] at member
      exact .inl ⟨member, member ▸ short⟩
    · by_cases one : (splitOn sep.toList text).length = 1
      · rw [splitRecursive_single (Nat.lt_of_not_le short) one] at member
        exact ih member
      · rw [splitRecursive_parts (Nat.lt_of_not_le short) one, if_neg (Nat.lt_irrefl 0), pieces,
          List.mem_flatMap] at member
        obtain ⟨chunk, made, below⟩ := member
        have merged : c = chunk → ∃ sep parts, c ∈ merge size sep [] parts := fun same =>
          ⟨sep.toList, splitOn sep.toList text, same ▸ made⟩
        split at below
        · rcases ih below with ⟨same, fits⟩ | deeper
          · exact .inr (.inr ⟨fits, merged same⟩)
          · exact .inr deeper
        · next fits =>
          have same := List.mem_singleton.mp below
          exact .inr (.inr ⟨same ▸ Nat.le_of_not_lt fits, merged same⟩)

theorem length_of_mem_splitRecursive (positive : 1 ≤ size) {c : List Char}
    (member : c ∈ splitRecursive size 0 seps text) : c.length ≤ size := by
  rcases mem_splitRecursive_origin positive member with ⟨-, short⟩ | ⟨whole, chunk, inside, rfl⟩ | ⟨short, -⟩
  · exact short
  · exact (Shared.length_fromUtf8Lossy chunk).trans (Shared.chunk_bounds positive inside).2
  · exact short

theorem intercalate_eq_flatMap (sep p : List Char) (parts : List (List Char)) :
    sep.intercalate (p :: parts) = p ++ parts.flatMap (sep ++ ·) := by
  induction parts generalizing p with
  | nil => simp [List.intercalate]
  | cons q parts ih => simp [Shared.intercalate_cons _ p (List.cons_ne_nil q parts), ih]

theorem splitOn_cut {sep : String} (filled : sep ≠ "") (size : Nat) (text : List Char) :
    Cut [sep.toList] text (merge size sep.toList [] (splitOn sep.toList text)) := by
  have some : sep.toList ≠ [] := by simpa using filled
  have whole := Shared.intercalate_gaps some text
  obtain ⟨p, parts, cut⟩ := List.exists_cons_of_ne_nil (Shared.gaps_ne_nil sep.toList text)
  rw [splitOn_eq_gaps some, cut, merge_nil]
  rw [cut, intercalate_eq_flatMap] at whole
  simpa only [whole] using merge_cut size sep.toList p parts

theorem splitRecursive_cut (positive : 1 ≤ size) (filled : ∀ sep ∈ seps, sep ≠ "") (whole : WholeCuts size seps text) :
    Cut (seps.map String.toList) text (splitRecursive size 0 seps text) := by
  induction seps generalizing text with
  | nil =>
    by_cases short : text.length ≤ size
    · simpa [splitRecursive, short] using Cut.single text
    · have cut : Cut ([].map String.toList) _ (hardSlices size text) := Cut.of_flatten _
      have slices := whole text (List.mem_singleton_self text) (Nat.lt_of_not_le short)
      rw [hardSlices_eq positive, Shared.flatten_of_wholeChunks positive slices] at cut
      simpa [splitRecursive, short, hardSlices_eq positive] using cut
  | cons sep later ih =>
    obtain ⟨here, rest⟩ := List.forall_mem_cons.mp filled
    rw [wholeCuts_cons] at whole
    have inner : ∀ p ∈ splitOn sep.toList text,
        Cut ((sep :: later).map String.toList) p (splitRecursive size 0 later p) := fun p member =>
      (ih rest (whole p member)).mono (List.subset_cons_self _ _)
    by_cases short : text.length ≤ size
    · simpa [splitRecursive_short short] using Cut.single text
    · by_cases one : (splitOn sep.toList text).length = 1
      · rw [splitRecursive_single (Nat.lt_of_not_le short) one]
        exact inner text (by simp [splitOn_single (by simpa using here) one])
      · rw [splitRecursive_parts (Nat.lt_of_not_le short) one, if_neg (Nat.lt_irrefl 0)]
        have outer : Cut ((sep :: later).map String.toList) text _ := (splitOn_cut here size text).mono (by simp)
        refine outer.refine fun c member => ?_
        by_cases long : size < c.length
        · rw [if_pos long]
          have part := (oversized_mem_merge long).mp member
          cases part with
          | inl none => simp [none] at long
          | inr part => exact inner c part
        · rw [if_neg long]
          exact .single c

theorem wholeCuts_of_clean (positive : 1 ≤ size) (filled : ∀ sep ∈ seps, sep ≠ "")
    (clean : ∀ c ∈ splitRecursive size 0 seps text, '\uFFFD' ∉ c) : WholeCuts size seps text := by
  induction seps generalizing text with
  | nil =>
    intro p member long
    rw [fullSplit, List.mem_singleton] at member
    subst member
    apply Shared.wholeChunks_of_clean
    simpa [splitRecursive, Nat.not_le.mpr long, hardSlices_eq positive] using clean
  | cons sep later ih =>
    obtain ⟨here, rest⟩ := List.forall_mem_cons.mp filled
    by_cases short : text.length ≤ size
    · exact wholeCuts_of_short filled short
    · rw [wholeCuts_cons]
      by_cases one : (splitOn sep.toList text).length = 1
      · rw [splitRecursive_single (Nat.lt_of_not_le short) one] at clean
        rw [splitOn_single (by simpa using here) one]
        intro p member
        rw [List.mem_singleton.mp member]
        exact ih rest clean
      · intro p member
        by_cases fits : p.length ≤ size
        · exact wholeCuts_of_short rest fits
        · have long := Nat.lt_of_not_le fits
          apply ih rest
          intro c below
          apply clean
          rw [splitRecursive_parts (Nat.lt_of_not_le short) one, if_neg (Nat.lt_irrefl 0), pieces, List.mem_flatMap]
          exact ⟨p, (oversized_mem_merge long).mpr (.inr member), by simpa [long] using below⟩

theorem losesNothing_iff (positive : 1 ≤ size) (filled : ∀ sep ∈ seps, sep ≠ "") :
    (WholeCuts size seps text →
      LosesNothing size (seps.map String.toList) text (splitRecursive size 0 seps text)) ∧
    ('\uFFFD' ∉ text → LosesNothing size (seps.map String.toList) text (splitRecursive size 0 seps text) →
      WholeCuts size seps text) := by
  constructor
  · intro whole
    exact (splitRecursive_cut positive filled whole).losesNothing fun c member =>
      length_of_mem_splitRecursive positive member
  · intro fresh kept
    exact wholeCuts_of_clean positive filled fun c member inside => fresh ((kept.inText member).subset inside)

end Oversized

end RecursiveCharacterSplitter

end AtomrAgents
