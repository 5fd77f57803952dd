import AtomrAgents.Ingest.RecursiveSplitter

set_option autoImplicit false

namespace AtomrAgents.RecursiveCharacterSplitter

variable {size overlap : Nat} {sep : String} {seps later : List String} {text current c p : List Char}
  {parts xs mid ys out : List (List Char)}

section Overlap

-- Each chunk after the first is the end of the piece before it, of at most `overlap` characters, and its own piece.
def Overlapped (overlap : Nat) (pieces chunks : List (List Char)) : Prop :=
  chunks.length = pieces.length ∧ chunks.head? = pieces.head? ∧
    ∀ (i : Nat) prev own, pieces[i]? = some prev → pieces[i + 1]? = some own →
      chunks[i + 1]? = some (prev.drop (prev.length - min overlap prev.length) ++ own)

theorem takeEnd_eq (overlap : Nat) (prev : List Char) :
    (prev.reverse.take overlap).reverse = prev.drop (prev.length - min overlap prev.length) := by
  rw [List.take_reverse, List.reverse_reverse]
  congr 1
  omega

theorem length_withOverlap (overlap : Nat) (out : List (List Char)) :
    (withOverlap overlap out).length = out.length := by
  cases out <;> simp [withOverlap]

theorem overlapped_withOverlap (overlap : Nat) (out : List (List Char)) :
    Overlapped overlap out (withOverlap overlap out) := by
  refine ⟨length_withOverlap overlap out, ?_, fun i prev own before here => ?_⟩
  · cases out <;> rfl
  · cases out with
    | nil => simp at here
    | cons first rest =>
      rw [List.getElem?_cons_succ] at here
      simp [withOverlap, List.getElem?_zipWith, before, here, takeEnd_eq]

theorem overlapped_iff {pieces chunks : List (List Char)} :
    Overlapped overlap pieces chunks ↔ chunks = withOverlap overlap pieces := by
  constructor
  · rintro ⟨size, first, later⟩
    obtain ⟨size', first', later'⟩ := overlapped_withOverlap overlap pieces
    apply List.ext_getElem?
    intro i
    cases i with
    | zero => rw [← List.head?_eq_getElem?, ← List.head?_eq_getElem?, first, first']
    | succ i =>
      cases here : pieces[i + 1]? with
      | none =>
        have outside := List.getElem?_eq_none_iff.mp here
        rw [List.getElem?_eq_none_iff.mpr (by omega), List.getElem?_eq_none_iff.mpr (by omega)]
      | some own =>
        obtain ⟨inside, -⟩ := List.getElem?_eq_some_iff.mp here
        have before := List.getElem?_eq_getElem (Nat.lt_of_succ_lt inside)
        rw [later i _ own before here, later' i _ own before here]
  · rintro rfl
    exact overlapped_withOverlap overlap pieces

theorem withOverlap_short (few : out.length ≤ 1) : withOverlap overlap out = out := by
  match out with
  | [] => rfl
  | [c] => rfl
  | _ :: _ :: _ => simp at few

theorem withOverlap_injective : Function.Injective (withOverlap overlap) := by
  intro xs ys same
  have cons : ∀ (x : List Char) (xs ys : List (List Char)),
      withOverlap overlap (x :: xs) = withOverlap overlap (x :: ys) →
      xs = ys := by
    intro x xs
    induction xs generalizing x with
    | nil =>
      intro ys same
      have lengths := congrArg List.length same
      simpa [length_withOverlap, eq_comm] using lengths
    | cons y xs ih =>
      intro ys same
      cases ys with
      | nil =>
        have lengths := congrArg List.length same
        simp [length_withOverlap] at lengths
      | cons z ys =>
        simp only [withOverlap, List.zipWith_cons_cons, List.cons.injEq, true_and, List.append_cancel_left_eq] at same
        obtain ⟨rfl, same⟩ := same
        rw [ih y ys (by simp [withOverlap, same])]
  cases xs with
  | nil =>
    have lengths := congrArg List.length same
    simpa [length_withOverlap, eq_comm] using lengths
  | cons x xs =>
    cases ys with
    | nil =>
      have lengths := congrArg List.length same
      simp [length_withOverlap] at lengths
    | cons y ys =>
      obtain ⟨rfl, -⟩ := List.cons.inj same
      rw [cons x xs ys same]

abbrev Longer : List (List Char) → List (List Char) → Prop := List.Forall₂ fun c d => c.length ≤ d.length

theorem longer_withOverlap (overlap : Nat) (out : List (List Char)) : Longer out (withOverlap overlap out) := by
  have zip : ∀ firsts rest : List (List Char), firsts.length = rest.length + 1 →
      Longer rest (List.zipWith (fun prev c => (prev.reverse.take overlap).reverse ++ c) firsts rest) := by
    intro firsts rest
    induction rest generalizing firsts with
    | nil => simp
    | cons c rest ih =>
      intro longer
      cases firsts with
      | nil => simp at longer
      | cons first firsts =>
        refine .cons (by simp) (ih firsts ?_)
        simpa using longer
  cases out with
  | nil => exact .nil
  | cons first rest => exact .cons (Nat.le_refl _) (zip _ _ rfl)

end Overlap

-- How many pieces the merged chunks are split into, where a chunk that fits is one piece.
section Merged

variable {f : List Char → List (List Char)} {joint : List Char}

def Blank (size : Nat) (f : List Char → List (List Char)) (p : List Char) : Prop :=
  p = [] ∨ size < p.length ∧ f p = []

-- The parts of one chunk, or one part that is too long and has at most one piece.
def One (size : Nat) (f : List Char → List (List Char)) (joint : List Char) (mid : List (List Char)) : Prop :=
  (joint.intercalate mid).length ≤ size ∨ ∃ p, mid = [p] ∧ size < p.length ∧ (f p).length ≤ 1

def Few (size : Nat) (f : List Char → List (List Char)) (joint : List Char) (parts : List (List Char)) : Prop :=
  ∃ xs mid ys, parts = xs ++ mid ++ ys ∧ (∀ p ∈ xs ++ ys, Blank size f p) ∧ One size f joint mid

variable (fits : ∀ c : List Char, c.length ≤ size → (f c).length = 1)

include fits in
theorem blank_of_merge_nil (none : (merge size joint current parts).flatMap f = []) :
    Blank size f current ∧ ∀ p ∈ parts, Blank size f p := by
  have long : ∀ c, f c = [] → size < c.length := by
    intro c none
    by_contra short
    have one := fits c (Nat.le_of_not_lt short)
    simp [none] at one
  induction parts generalizing current with
  | nil =>
    by_cases empty : current = []
    · simp [Blank, empty]
    · have nothing : f current = [] := by simpa [merge, empty] using none
      simp [Blank, nothing, long current nothing]
  | cons p parts ih =>
    by_cases empty : current = []
    · simp only [merge, empty, if_true] at none
      have rest := ih none
      simp only [List.forall_mem_cons]
      exact ⟨.inl empty, rest⟩
    · by_cases room : current.length + joint.length + p.length ≤ size
      · simp only [merge, empty, room, if_false, if_true] at none
        obtain blank | ⟨exceeds, -⟩ := (ih none).1
        · simp [empty] at blank
        · simp only [List.length_append] at exceeds
          omega
      · simp only [merge, empty, room, if_false, List.flatMap_cons, List.append_eq_nil_iff] at none
        have rest := ih none.2
        simp only [List.forall_mem_cons]
        exact ⟨.inr ⟨long current none.1, none.1⟩, rest⟩

theorem merge_nil_of_blank (blank : Blank size f current) (rest : ∀ p ∈ parts, Blank size f p) :
    (merge size joint current parts).flatMap f = [] := by
  induction parts generalizing current with
  | nil =>
    obtain rfl | ⟨-, nothing⟩ := blank
    · simp [merge]
    · by_cases empty : current = [] <;> simp [merge, empty, nothing]
  | cons p parts ih =>
    obtain ⟨here, later⟩ := List.forall_mem_cons.mp rest
    obtain rfl | ⟨long, nothing⟩ := blank
    · simpa [merge] using ih here later
    · have filled : current ≠ [] := List.length_pos_iff.mp (Nat.zero_lt_of_lt long)
      have exceeds : ¬ current.length + joint.length + p.length ≤ size := by omega
      simpa [merge, filled, exceeds, nothing] using ih here later

theorem length_joined_cons (joint current p : List Char) (mid : List (List Char)) :
    (joint.intercalate (current :: p :: mid)).length =
      current.length + joint.length + (joint.intercalate (p :: mid)).length := by
  rw [Shared.intercalate_cons _ current (List.cons_ne_nil p mid)]
  simp [Nat.add_assoc]

theorem joined_append (joint current p : List Char) (mid : List (List Char)) :
    joint.intercalate ((current ++ joint ++ p) :: mid) = joint.intercalate (current :: p :: mid) := by
  simp [intercalate_eq_flatMap]

theorem length_joined_le (joint p : List Char) (mid : List (List Char)) :
    p.length ≤ (joint.intercalate (p :: mid)).length := by
  simp [intercalate_eq_flatMap]

theorem one_singleton (few : (f current).length ≤ 1) : One size f joint [current] := by
  by_cases short : current.length ≤ size
  · left
    simpa [List.intercalate] using short
  · exact .inr ⟨current, rfl, Nat.lt_of_not_le short, few⟩

-- What is known of the parts when the chunk `current` is being made of the parts before them.
def Rest (size : Nat) (f : List Char → List (List Char)) (joint current : List Char) (parts : List (List Char)) :
    Prop :=
  Blank size f current ∧ Few size f joint parts ∨
    ∃ mid ys, parts = mid ++ ys ∧ (∀ p ∈ ys, Blank size f p) ∧ One size f joint (current :: mid)

theorem Rest.few (rest : Rest size f joint p parts) : Few size f joint (p :: parts) := by
  obtain ⟨blank, xs, mid, ys, rfl, around, one⟩ | ⟨mid, ys, rfl, behind, one⟩ := rest
  · refine ⟨p :: xs, mid, ys, rfl, ?_, one⟩
    simp only [List.cons_append, List.forall_mem_cons]
    exact ⟨blank, around⟩
  · exact ⟨[], p :: mid, ys, rfl, behind, one⟩

include fits in
theorem rest_of_merge (few : ((merge size joint current parts).flatMap f).length ≤ 1) :
    Rest size f joint current parts := by
  induction parts generalizing current with
  | nil =>
    right
    refine ⟨[], [], rfl, by simp, ?_⟩
    by_cases empty : current = []
    · left
      simp [empty, List.intercalate]
    · exact one_singleton (by simpa [merge, empty] using few)
  | cons p parts ih =>
    by_cases empty : current = []
    · left
      simp only [merge, empty, if_true] at few
      exact ⟨.inl empty, (ih few).few⟩
    · by_cases room : current.length + joint.length + p.length ≤ size
      · simp only [merge, empty, room, if_false, if_true] at few
        have short : (current ++ joint ++ p).length ≤ size := by simpa [Nat.add_assoc] using room
        right
        obtain ⟨blank, -⟩ | ⟨mid, ys, rfl, behind, one⟩ := ih few
        · obtain none | ⟨long, -⟩ := blank
          · simp [empty] at none
          · omega
        · refine ⟨p :: mid, ys, rfl, behind, ?_⟩
          obtain joined | ⟨q, same, long, -⟩ := one
          · left
            rwa [joined_append] at joined
          · obtain ⟨rfl, -⟩ := List.cons.inj same
            omega
      · simp only [merge, empty, room, if_false, List.flatMap_cons, List.length_append] at few
        by_cases nothing : f current = []
        · left
          have long : size < current.length := by
            by_contra short
            have one := fits current (Nat.le_of_not_lt short)
            simp [nothing] at one
          exact ⟨.inr ⟨long, nothing⟩, (ih (by omega)).few⟩
        · right
          have := List.length_pos_iff.mpr nothing
          have none : (merge size joint p parts).flatMap f = [] := List.length_eq_zero_iff.mp (by omega)
          obtain ⟨here, later⟩ := blank_of_merge_nil fits none
          exact ⟨[], p :: parts, rfl, List.forall_mem_cons.mpr ⟨here, later⟩, one_singleton (by omega)⟩

include fits in
theorem merge_of_short (short : current.length ≤ size) (blank : ∀ p ∈ parts, Blank size f p) :
    ((merge size joint current parts).flatMap f).length ≤ 1 := by
  induction parts generalizing current with
  | nil => by_cases empty : current = [] <;> simp [merge, empty, fits current short]
  | cons p parts ih =>
    obtain ⟨here, later⟩ := List.forall_mem_cons.mp blank
    by_cases empty : current = []
    · simp [merge, empty, merge_nil_of_blank here later]
    · by_cases room : current.length + joint.length + p.length ≤ size
      · simpa [merge, empty, room] using ih (by simpa [Nat.add_assoc] using room) later
      · simp [merge, empty, room, merge_nil_of_blank here later, fits current short]

include fits in
theorem merge_of_joined (joined : (joint.intercalate (current :: mid)).length ≤ size)
    (blank : ∀ p ∈ ys, Blank size f p) :
    ((merge size joint current (mid ++ ys)).flatMap f).length ≤ 1 := by
  induction mid generalizing current with
  | nil => exact merge_of_short fits (by simpa [List.intercalate] using joined) blank
  | cons p mid ih =>
    have total := length_joined_cons joint current p mid
    by_cases empty : current = []
    · simpa [merge, empty] using ih (by omega)
    · have room : current.length + joint.length + p.length ≤ size := by
        have := length_joined_le joint p mid
        omega
      simpa only [List.cons_append, merge, empty, room, if_false, if_true] using ih (by rwa [joined_append])

include fits in
theorem merge_of_one (one : One size f joint (current :: mid)) (blank : ∀ p ∈ ys, Blank size f p) :
    ((merge size joint current (mid ++ ys)).flatMap f).length ≤ 1 := by
  obtain joined | ⟨q, same, long, few⟩ := one
  · exact merge_of_joined fits joined blank
  · obtain ⟨rfl, rfl⟩ := List.cons.inj same
    have filled : current ≠ [] := List.length_pos_iff.mp (Nat.zero_lt_of_lt long)
    cases ys with
    | nil => simpa [merge, filled] using few
    | cons p ys =>
      obtain ⟨here, later⟩ := List.forall_mem_cons.mp blank
      have exceeds : ¬ current.length + joint.length + p.length ≤ size := by omega
      simpa [merge, filled, exceeds, merge_nil_of_blank here later] using few

include fits in
theorem merge_of_few (blank : Blank size f current) (few : Few size f joint parts) :
    ((merge size joint current parts).flatMap f).length ≤ 1 := by
  obtain ⟨xs, mid, ys, rfl, around, one⟩ := few
  -- A blank chunk that is being made leaves nothing, whatever comes next.
  have skip : ∀ (current : List Char) (p : List Char) parts, Blank size f current →
      (merge size joint current (p :: parts)).flatMap f = (merge size joint p parts).flatMap f := by
    intro current p parts blank
    obtain rfl | ⟨long, nothing⟩ := blank
    · simp [merge]
    · have filled : current ≠ [] := List.length_pos_iff.mp (Nat.zero_lt_of_lt long)
      have exceeds : ¬ current.length + joint.length + p.length ≤ size := by omega
      simp [merge, filled, exceeds, nothing]
  induction xs generalizing current with
  | nil =>
    cases mid with
    | nil =>
      have nothing : (merge size joint current ys).flatMap f = [] := merge_nil_of_blank blank around
      simp only [List.nil_append, nothing, List.length_nil, Nat.zero_le]
    | cons p mid =>
      rw [List.nil_append, List.cons_append, skip _ _ _ blank]
      exact merge_of_one fits one around
  | cons x xs ih =>
    obtain ⟨here, later⟩ := List.forall_mem_cons.mp around
    rw [List.cons_append, List.cons_append, skip _ _ _ blank]
    exact ih here later

include fits in
theorem merge_few_iff : ((merge size joint [] parts).flatMap f).length ≤ 1 ↔ Few size f joint parts := by
  constructor
  · intro few
    obtain ⟨-, few⟩ | ⟨mid, ys, rfl, behind, one⟩ := rest_of_merge fits few
    · exact few
    · refine ⟨[], mid, ys, rfl, behind, .inl ?_⟩
      obtain joined | ⟨q, same, long, -⟩ := one
      · cases mid with
        | nil => simp [List.intercalate]
        | cons p mid =>
          have total := length_joined_cons joint [] p mid
          omega
      · obtain ⟨rfl, -⟩ := List.cons.inj same
        simp at long
  · exact merge_of_few fits (.inl rfl)

end Merged

section Levels

-- Nothing but separators, too many to be left as they are.
def Vanishes (size : Nat) : List String → List Char → Prop
  | [], _ => False
  | sep :: later, c => size < c.length ∧ ∀ p ∈ splitOn sep.toList c, p = [] ∨ Vanishes size later p

def AtMostOne (size : Nat) : List String → List Char → Prop
  | [], c => c.length ≤ size
  | sep :: later, c => c.length ≤ size ∨ ∃ xs mid ys, splitOn sep.toList c = xs ++ mid ++ ys ∧
      (∀ p ∈ xs ++ ys, p = [] ∨ Vanishes size later p) ∧
      ((sep.toList.intercalate mid).length ≤ size ∨ ∃ p, mid = [p] ∧ AtMostOne size later p)

def NoneOccurs (seps : List String) (c : List Char) : Prop := ∀ sep ∈ seps, (splitOn sep.toList c).length = 1

def Inside (size : Nat) (seps : List String) (c : List Char) : Prop := NoneOccurs seps c ∨ AtMostOne size seps c

def OverlapsOnce (size : Nat) : List String → List Char → Prop
  | [], text => text.length ≤ size
  | sep :: later, text => text.length ≤ size ∨
      if (splitOn sep.toList text).length = 1 then OverlapsOnce size later text
      else ∀ p ∈ splitOn sep.toList text, Inside size later p

variable (positive : 1 ≤ size) (filled : ∀ sep ∈ seps, sep ≠ "")

abbrev further (size : Nat) (later : List String) (c : List Char) : List (List Char) :=
  if size < c.length then splitRecursive size 0 later c else [c]

theorem further_short (later : List String) (c : List Char) (short : c.length ≤ size) :
    (further size later c).length = 1 := by
  simp [further, Nat.not_lt.mpr short]

theorem splitRecursive_pieces (long : size < c.length) (some : sep ≠ "") :
    splitRecursive size 0 (sep :: later) c =
      (merge size sep.toList [] (splitOn sep.toList c)).flatMap (further size later) := by
  by_cases one : (splitOn sep.toList c).length = 1
  · have only := splitOn_single (by simpa using some) one
    have full : c ≠ [] := List.length_pos_iff.mp (Nat.zero_lt_of_lt long)
    rw [splitRecursive_single long one, only]
    simp [merge, full, further, long]
  · rw [splitRecursive_parts long one, if_neg (Nat.lt_irrefl 0), pieces]

theorem Vanishes.long (vanishes : Vanishes size seps c) : size < c.length := by
  cases seps with
  | nil => exact vanishes.elim
  | cons sep later => exact vanishes.1

theorem further_long (long : size < p.length) : further size later p = splitRecursive size 0 later p := by
  simp [further, long]

include positive in
theorem length_hardSlices (long : size < c.length) : 2 ≤ (hardSlices size c).length := by
  have bytes := Shared.length_fromUtf8Lossy (Shared.utf8 c)
  rw [Shared.fromUtf8Lossy_utf8] at bytes
  rw [hardSlices_eq positive, List.length_map]
  exact Shared.length_chunks positive (long.trans_le bytes)

theorem blank_further_iff (same : size < p.length → (splitRecursive size 0 later p = [] ↔ Vanishes size later p)) :
    Blank size (further size later) p ↔ p = [] ∨ Vanishes size later p := by
  by_cases exceeds : size < p.length
  · simp only [Blank, exceeds, further_long exceeds, same exceeds, true_and]
  · have stays : ¬ Vanishes size later p := fun vanishes => exceeds vanishes.long
    simp [Blank, exceeds, stays]

include positive filled in
theorem splitRecursive_nil_iff (long : size < c.length) : splitRecursive size 0 seps c = [] ↔ Vanishes size seps c := by
  induction seps generalizing c with
  | nil =>
    have slices := length_hardSlices positive long
    have some : hardSlices size c ≠ [] := List.length_pos_iff.mp (by omega)
    simp [splitRecursive, Nat.not_le.mpr long, some, Vanishes]
  | cons sep later ih =>
    obtain ⟨here, rest⟩ := List.forall_mem_cons.mp filled
    have blank : ∀ p, Blank size (further size later) p ↔ p = [] ∨ Vanishes size later p := fun p =>
      blank_further_iff (ih rest)
    simp only [splitRecursive_pieces long here, Vanishes, long, true_and, ← blank]
    constructor
    · exact fun none => (blank_of_merge_nil (further_short later) none).2
    · exact merge_nil_of_blank (.inl rfl)

include positive filled in
theorem splitRecursive_few_iff : (splitRecursive size 0 seps c).length ≤ 1 ↔ AtMostOne size seps c := by
  induction seps generalizing c with
  | nil =>
    by_cases short : c.length ≤ size
    · simp [splitRecursive, short, AtMostOne]
    · have slices := length_hardSlices positive (Nat.lt_of_not_le short)
      simp only [splitRecursive, short, if_false, AtMostOne, iff_false]
      omega
  | cons sep later ih =>
    obtain ⟨here, rest⟩ := List.forall_mem_cons.mp filled
    by_cases short : c.length ≤ size
    · simp [splitRecursive_short short, AtMostOne, short]
    · have long := Nat.lt_of_not_le short
      have blank : ∀ p, Blank size (further size later) p ↔ p = [] ∨ Vanishes size later p := fun p =>
        blank_further_iff (splitRecursive_nil_iff positive rest)
      have one : ∀ mid, One size (further size later) sep.toList mid ↔
          (sep.toList.intercalate mid).length ≤ size ∨ ∃ p, mid = [p] ∧ AtMostOne size later p := by
        intro mid
        apply or_congr_right'
        intro joined
        apply exists_congr
        intro p
        apply and_congr_right
        rintro rfl
        have exceeds : size < p.length := by simpa [List.intercalate] using joined
        simp only [exceeds, true_and, further_long exceeds, ih rest]
      simp only [splitRecursive_pieces long here, merge_few_iff (further_short later), AtMostOne, short, false_or, Few,
        blank, one]

theorem atMostOne_of_short (short : c.length ≤ size) : AtMostOne size seps c := by
  cases seps <;> simp [AtMostOne, short]

theorem filled_of_mem_merge {sep : List Char} (member : c ∈ merge size sep current parts) : c ≠ [] := by
  induction parts generalizing current with
  | nil =>
    by_cases empty : current = []
    · simp [merge, empty] at member
    · simp only [merge, empty, if_false, List.mem_singleton] at member
      rwa [member]
  | cons p parts ih =>
    by_cases empty : current = []
    · simp only [merge, empty, if_true] at member
      exact ih member
    · by_cases room : current.length + sep.length + p.length ≤ size
      · simp only [merge, empty, room, if_false, if_true] at member
        exact ih member
      · simp only [merge, empty, room, if_false, List.mem_cons] at member
        cases member with
        | inl here => rwa [here]
        | inr behind => exact ih behind

include positive in
theorem filled_of_mem_splitRecursive (full : text ≠ []) (member : c ∈ splitRecursive size 0 seps text) : c ≠ [] := by
  rcases mem_splitRecursive_origin positive member with ⟨rfl, -⟩ | ⟨whole, chunk, inside, rfl⟩ | ⟨-, sep, parts, merged⟩
  · exact full
  · exact Shared.fromUtf8Lossy_ne_nil (Shared.chunk_bounds positive inside).1
  · exact filled_of_mem_merge merged

theorem longer_trans {xs ys zs : List (List Char)} (first : Longer xs ys) (second : Longer ys zs) : Longer xs zs := by
  induction first generalizing zs with
  | nil => exact second
  | cons le _ ih =>
    cases second with
    | cons le' rest => exact .cons (le.trans le') (ih rest)

theorem longer_pieces (below : ∀ c, Longer (splitRecursive size 0 later c) (splitRecursive size overlap later c)) :
    Longer (pieces size 0 sep later text) (pieces size overlap sep later text) := by
  have same : List.Forall₂ Eq (merge size sep.toList [] (splitOn sep.toList text))
      (merge size sep.toList [] (splitOn sep.toList text)) := List.forall₂_same.mpr fun _ _ => rfl
  apply List.rel_flatMap same
  rintro c - rfl
  by_cases long : size < c.length
  · simpa [long] using below c
  · simp [long]

theorem longer_splitRecursive (overlap : Nat) (seps : List String) (text : List Char) :
    Longer (splitRecursive size 0 seps text) (splitRecursive size overlap seps text) := by
  induction seps generalizing text with
  | nil => exact List.forall₂_same.mpr fun c _ => Nat.le_refl c.length
  | cons sep later ih =>
    by_cases short : text.length ≤ size
    · simp [splitRecursive_short short]
    · by_cases one : (splitOn sep.toList text).length = 1
      · simpa only [splitRecursive_single (Nat.lt_of_not_le short) one] using ih text
      · have level : Longer (pieces size 0 sep later text) (pieces size overlap sep later text) := longer_pieces ih
        rw [splitRecursive_parts (Nat.lt_of_not_le short) one, splitRecursive_parts (Nat.lt_of_not_le short) one,
          if_neg (Nat.lt_irrefl 0)]
        split
        · exact longer_trans level (longer_withOverlap overlap _)
        · exact level

theorem few_of_withOverlap {out long : List (List Char)} (some : 0 < overlap) (full : ∀ c ∈ out, c ≠ [])
    (longer : Longer out long) (same : withOverlap overlap long = out) : out.length ≤ 1 := by
  cases longer with
  | nil => simp
  | @cons c d _ _ first rest =>
    cases rest with
    | nil => simp
    | cons second _ =>
      exfalso
      have lengths := congrArg List.length (List.cons.inj (List.cons.inj same).2).1
      have := List.length_pos_iff.mpr (full c List.mem_cons_self)
      simp only [List.length_append, List.length_reverse, List.length_take] at lengths
      omega

theorem flatMap_eq_iff {f g : List Char → List (List Char)} (even : ∀ c, (f c).length = (g c).length)
    (chunks : List (List Char)) : chunks.flatMap f = chunks.flatMap g ↔ ∀ c ∈ chunks, f c = g c := by
  induction chunks with
  | nil => simp
  | cons c chunks ih =>
    rw [List.flatMap_cons, List.flatMap_cons, List.forall_mem_cons, ← ih]
    constructor
    · intro same
      exact List.append_inj same (even c)
    · rintro ⟨here, rest⟩
      rw [here, rest]

theorem pieces_eq_iff
    (below : ∀ p, splitRecursive size overlap later p = splitRecursive size 0 later p ↔ Inside size later p) :
    pieces size overlap sep later text = pieces size 0 sep later text ↔
      ∀ p ∈ splitOn sep.toList text, Inside size later p := by
  have even : ∀ c : List Char, (if size < c.length then splitRecursive size overlap later c else [c]).length =
      (if size < c.length then splitRecursive size 0 later c else [c]).length := by
    intro c
    split
    · exact (longer_splitRecursive overlap later c).length_eq.symm
    · rfl
  rw [pieces, pieces, flatMap_eq_iff even]
  constructor
  · intro same p member
    by_cases long : size < p.length
    · have made := same p ((oversized_mem_merge long).mpr (.inr member))
      simp only [long, if_true] at made
      exact (below p).mp made
    · exact .inr (atMostOne_of_short (Nat.le_of_not_lt long))
  · intro inside c member
    by_cases long : size < c.length
    · simp only [long, if_true]
      cases (oversized_mem_merge long).mp member with
      | inl none => simp [none] at long
      | inr part => exact (below c).mpr (inside c part)
    · simp [long]

include positive filled in
theorem inside_iff (some : 0 < overlap) (c : List Char) :
    splitRecursive size overlap seps c = splitRecursive size 0 seps c ↔ Inside size seps c := by
  induction seps generalizing c with
  | nil => simp [splitRecursive, Inside, NoneOccurs]
  | cons sep later ih =>
    obtain ⟨here, rest⟩ := List.forall_mem_cons.mp filled
    by_cases short : c.length ≤ size
    · simp [splitRecursive_short short, Inside, atMostOne_of_short short]
    · have long := Nat.lt_of_not_le short
      by_cases one : (splitOn sep.toList c).length = 1
      · have level := ih rest c
        have count := splitRecursive_few_iff (c := c) positive filled
        simp only [Inside, NoneOccurs, List.forall_mem_cons, one, true_and, ← count, splitRecursive_single long one]
        simpa only [Inside, NoneOccurs, ← splitRecursive_few_iff positive rest] using level
      · have never : ¬ NoneOccurs (sep :: later) c := fun none => one (none sep List.mem_cons_self)
        simp only [Inside, never, false_or]
        rw [← splitRecursive_few_iff positive filled, splitRecursive_parts long one, splitRecursive_parts long one,
          if_pos some, if_neg (Nat.lt_irrefl 0)]
        constructor
        · refine few_of_withOverlap some (fun p member => ?_) (longer_pieces (longer_splitRecursive overlap later))
          apply filled_of_mem_splitRecursive positive (List.length_pos_iff.mp (Nat.zero_lt_of_lt long))
          rw [splitRecursive_parts long one, if_neg (Nat.lt_irrefl 0)]
          exact member
        · intro few
          have level : pieces size overlap sep later c = pieces size 0 sep later c := by
            apply (pieces_eq_iff (ih rest)).mpr
            intro p member
            by_cases fits : p.length ≤ size
            · exact .inr (atMostOne_of_short fits)
            · right
              have exceeds := Nat.lt_of_not_le fits
              have made : p ∈ merge size sep.toList [] (splitOn sep.toList c) :=
                (oversized_mem_merge exceeds).mpr (.inr member)
              apply (splitRecursive_few_iff positive rest).mp
              have within := (List.sublist_flatten_of_mem
                (List.mem_map_of_mem (f := further size later) made)).length_le
              rw [further_long exceeds] at within
              exact within.trans few
          rw [level, withOverlap_short few]

include positive filled in
theorem overlapped_iff_once (some : 0 < overlap) :
    Overlapped overlap (splitRecursive size 0 seps text) (splitRecursive size overlap seps text) ↔
      OverlapsOnce size seps text := by
  rw [overlapped_iff]
  induction seps generalizing text with
  | nil =>
    by_cases short : text.length ≤ size
    · simp [splitRecursive_short short, withOverlap, OverlapsOnce, short]
    · have long := Nat.lt_of_not_le short
      simp only [OverlapsOnce, short, iff_false]
      intro same
      have slices := length_hardSlices positive long
      have few := few_of_withOverlap some (fun c member => filled_of_mem_splitRecursive positive
        (List.length_pos_iff.mp (Nat.zero_lt_of_lt long)) member) (longer_splitRecursive 0 [] text) same.symm
      simp only [splitRecursive, short, if_false] at few
      omega
  | cons sep later ih =>
    obtain ⟨here, rest⟩ := List.forall_mem_cons.mp filled
    by_cases short : text.length ≤ size
    · simp [splitRecursive_short short, withOverlap, OverlapsOnce, short]
    · have long := Nat.lt_of_not_le short
      by_cases one : (splitOn sep.toList text).length = 1
      · simp only [OverlapsOnce, short, one, if_true, false_or, splitRecursive_single long one]
        exact ih rest
      · simp only [OverlapsOnce, short, one, if_false, false_or, splitRecursive_parts long one, some, if_true,
          Nat.lt_irrefl]
        rw [withOverlap_injective.eq_iff]
        exact pieces_eq_iff (inside_iff positive rest some)

end Levels

section Documents

variable {K : Type} [OfNat K 0]

def texts (splitter : RecursiveCharacterSplitter) (doc : Document K) : List (List Char) :=
  (splitter.split doc).map fun chunk => chunk.text.toList

theorem texts_eq (splitter : RecursiveCharacterSplitter) (doc : Document K) :
    splitter.texts doc = splitter.chunkTexts doc.text := by
  apply List.ext_getElem?
  intro i
  cases here : (splitter.chunkTexts doc.text)[i]? <;> simp [texts, split, here]

/-- Nothing of a document is lost without overlap; with it, each chunk is made of two pieces that the splitter gives
without it. -/
structure Splits (splitter : RecursiveCharacterSplitter) (doc : Document K) : Prop where
  whole : splitter.overlap = 0 → LosesNothing splitter.chunkSize (splitter.separators.map String.toList) doc.text.toList
    (splitter.texts doc)
  overlapped : 0 < splitter.overlap →
    Overlapped splitter.overlap ({ splitter with overlap := 0 }.texts doc) (splitter.texts doc)

structure Unharmed (splitter : RecursiveCharacterSplitter) (doc : Document K) : Prop where
  whole : splitter.overlap = 0 → WholeCuts splitter.chunkSize splitter.separators doc.text.toList
  once : 0 < splitter.overlap → OverlapsOnce splitter.chunkSize splitter.separators doc.text.toList

theorem splits_iff (splitter : RecursiveCharacterSplitter) (doc : Document K) (positive : 1 ≤ splitter.chunkSize)
    (filled : ∀ sep ∈ splitter.separators, sep ≠ "") :
    (splitter.Unharmed doc → splitter.Splits doc) ∧
      ((splitter.overlap = 0 → '\uFFFD' ∉ doc.text.toList) → splitter.Splits doc → splitter.Unharmed doc) := by
  have kept := fun text : List Char => @losesNothing_iff splitter.chunkSize text splitter.separators positive filled
  constructor
  · intro unharmed
    constructor
    · intro none
      simpa only [texts_eq, chunkTexts, none] using (kept _).1 (unharmed.whole none)
    · intro some
      simpa only [texts_eq, chunkTexts] using (overlapped_iff_once positive filled some).mpr (unharmed.once some)
  · intro fresh splits
    constructor
    · intro none
      have whole := splits.whole none
      simp only [texts_eq, chunkTexts, none] at whole
      exact (kept _).2 (fresh none) whole
    · intro some
      have overlapped := splits.overlapped some
      simp only [texts_eq, chunkTexts] at overlapped
      exact (overlapped_iff_once positive filled some).mp overlapped

def page (text : String) : Document Nat := { id := "page", text, metadata := .null, score := 0 }

-- "three words" is cut at its space.
theorem splits_iff_words : 1 ≤ (new 5 2).chunkSize ∧ (new 5 2).Splits (page "three words") := by
  refine ⟨by decide, (splits_iff (new 5 2) (page "three words") (by decide) (by decide)).1 ⟨?_, fun _ => ?_⟩⟩
  · intro none
    exact absurd none (by decide)
  · have cut : OverlapsOnce 5 [" "] "three words".toList := by
      right
      rw [if_neg (by decide)]
      intro p _
      left
      simp [NoneOccurs]
    have skip : ∀ sep later, (splitOn sep.toList "three words".toList).length = 1 →
        OverlapsOnce 5 later "three words".toList → OverlapsOnce 5 (sep :: later) "three words".toList := by
      intro sep later one rest
      right
      rwa [if_pos one]
    exact skip _ _ (by decide) (skip _ _ (by decide) (skip _ _ (by decide) cut))

/-- A slice of one byte goes through both characters, and the inner chunk gets its overlap twice. -/
theorem sliced_and_doubled :
    ¬ (new 1 0).Splits (page "éé") ∧
      { new 2 1 with separators := ["\n", " "] }.texts (page "aa bb\ncc") =
        ["aa".toList, "aabb".toList, "bcc".toList] ∧
      { new 2 0 with separators := ["\n", " "] }.texts (page "aa bb\ncc") =
        ["aa".toList, "bb".toList, "cc".toList] := by
  refine ⟨fun splits => ?_, by decide, by decide⟩
  have kept := splits.whole rfl
  have sliced : ['\uFFFD'] ∈ (new 1 0).texts (page "éé") := by decide
  have inside := (kept.inText sliced).subset (List.mem_singleton_self _)
  revert inside
  decide

end Documents

end AtomrAgents.RecursiveCharacterSplitter
