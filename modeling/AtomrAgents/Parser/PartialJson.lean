import AtomrAgents.Parser.BracketCount

set_option autoImplicit false

namespace AtomrAgents

open Shared JsonText

-- What serde_json reads: JSON, unless it is nested more than 127 deep.
def ReadsJson (lexicon : Lexicon) (fromStr : FromStr) : Prop :=
  ∀ text : List Char, (∃ v, fromStr (String.ofList text) = some v) ↔ Spelled lexicon 127 text

variable {lexicon : Lexicon} {fromStr : FromStr} {n : Nat} {text front lead : List Char} {opened : List Container}

theorem unread (reads : ReadsJson lexicon fromStr) {piece : List Char} (other : ¬ Spelled lexicon 127 piece) :
    fromStr (String.ofList piece) = none := by
  cases answer : fromStr (String.ofList piece) with
  | none => rfl
  | some v => exact absurd ((reads piece).mp ⟨v, answer⟩) other

theorem trim_cut (cut : Cut lexicon n text opened front) (inside : opened ≠ []) (white : White lead) :
    trim (String.ofList (lead ++ front)) = String.ofList front := by
  have spaces : ∀ c ∈ [' ', '\t', '\n', '\r'], isWhitespace c = true := List.all_iff_forall_prop.mp (by decide)
  have ends : ∀ c ∈ endChars, isWhitespace c = false := List.all_iff_forall_prop.mp (by decide)
  obtain ⟨c, tail, begins⟩ := cut.begins inside
  obtain ⟨before, last, split, member⟩ := cut.ends
  have first : isWhitespace c.opener = false := by cases c <;> decide
  rw [trim, String.toList_ofList, List.dropWhile_append_of_pos fun c member => spaces c (white c member), begins,
    List.dropWhile_cons_of_neg (by simp [first]), ← begins, split,
    List.rdropWhile_concat_neg _ _ _ (by simp [ends last member])]

theorem closeAll_eq (text : List Char) :
    closeAll (Walk.start.run 0 (utf8 text)).depthObj '}' ++ closeAll (Walk.start.run 0 (utf8 text)).depthArr ']' =
      closers (counted text) := by
  have depth (k : Container) : (Walk.start.run 0 (utf8 text)).depth k =
      Int32.ofInt (surplus k (outside none (utf8 text))) := by
    rw [Walk.depth_run]
    cases k <;> exact Int32.zero_add _
  have objects : (Walk.start.run 0 (utf8 text)).depthObj = _ := depth .object
  have arrays : (Walk.start.run 0 (utf8 text)).depthArr = _ := depth .array
  rw [objects, arrays, closers, counted, List.map_append, List.map_replicate, List.map_replicate]
  rfl

theorem tryParsePartial_cut (reads : ReadsJson lexicon fromStr) (cut : Cut lexicon n text opened front)
    (inside : opened ≠ []) (white : White lead) :
    tryParsePartial fromStr (String.ofList (lead ++ front)) =
      some (fromStr (String.ofList (front ++ closers (counted front)))) := by
  have refused {piece : List Char} (begins : piece <+: front) : fromStr (String.ofList piece) = none :=
    unread reads (cut.unfinished inside begins)
  have filled : ¬ String.ofList front = "" := by
    obtain ⟨c, tail, begins⟩ := cut.begins inside
    simp [begins]
  rw [tryParsePartial]
  dsimp only
  rw [trim_cut cut inside white, if_neg filled, refused (List.prefix_refl _)]
  dsimp only
  rw [String.toList_ofList, closeAll_eq, ← String.ofList_append]
  cases closes : (Walk.start.run 0 (utf8 front)).lastClose with
  | none => rfl
  | some stop =>
    obtain ⟨piece, begins, slice⟩ := Walk.sliced closes
    dsimp only
    rw [slice]
    dsimp only
    rw [refused begins]

-- Objects are closed before arrays, so that this is the right order of two counts only.
theorem eq_replicate_iff {objects arrays : Nat} :
    List.replicate objects Container.object ++ List.replicate arrays .array = opened ↔
      opened.Pairwise (fun inner outer => outer = .object → inner = .object) ∧
        objects = opened.count .object ∧ arrays = opened.count .array := by
  constructor
  · rintro rfl
    refine ⟨?_, by simp [List.count_replicate], by simp [List.count_replicate]⟩
    rw [List.pairwise_append]
    refine ⟨by simp [List.pairwise_replicate], by simp [List.pairwise_replicate], ?_⟩
    intro inner first outer second isObject
    exact List.eq_of_mem_replicate first
  · rintro ⟨ordered, rfl, rfl⟩
    induction opened with
    | nil => rfl
    | cons k opened ih =>
      rw [List.pairwise_cons] at ordered
      have rest := ih ordered.2
      cases k with
      | object =>
        rw [List.count_cons_self, List.count_cons_of_ne (by decide), List.replicate_succ, List.cons_append, rest]
      | array =>
        have none : opened.count .object = 0 := List.count_eq_zero.mpr fun member => by
          cases ordered.1 .object member rfl
        rw [none] at rest
        rw [List.count_cons_self, List.count_cons_of_ne (by decide), none, List.replicate_succ]
        exact congrArg (Container.array :: ·) rest

-- The open objects are inside the open arrays and the count finds both, within what serde_json reads.
structure Repairable (lexicon : Lexicon) (front : List Char) (opened : List Container) : Prop where
  ordered : opened.Pairwise fun inner outer => outer = .object → inner = .object
  objects : unclosed .object front = opened.count .object
  arrays : unclosed .array front = opened.count .array
  shallow : Json lexicon 127 (front ++ closers opened)

theorem repairable_iff (ends : ∀ raw, lexicon.Text raw → raw.getLast? ≠ some '\\')
    (cut : Cut lexicon n text opened front) (few : opened.length < 2 ^ 31) :
    Repairable lexicon front opened ↔
      opened.Pairwise (fun inner outer => outer = .object → inner = .object) ∧
        Json lexicon 127 (front ++ closers opened) := by
  constructor
  · exact fun fit => ⟨fit.ordered, fit.shallow⟩
  · exact fun ⟨ordered, shallow⟩ =>
      { ordered, shallow, objects := unclosed_eq ends cut few .object, arrays := unclosed_eq ends cut few .array }

theorem counted_eq_iff : counted front = opened ↔
    opened.Pairwise (fun inner outer => outer = .object → inner = .object) ∧
      unclosed .object front = opened.count .object ∧ unclosed .array front = opened.count .array :=
  eq_replicate_iff

theorem reads_closed_iff (reads : ReadsJson lexicon fromStr) (cut : Cut lexicon n text opened front)
    (inside : opened ≠ []) :
    (∃ v, fromStr (String.ofList (front ++ closers opened)) = some v ∧
        fromStr (String.ofList (front ++ closers (counted front))) = some v) ↔ Repairable lexicon front opened := by
  constructor
  · rintro ⟨v, closed, repaired⟩
    have right : counted front = opened := cut.closers_unique ((reads _).mp ⟨v, repaired⟩)
    obtain ⟨ordered, objects, arrays⟩ := counted_eq_iff.mp right
    exact ⟨ordered, objects, arrays, cut.json_of_spelled inside ((reads _).mp ⟨v, closed⟩)⟩
  · intro fit
    have right : counted front = opened := counted_eq_iff.mpr ⟨fit.ordered, fit.objects, fit.arrays⟩
    have spelled : Spelled lexicon 127 (front ++ closers opened) := fit.shallow.spelled
    obtain ⟨v, closed⟩ := (reads _).mpr spelled
    exact ⟨v, closed, by rw [right, closed]⟩

theorem feeds_closed_iff (reads : ReadsJson lexicon fromStr) (cut : Cut lexicon n text opened front)
    (inside : opened ≠ []) (white : White lead) {chunks : List String} (some_chunk : chunks ≠ [])
    (received : String.join chunks = String.ofList (lead ++ front)) :
    (∃ v, fromStr (String.ofList (front ++ closers opened)) = some v ∧
        (StreamingPartialJsonParser.new.feedAll fromStr chunks).getLast? = some (some (.ok (some v)))) ↔
      Repairable lexicon front opened := by
  rw [← reads_closed_iff reads cut inside, StreamingPartialJsonParser.feedAll_last fromStr _ some_chunk, received]
  have buffer : StreamingPartialJsonParser.new.buffer ++ String.ofList (lead ++ front) =
      String.ofList (lead ++ front) := String.empty_append
  rw [buffer, tryParsePartial_cut reads cut inside white]
  simp

def basicWords : List (List Char) := ["true".toList, "false".toList, "null".toList, ['0']]

def basicLexicon : Lexicon where
  Scalar raw := raw ∈ basicWords ∨ raw ≠ [] ∧ raw.head? ≠ some '0' ∧ ∀ c ∈ raw, c ∈ "0123456789".toList
  Text raw := Escaped raw
  scalar_filled raw scalar := by
    obtain word | ⟨filled, -⟩ := scalar
    · rintro rfl
      exact absurd word (by decide)
    · exact filled
  scalar_chars raw scalar c member := by
    have words : ∀ d ∈ basicWords.flatten, d ∈ scalarChars := List.all_iff_forall_prop.mp (by decide)
    have digits : ∀ d ∈ "0123456789".toList, d ∈ scalarChars := List.all_iff_forall_prop.mp (by decide)
    obtain word | ⟨-, -, number⟩ := scalar
    · exact words c (List.mem_flatten_of_mem word member)
    · exact digits c (number c member)
  text_escaped raw text := text

def named : Part where
  label := ['"', 'n', 'a', 'm', 'e', '"', ':', ' ']
  value := ['"', 'A', 'l', 'i', 'c', 'e', '"']
  after := []

def namedObject : List Char := '{' :: (joined [named] ++ ['}'])

open Classical in
-- The two objects of the runs below are read as they are; what any other text says does not matter there.
noncomputable def basicFromStr : FromStr := fun text =>
  if Spelled basicLexicon 127 text.toList then
    some (if text = String.ofList namedObject then .object [("name", .string "Alice")]
      else .object [("a", .array [.number (.posInt 1)])])
  else none

theorem basicFromStr_reads : ReadsJson basicLexicon basicFromStr := by
  intro text
  rw [basicFromStr, String.toList_ofList]
  by_cases spelled : Spelled basicLexicon 127 text
  · rw [if_pos spelled]
    exact ⟨fun _ => spelled, fun _ => ⟨_, rfl⟩⟩
  · rw [if_neg spelled]
    constructor
    · rintro ⟨v, found⟩
      cases found
    · exact fun other => absurd other spelled

theorem white_nil : White [] := by simp [White]

theorem named_cut : Cut basicLexicon 127 namedObject [.object] ('{' :: (named.label ++ named.value)) := by
  have text : basicLexicon.Text ['A', 'l', 'i', 'c', 'e'] := escaped_of_plain (List.all_iff_forall_prop.mp (by decide))
  have name : basicLexicon.Text ['n', 'a', 'm', 'e'] := escaped_of_plain (List.all_iff_forall_prop.mp (by decide))
  have space : White [' '] := by simp [White]
  have value : Json basicLexicon 126 ('"' :: (['A', 'l', 'i', 'c', 'e'] ++ ['"'])) := .text text
  have label : Label basicLexicon .object ([] ++ '"' :: (['n', 'a', 'm', 'e'] ++ '"' :: ([] ++ ':' :: [' ']))) :=
    .member white_nil name white_nil space
  have placed : ∀ p ∈ [] ++ named :: [], Placed basicLexicon .object p := by
    simpa [Placed, named, white_nil] using label
  have values : ∀ p ∈ [] ++ named :: [], Json basicLexicon 126 p.value := by simpa [named] using value
  exact .within .object white_nil placed values (.whole value)

theorem named_completes :
    ∃ v, basicFromStr (String.ofList ('{' :: (named.label ++ named.value) ++ closers [.object])) = some v ∧
      (StreamingPartialJsonParser.new.feedAll basicFromStr ["\x7b\"name\":", " \"Ali", "ce\""]).getLast? =
        some (some (.ok (some v))) :=
  (feeds_closed_iff basicFromStr_reads named_cut (List.cons_ne_nil _ _) white_nil (List.cons_ne_nil _ _)
    (by decide)).mpr
    { ordered := by decide
      objects := by decide
      arrays := by decide
      shallow := named_cut.closed }

def single : Part := { label := [], value := ['1'], after := [] }

def nested : Part where
  label := ['"', 'a', '"', ':']
  value := '[' :: (joined [single] ++ [']'])
  after := []

theorem nested_cut : Cut basicLexicon 127 ('{' :: (joined [nested] ++ ['}'])) [.array, .object]
    ('{' :: (nested.label ++ ('[' :: single.value))) := by
  have digits : ∀ c ∈ single.value, c ∈ "0123456789".toList := List.all_iff_forall_prop.mp (by decide)
  have number : Json basicLexicon 125 single.value := .scalar (.inr ⟨by decide, by decide, digits⟩)
  have element : ∀ p ∈ [] ++ single :: [], Placed basicLexicon .array p := by
    simpa [Placed, single, white_nil] using Label.element white_nil
  have elements : ∀ p ∈ [] ++ single :: [], Json basicLexicon 125 p.value := by simpa using number
  have array : Cut basicLexicon 126 nested.value [.array] ('[' :: single.value) :=
    .within .array white_nil element elements (.whole number)
  have name : basicLexicon.Text ['a'] := escaped_of_plain (List.all_iff_forall_prop.mp (by decide))
  have label : Label basicLexicon .object ([] ++ '"' :: (['a'] ++ '"' :: ([] ++ ':' :: []))) :=
    .member white_nil name white_nil white_nil
  have placed : ∀ p ∈ [] ++ nested :: [], Placed basicLexicon .object p := by
    simpa [Placed, nested, white_nil] using label
  have values : ∀ p ∈ [] ++ nested :: [], Json basicLexicon 126 p.value := by simpa using array.json
  exact .within .object white_nil placed values array

/-- The object is closed before the array in it, and nothing is read. -/
theorem array_in_object_lost :
    ReadsJson basicLexicon basicFromStr ∧
      Cut basicLexicon 127 ('{' :: (joined [nested] ++ ['}'])) [.array, .object]
        ('{' :: (nested.label ++ ('[' :: single.value))) ∧
      (∃ v, basicFromStr (String.ofList ('{' :: (nested.label ++ ('[' :: single.value)) ++ closers [.array, .object])) =
        some v) ∧
      (StreamingPartialJsonParser.new.feedAll basicFromStr ["\x7b\"a\":[1"]).getLast? = some (some (.ok none)) := by
  refine ⟨basicFromStr_reads, nested_cut, (basicFromStr_reads _).mpr nested_cut.closed.spelled, ?_⟩
  have counts : counted ('{' :: (nested.label ++ ('[' :: single.value))) = [.object, .array] := by decide
  have refused : basicFromStr (String.ofList ('{' :: (nested.label ++ ('[' :: single.value)) ++
      closers [.object, .array])) = none := by
    refine unread basicFromStr_reads fun spelled => ?_
    have order : [Container.object, .array] = [.array, .object] := nested_cut.closers_unique spelled
    exact absurd order (by decide)
  have answer := tryParsePartial_cut basicFromStr_reads nested_cut (List.cons_ne_nil _ _) white_nil
  rw [counts, refused] at answer
  have buffer : StreamingPartialJsonParser.new.buffer ++ String.join ["\x7b\"a\":[1"] =
      String.ofList ([] ++ '{' :: (nested.label ++ ('[' :: single.value))) := by decide
  rw [StreamingPartialJsonParser.feedAll_last _ _ (List.cons_ne_nil _ _), buffer, answer]
  rfl

end AtomrAgents
