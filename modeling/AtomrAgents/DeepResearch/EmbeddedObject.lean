import AtomrAgents.DeepResearch.ParseJson
import AtomrAgents.Parser.PartialJson

set_option autoImplicit false

namespace AtomrAgents.DeepResearch

open Shared JsonText

section

variable {front : List Char}

theorem ofNat_eq_zero_iff (n : Nat) : Int32.ofNat n = 0 ↔ 2 ^ 32 ∣ n := by
  rw [← Int32.toBitVec_inj, ← BitVec.toNat_inj, Nat.dvd_iff_mod_eq_zero]
  exact Iff.rfl

theorem firstJsonObject_neutral (neutral : Neutral front) (none_opens : '{' ∉ front) {inner : List Char}
    (kept : Kept 126 inner) (back : List Char) :
    firstJsonObject (String.ofList (framed front inner back)) =
      some (some (String.ofList ('{' :: (inner ++ ['}'])))) := by
  have level : (0 : Int32) - Int32.ofNat (unopened .plain front) = 0 := by
    rw [(ofNat_eq_zero_iff _).mpr neutral.level]
    rfl
  have prose := run_prose 0 .plain 0 none_opens
  rw [level, neutral.plain] at prose
  have found : ObjectScan.begin.run 0 (utf8 (framed front inner back)) =
      .found (utf8Length front) (utf8Length front + 1 + utf8Length inner) := by
    rw [framed, utf8_append]
    refine (ObjectScan.run_append prose _).trans ((run_object kept _ back).trans ?_)
    rw [Nat.zero_add]
  have size : utf8Length front + 1 + utf8Length inner + 1 = utf8Length (front ++ '{' :: (inner ++ ['}'])) := by
    rw [utf8Length_append, utf8Length_cons, utf8Length_append]
    change _ = utf8Length front + (1 + (utf8Length inner + 1))
    omega
  have shape : framed front inner back = front ++ '{' :: (inner ++ ['}']) ++ back := by simp [framed]
  rw [firstJsonObject, String.toList_ofList, found]
  dsimp only
  rw [size, shape, slice_append]
  rfl

theorem firstJsonObject_lost (lost : ¬ Neutral front) (none_opens : '{' ∉ front) :
    firstJsonObject (String.ofList (framed front [] [])) = some none := by
  have prose := run_prose 0 .plain 0 none_opens
  have going : ∃ scan, ObjectScan.begin.run 0 (utf8 (framed front [] [])) = .going scan := by
    rw [framed, utf8_append]
    cases ends : (unquote .plain front).1 with
    | quoted =>
      rw [ends] at prose
      exact ⟨_, (ObjectScan.run_append prose _).trans rfl⟩
    | escaping =>
      rw [ends] at prose
      exact ⟨_, (ObjectScan.run_append prose _).trans rfl⟩
    | plain =>
      rw [ends] at prose
      have deep : (0 : Int32) - Int32.ofNat (unopened .plain front) ≠ 0 := by
        intro level
        have same := Int32.sub_add_cancel 0 (Int32.ofNat (unopened .plain front))
        rw [level, Int32.zero_add] at same
        exact lost ⟨ends, (ofNat_eq_zero_iff _).mp same⟩
      have opens (depth : Int32) (other : depth ≠ 0) (i : Nat) :
          (ObjectScan.at none depth .plain).run i (String.utf8EncodeChar '{') =
            .going (.at none (depth + 1) .plain) := by
        change Scanned.going { start := if depth = 0 then some i else none, depth := depth + 1, .. } = _
        rw [if_neg other]
        rfl
      exact ⟨_, (ObjectScan.run_append prose _).trans ((ObjectScan.run_append (opens _ deep _) _).trans rfl)⟩
  obtain ⟨scan, going⟩ := going
  rw [firstJsonObject, String.toList_ofList, going]

end

-- The text of a JSON object, as deep as serde_json reads one.
structure ObjectText (lexicon : Lexicon) where
  gap : List Char
  parts : List Part
  white : White gap
  placed : ∀ part ∈ parts, Placed lexicon .object part
  values : ∀ part ∈ parts, Json lexicon 126 part.value

namespace ObjectText

variable {lexicon : Lexicon}

def inner (object : ObjectText lexicon) : List Char := object.gap ++ joined object.parts

def chars (object : ObjectText lexicon) : List Char := '{' :: (object.inner ++ ['}'])

def empty : ObjectText lexicon :=
  { gap := [], parts := [], white := white_nil, placed := by simp, values := by simp }

theorem kept (object : ObjectText lexicon) : Kept 126 object.inner :=
  kept_nested.inside object.white object.placed fun part member => kept_nested.json (object.values part member)

theorem json (object : ObjectText lexicon) : Json lexicon 127 object.chars :=
  .container .object object.white object.placed object.values

theorem framed_eq (object : ObjectText lexicon) (front back : List Char) :
    front ++ object.chars ++ back = framed front object.inner back := by
  simp [chars, framed]

end ObjectText

-- What is relied on of serde_json at `Value`: an object is what is read from a text that begins with its brace.
structure SerdeJson (lexicon : Lexicon) (fromStr : String → Except String Value) : Prop where
  reads : ReadsJson lexicon fun text => (fromStr text).toOption
  objects : ∀ (text : List Char) (v : Value), fromStr (String.ofList text) = .ok v →
    ((∃ fields, v = .object fields) ↔ (text.dropWhile (· ∈ [' ', '\t', '\n', '\r'])).head? = some '{')

section

variable {lexicon : Lexicon} {fromStr : String → Except String Value} {front inner back text : List Char} {v : Value}

def Refused (fromStr : String → Except String Value) (text : String) : Prop := ∀ v, fromStr text ≠ .ok v

theorem SerdeJson.read_iff (serde : SerdeJson lexicon fromStr) (text : List Char) :
    (∃ v, fromStr (String.ofList text) = .ok v) ↔ Spelled lexicon 127 text := by
  rw [← serde.reads text]
  refine exists_congr fun v => ?_
  change fromStr (String.ofList text) = .ok v ↔ (fromStr (String.ofList text)).toOption = some v
  cases fromStr (String.ofList text) with
  | ok w => simp [Except.toOption]
  | error e => simp [Except.toOption]

theorem SerdeJson.read_object (serde : SerdeJson lexicon fromStr) (object : ObjectText lexicon) :
    ∃ v, fromStr (String.ofList object.chars) = .ok v :=
  (serde.read_iff _).mpr object.json.spelled

theorem not_white {c : Char} (visible : isWhitespace c = false) : c ∉ [' ', '\t', '\n', '\r'] := by
  have spaces : ∀ d ∈ [' ', '\t', '\n', '\r'], isWhitespace d = true := List.all_iff_forall_prop.mp (by decide)
  intro member
  rw [spaces c member] at visible
  cases visible

theorem SerdeJson.opens_at_once (serde : SerdeJson lexicon fromStr) {object : ObjectText lexicon}
    (none_opens : '{' ∉ front) (first : ∀ c ∈ front.head?, isWhitespace c = false)
    (alone : fromStr (String.ofList object.chars) = .ok v)
    (whole : fromStr (String.ofList (framed front inner back)) = .ok v) : front = [] := by
  have isObject := (serde.objects _ v alone).mpr (by simp [ObjectText.chars])
  have begins := (serde.objects _ v whole).mp isObject
  cases front with
  | nil => rfl
  | cons c front =>
    have other : c ∉ [' ', '\t', '\n', '\r'] := not_white (first c rfl)
    rw [framed, List.cons_append, List.dropWhile_cons_of_neg (by simpa using other), List.head?_cons,
      Option.some_inj] at begins
    exact absurd (begins ▸ List.mem_cons_self) none_opens

theorem object_of_json {n : Nat} {json : List Char} (value : Json lexicon (n + 1) json)
    (begins : json.head? = some '{') : ∃ inner, Kept n inner ∧ json = '{' :: (inner ++ ['}']) := by
  cases value with
  | scalar scalar =>
    have member := lexicon.scalar_chars json scalar '{' (List.mem_of_head? begins)
    exact absurd member (by decide)
  | text text => cases begins
  | @container n c gap parts white placed values =>
    cases c with
    | array => cases begins
    | object =>
      have kept : Kept n (gap ++ joined parts) :=
        kept_nested.inside white placed fun part member => kept_nested.json (values part member)
      exact ⟨gap ++ joined parts, kept, rfl⟩

theorem spelled_object (kept : Kept 126 inner) (spelled : Spelled lexicon 127 (framed [] inner back)) : White back := by
  obtain ⟨lead, json, trail, lead_white, trail_white, value, split⟩ := spelled
  have lead_nil : lead = [] := by
    cases lead with
    | nil => rfl
    | cons c lead =>
      have same : '{' = c := (List.cons.inj split).1
      exact absurd (lead_white c List.mem_cons_self) (same ▸ by decide)
  obtain ⟨x, json', shape⟩ := List.exists_cons_of_ne_nil value.ne_nil
  have begins : json.head? = some '{' := by
    subst lead_nil shape
    exact congrArg some (List.cons.inj split).1.symm
  obtain ⟨inner', kept', rfl⟩ := object_of_json value begins
  have same : '{' :: (inner ++ '}' :: back) = '{' :: (inner' ++ '}' :: trail) := by
    subst lead_nil
    simpa [framed] using split
  have found := (run_object kept 0 back).symm.trans
    ((congrArg (fun text => (ObjectScan.at none 0 .plain).run 0 (utf8 text)) same).trans (run_object kept' 0 trail))
  have length : utf8Length inner = utf8Length inner' := Nat.add_left_cancel (Scanned.found.inj found).2
  have parts := splitAtByte_append inner ('}' :: back)
  rw [(List.cons.inj same).2, length, splitAtByte_append] at parts
  have rest : '}' :: trail = '}' :: back := congrArg Prod.snd (Option.some.inj parts)
  exact (List.cons.inj rest).2 ▸ trail_white

theorem spelled_closed (spelled : Spelled lexicon 127 (framed front [] [])) (none_opens : '{' ∉ front) :
    White front := by
  obtain ⟨lead, json, trail, lead_white, trail_white, value, split⟩ := spelled
  have trail_nil : trail = [] := by
    rcases List.eq_nil_or_concat' trail with none | ⟨trail, c, rfl⟩
    · exact none
    · have ends := congrArg List.getLast? split
      simp only [framed, List.getLast?_append, List.getLast?_singleton] at ends
      have same : '}' = c := by simpa using ends
      exact absurd (trail_white c (by simp)) (same ▸ by decide)
  rw [trail_nil, List.append_nil] at split
  have last : json.getLast? = some '}' := by
    have ends := congrArg List.getLast? split
    rw [List.getLast?_append_of_ne_nil lead value.ne_nil] at ends
    exact ends.symm.trans (by simp [framed])
  obtain ⟨rest, opens⟩ : ∃ rest, json = '{' :: rest := by
    cases value with
    | scalar scalar =>
      have member := lexicon.scalar_chars json scalar '}' (List.mem_of_getLast? last)
      exact absurd member (by decide)
    | @text n raw text =>
      rw [← List.cons_append, List.getLast?_concat] at last
      cases last
    | @container n c gap parts white placed values =>
      rw [← List.cons_append, List.getLast?_concat] at last
      cases c with
      | array => cases last
      | object => exact ⟨_, rfl⟩
  have lead_closed : '{' ∉ lead := fun member => absurd (lead_white _ member) (by decide)
  have first : splitFirst ['{'] (front ++ ['{'] ++ ['}']) = _ := splitFirst_append none_opens ['}']
  have again : splitFirst ['{'] (lead ++ ['{'] ++ rest) = _ := splitFirst_append lead_closed rest
  have same : lead ++ '{' :: rest = front ++ '{' :: ['}'] := by
    rw [← opens, ← split]
    rfl
  rw [List.append_assoc, List.cons_append, List.nil_append, same] at again
  rw [List.append_assoc, List.cons_append, List.nil_append, again] at first
  have front_lead : lead = front := congrArg Prod.fst (Option.some.inj first)
  exact front_lead ▸ lead_white

theorem neutral_of_white (white : White front) : Neutral front := by
  have unmarked : ∀ d ∈ [' ', '\t', '\n', '\r'], d ∉ marks := List.all_iff_forall_prop.mp (by decide)
  have left : Left front [] := ⟨front, (List.append_nil front).symm, fun c member => unmarked c (white c member)⟩
  exact (neutral_left left).mpr ⟨rfl, Nat.dvd_zero _⟩

theorem parseJson_read (reads : fromStr (stripFences (trim (String.ofList text))) = .ok v) :
    parseJson fromStr (String.ofList text) = some (.ok v) := by
  rw [parseJson, reads]

theorem parseJson_found {candidate : String} (refused : Refused fromStr (stripFences (trim (String.ofList text))))
    (found : firstJsonObject (stripFences (trim (String.ofList text))) = some (some candidate))
    (reads : fromStr candidate = .ok v) : parseJson fromStr (String.ofList text) = some (.ok v) := by
  cases answer : fromStr (stripFences (trim (String.ofList text))) with
  | ok w => exact absurd answer (refused w)
  | error e =>
    rw [parseJson, answer]
    dsimp only
    rw [found, Option.map_some]
    dsimp only
    rw [reads]

theorem parseJson_lost (refused : Refused fromStr (stripFences (trim (String.ofList text))))
    (lost : firstJsonObject (stripFences (trim (String.ofList text))) = some none) :
    parseJson fromStr (String.ofList text) =
      some (.error (.role ("no JSON object in model output: " ++ String.ofList text))) := by
  cases answer : fromStr (stripFences (trim (String.ofList text))) with
  | ok w => exact absurd answer (refused w)
  | error e =>
    rw [parseJson, answer]
    dsimp only
    rw [lost]
    rfl

-- Whatever follows it, the value of the object is what is read, unless the text is JSON itself.
def FindsObjects (lexicon : Lexicon) (fromStr : String → Except String Value) (front : List Char) : Prop :=
  ∀ (object : ObjectText lexicon) (v : Value) (back : List Char),
    fromStr (String.ofList object.chars) = .ok v →
    Refused fromStr (String.ofList (front ++ object.chars ++ back)) →
      parseJson fromStr (String.ofList (front ++ object.chars ++ back)) = some (.ok v)

def NothingElse (lexicon : Lexicon) (fromStr : String → Except String Value) (front : List Char) : Prop :=
  ∀ (object : ObjectText lexicon) (v : Value) (back : List Char),
    Refused fromStr (String.ofList (front ++ object.chars ++ back)) →
    fromStr (stripFences (trim (String.ofList (front ++ object.chars ++ back)))) = .ok v →
      stripFences (trim (String.ofList (front ++ object.chars ++ back))) = String.ofList object.chars

theorem finds_of_neutral (neutral : Neutral front) (none_opens : '{' ∉ front)
    (nothing : NothingElse lexicon fromStr front) : FindsObjects lexicon fromStr front := by
  intro object v back alone refused
  obtain ⟨back', -, cleaned⟩ := cleaned_framed front object.inner back
  have left := left_cleaned front
  cases answer : fromStr (stripFences (trim (String.ofList (front ++ object.chars ++ back)))) with
  | ok w =>
    have same := nothing object w back refused answer
    rw [same, alone] at answer
    exact parseJson_read (same ▸ alone)
  | error e =>
    have unread : Refused fromStr (stripFences (trim (String.ofList (front ++ object.chars ++ back)))) := by
      intro w reads
      rw [answer] at reads
      cases reads
    refine parseJson_found unread ?_ alone
    rw [object.framed_eq, cleaned]
    exact firstJsonObject_neutral ((neutral_left left).mp neutral) (left.not_mem none_opens) object.kept back'

theorem SerdeJson.read_at_once (serde : SerdeJson lexicon fromStr) {object : ObjectText lexicon}
    (none_opens : '{' ∉ front) (alone : fromStr (String.ofList object.chars) = .ok v)
    (reads : fromStr (stripFences (trim (String.ofList (front ++ object.chars ++ back)))) = .ok v) :
    Left front [] ∧
      stripFences (trim (String.ofList (front ++ object.chars ++ back))) = String.ofList object.chars := by
  obtain ⟨back', -, cleaned⟩ := cleaned_framed front object.inner back
  have left := left_cleaned front
  rw [object.framed_eq] at reads ⊢
  have ends := stripFences_ends (cleaned.trans (congrArg String.ofList (object.framed_eq _ back').symm))
    (List.cons_ne_nil _ _)
  rw [cleaned] at reads ⊢
  have at_once := serde.opens_at_once (left.not_mem none_opens) ends.1 alone reads
  rw [at_once] at reads left ⊢
  have white := spelled_object object.kept ((serde.read_iff _).mp ⟨v, reads⟩)
  have none_behind : back' = [] := by
    rcases List.eq_nil_or_concat' back' with none | ⟨back', c, rfl⟩
    · exact none
    · exact absurd (white c (by simp)) (not_white (ends.2 c (by simp)))
  refine ⟨left, ?_⟩
  rw [none_behind]
  simp [framed, ObjectText.chars]

theorem neutral_of_finds (serde : SerdeJson lexicon fromStr) (none_opens : '{' ∉ front)
    (finds : FindsObjects lexicon fromStr front) : Neutral front := by
  by_contra lost
  obtain ⟨v, alone⟩ := serde.read_object (.empty : ObjectText lexicon)
  have whole : front ++ ObjectText.chars (.empty : ObjectText lexicon) ++ [] = framed front [] [] :=
    ObjectText.framed_eq _ front []
  have refused : Refused fromStr (String.ofList (front ++ ObjectText.chars (.empty : ObjectText lexicon) ++ [])) := by
    intro w reads
    rw [whole] at reads
    exact lost (neutral_of_white (spelled_closed ((serde.read_iff _).mp ⟨w, reads⟩) none_opens))
  have returned := finds .empty v [] alone refused
  have unread : Refused fromStr
      (stripFences (trim (String.ofList (front ++ ObjectText.chars (.empty : ObjectText lexicon) ++ [])))) := by
    intro w reads
    have same : w = v := Except.ok.inj (Option.some.inj ((parseJson_read reads).symm.trans returned))
    obtain ⟨left, -⟩ := serde.read_at_once none_opens alone (same ▸ reads)
    exact lost ((neutral_left left).mpr ⟨rfl, Nat.dvd_zero _⟩)
  obtain ⟨back', fewer, cleaned⟩ := cleaned_framed front [] []
  have left := left_cleaned front
  have nothing : firstJsonObject (stripFences (trim (String.ofList
      (front ++ ObjectText.chars (.empty : ObjectText lexicon) ++ [])))) = some none := by
    rw [whole, cleaned, List.prefix_nil.mp fewer]
    exact firstJsonObject_lost (fun neutral => lost ((neutral_left left).mpr neutral)) (left.not_mem none_opens)
  rw [parseJson_lost unread nothing] at returned
  cases returned

/-- An object is found behind a prose exactly if the prose ends outside of strings with no brace closed, as JSON
reads it, and what is stripped makes no other JSON of the text. -/
theorem embedded_object_iff (serde : SerdeJson lexicon fromStr) (none_opens : '{' ∉ front) :
    FindsObjects lexicon fromStr front ↔ Neutral front ∧ NothingElse lexicon fromStr front := by
  constructor
  · intro finds
    refine ⟨neutral_of_finds serde none_opens finds, fun object w back refused reads => ?_⟩
    obtain ⟨v, alone⟩ := serde.read_object object
    have returned := finds object v back alone refused
    have same : w = v := Except.ok.inj (Option.some.inj ((parseJson_read reads).symm.trans returned))
    exact (serde.read_at_once none_opens alone (same ▸ reads)).2
  · exact fun ⟨neutral, nothing⟩ => finds_of_neutral neutral none_opens nothing

-- Neither JSON nor a fence begins with such a letter.
structure Worded (c : Char) : Prop where
  visible : isWhitespace c = false
  unfenced : c ≠ '`'
  other : c ∉ '"' :: '{' :: '[' :: scalarChars

theorem Worded.not_spelled {c : Char} {n : Nat} (worded : Worded c) (rest : List Char) :
    ¬ Spelled lexicon n (c :: rest) := by
  rintro ⟨lead, json, trail, lead_white, -, value, split⟩
  cases lead with
  | cons d lead =>
    have same : c = d := (List.cons.inj split).1
    exact absurd (lead_white d List.mem_cons_self) (not_white (same ▸ worded.visible))
  | nil =>
    have starts : ∀ d ∈ json.head?, d ∈ '"' :: '{' :: '[' :: scalarChars := by
      intro d first
      cases value with
      | scalar scalar =>
        have member := lexicon.scalar_chars json scalar d (List.mem_of_mem_head? first)
        simp only [List.mem_cons]
        exact .inr (.inr (.inr member))
      | text text =>
        cases first
        decide
      | container k white placed values =>
        cases first
        cases k <;> decide
    obtain ⟨d, json', rfl⟩ := List.exists_cons_of_ne_nil value.ne_nil
    have same : c = d := (List.cons.inj split).1
    exact worded.other (same ▸ starts d rfl)

theorem Worded.cleaned {c : Char} (worded : Worded c) (front : List Char) :
    strippedFront ((c :: front).dropWhile isWhitespace) = c :: front := by
  have kept {p : Char → Bool} (other : p c = false) : (c :: front).dropWhile p = c :: front :=
    List.dropWhile_cons_of_neg (by simp [other])
  have unfenced {pattern : List Char} : stripPrefix ('`' :: pattern) (c :: front) = none :=
    if_neg fun begins => worded.unfenced (List.cons_prefix_cons.mp begins).1.symm
  have untagged : afterOpen (c :: front) = c :: front := by
    change (((stripPrefix ('`' :: "``json".toList) (c :: front)).or
      (stripPrefix ('`' :: "``JSON".toList) (c :: front))).or
      (stripPrefix ('`' :: "``".toList) (c :: front))).getD (c :: front) = _
    rw [unfenced, unfenced, unfenced]
    rfl
  have line : decide (c = '\n') = false := by
    rw [decide_eq_false_iff_not]
    rintro rfl
    exact absurd worded.visible (by decide)
  rw [strippedFront, kept worded.visible, kept worded.visible, untagged, kept line, kept worded.visible]

theorem Worded.nothingElse {c : Char} (worded : Worded c) (serde : SerdeJson lexicon fromStr) (front : List Char) :
    NothingElse lexicon fromStr (c :: front) := by
  intro object v back refused reads
  obtain ⟨back', -, cleaned⟩ := cleaned_framed (c :: front) object.inner back
  rw [object.framed_eq, cleaned, worded.cleaned] at reads
  exact absurd ((serde.read_iff _).mp ⟨v, reads⟩) (worded.not_spelled _)

end

def basicFields (text : String) : List (String × Value) :=
  if text = String.ofList namedObject then [("name", .string "Alice")] else []

open Classical in
-- The objects of the runs below are read as they are; of any other text only its kind matters there.
noncomputable def basicReader (text : String) : Except String Value :=
  if Spelled basicLexicon 127 text.toList then
    if (text.toList.dropWhile (· ∈ [' ', '\t', '\n', '\r'])).head? = some '{' then .ok (.object (basicFields text))
    else .ok .null
  else .error "expected value at line 1 column 1"

theorem basicReader_serde : SerdeJson basicLexicon basicReader where
  reads text := by
    change (∃ v, (basicReader (String.ofList text)).toOption = some v) ↔ _
    rw [basicReader, String.toList_ofList]
    split_ifs with spelled
    · exact ⟨fun _ => spelled, fun _ => ⟨_, rfl⟩⟩
    · exact ⟨fun _ => spelled, fun _ => ⟨_, rfl⟩⟩
    · constructor
      · rintro ⟨v, found⟩
        cases found
      · exact fun other => absurd other spelled
  objects text v reads := by
    rw [basicReader, String.toList_ofList] at reads
    split_ifs at reads with spelled opens
    · cases reads
      exact ⟨fun _ => opens, fun _ => ⟨_, rfl⟩⟩
    · cases reads
      refine ⟨?_, fun brace => absurd brace opens⟩
      rintro ⟨fields, same⟩
      cases same

def namedText : ObjectText basicLexicon where
  gap := []
  parts := [named]
  white := white_nil
  placed := by
    have name : basicLexicon.Text ['n', 'a', 'm', 'e'] := escaped_of_plain (List.all_iff_forall_prop.mp (by decide))
    have label : Label basicLexicon .object ([] ++ '"' :: (['n', 'a', 'm', 'e'] ++ '"' :: ([] ++ ':' :: [' ']))) :=
      .member white_nil name white_nil (by simp [White])
    simpa [Placed, named, white_nil] using label
  values := by
    have text : basicLexicon.Text ['A', 'l', 'i', 'c', 'e'] :=
      escaped_of_plain (List.all_iff_forall_prop.mp (by decide))
    have value : Json basicLexicon 126 ('"' :: (['A', 'l', 'i', 'c', 'e'] ++ ['"'])) := .text text
    simpa [named] using value

theorem basicReader_object (object : ObjectText basicLexicon) :
    basicReader (String.ofList object.chars) = .ok (.object (basicFields (String.ofList object.chars))) := by
  have opens : (object.chars.dropWhile (· ∈ [' ', '\t', '\n', '\r'])).head? = some '{' := by
    simp [ObjectText.chars]
  rw [basicReader, String.toList_ofList, if_pos object.json.spelled, if_pos opens]

theorem basicReader_refused {c : Char} (worded : Worded c) (rest : List Char) :
    Refused basicReader (String.ofList (c :: rest)) := fun v reads =>
  worded.not_spelled rest ((basicReader_serde.read_iff _).mp ⟨v, reads⟩)

theorem here_worded : Worded 'H' := ⟨by decide, by decide, by decide⟩

theorem embedded_object_named :
    parseJson basicReader "Here's the result: \x7b\"name\": \"Alice\"\x7d hope it helps" =
      some (.ok (.object [("name", .string "Alice")])) := by
  have finds : FindsObjects basicLexicon basicReader "Here's the result: ".toList :=
    (embedded_object_iff basicReader_serde (by decide)).mpr
      ⟨⟨by decide, by decide⟩, here_worded.nothingElse basicReader_serde _⟩
  exact finds namedText _ " hope it helps".toList (basicReader_object namedText) (basicReader_refused here_worded _)

/-- A mark of inches in the prose hides the object behind it. -/
theorem inches_hide_object :
    '{' ∉ "He is 5'11\" tall: ".toList ∧
      basicReader "\x7b\x7d" = .ok (.object []) ∧
      Refused basicReader "He is 5'11\" tall: \x7b\x7d" ∧
      parseJson basicReader "He is 5'11\" tall: \x7b\x7d" =
        some (.error (.role "no JSON object in model output: He is 5'11\" tall: \x7b\x7d")) := by
  have lost : ¬ Neutral "He is 5'11\" tall: ".toList := fun neutral => absurd neutral.plain (by decide)
  obtain ⟨back', fewer, cleaned⟩ := cleaned_framed "He is 5'11\" tall: ".toList [] []
  have same : stripFences (trim "He is 5'11\" tall: \x7b\x7d") =
      String.ofList (framed "He is 5'11\" tall: ".toList [] []) := by
    rw [List.prefix_nil.mp fewer] at cleaned
    exact cleaned.trans (congrArg (fun front => String.ofList (framed front [] [])) (here_worded.cleaned _))
  refine ⟨by decide, basicReader_object .empty, basicReader_refused here_worded _, ?_⟩
  refine parseJson_lost ?_ ?_
  · rw [same]
    exact basicReader_refused here_worded _
  · rw [same]
    exact firstJsonObject_lost lost (by decide)

end AtomrAgents.DeepResearch
