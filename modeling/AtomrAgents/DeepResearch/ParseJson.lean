import AtomrAgents.Core.Text
import AtomrAgents.Core.Value
import AtomrAgents.Shared.Fences
import AtomrAgents.Shared.JsonText
import AtomrAgents.Shared.Utf8

set_option autoImplicit false

/-! A model writes JSON between fences or behind prose. The text is read without its fences, and when that
fails the first balanced object in it is. The scan for that object takes the quotation marks and braces of the
prose for those of JSON. -/

namespace AtomrAgents.DeepResearch

open Shared JsonText

inductive DeepResearchError where
  | role (message : String)
  deriving DecidableEq

def stripPrefix (pattern text : List Char) : Option (List Char) :=
  if pattern <+: text then some (text.drop pattern.length) else none

def stripSuffix (pattern text : List Char) : Option (List Char) :=
  if pattern <:+ text then some (text.take (text.length - pattern.length)) else none

def afterOpen (t : List Char) : List Char :=
  (((stripPrefix "```json".toList t).or (stripPrefix "```JSON".toList t)).or (stripPrefix "```".toList t)).getD t

def stripFences (s : String) : String :=
  let body := (afterOpen (trim s).toList).dropWhile (· = '\n')
  let inner := (stripSuffix "```".toList body).getD body
  trim (String.ofList inner)

structure ObjectScan where
  start : Option Nat
  depth : Int32
  inStr : Bool
  escape : Bool

inductive Scanned where
  | going (scan : ObjectScan)
  | found (start stop : Nat)

namespace ObjectScan

def begin : ObjectScan := { start := none, depth := 0, inStr := false, escape := false }

def step (scan : ObjectScan) (i : Nat) (b : UInt8) : Scanned :=
  if scan.inStr then
    if scan.escape then .going { scan with escape := false }
    else if b = '\\'.toUInt8 then .going { scan with escape := true }
    else if b = '"'.toUInt8 then .going { scan with inStr := false }
    else .going scan
  else if b = '"'.toUInt8 then .going { scan with inStr := true }
  else if b = '{'.toUInt8 then
    .going { scan with start := if scan.depth = 0 then some i else scan.start, depth := scan.depth + 1 }
  else if b = '}'.toUInt8 then
    let scan := { scan with depth := scan.depth - 1 }
    match scan.start with
    | some start => if scan.depth = 0 then .found start i else .going scan
    | none => .going scan
  else .going scan

def run : ObjectScan → Nat → List UInt8 → Scanned
  | scan, _, [] => .going scan
  | scan, i, b :: rest =>
    match scan.step i b with
    | .going scan => scan.run (i + 1) rest
    | .found start stop => .found start stop

end ObjectScan

-- Nothing is the panic of a slice.
def firstJsonObject (s : String) : Option (Option String) :=
  match ObjectScan.begin.run 0 (utf8 s.toList) with
  | .going _ => some none
  | .found start stop => (slice s.toList start (stop + 1)).map fun object => some (String.ofList object)

-- `fromStr`: `serde_json::from_str` at the type that is asked for; an error is its text.
def parseJson {T : Type} (fromStr : String → Except String T) (text : String) :
    Option (Except DeepResearchError T) :=
  let cleaned := stripFences (trim text)
  match fromStr cleaned with
  | .ok v => some (.ok v)
  | .error _ =>
    (firstJsonObject cleaned).map fun found =>
      match found with
      | none => .error (.role ("no JSON object in model output: " ++ text))
      | some candidate =>
        match fromStr candidate with
        | .ok v => .ok v
        | .error e => .error (.role ("invalid JSON from model (" ++ e ++ "): " ++ candidate))

def ObjectScan.at (start : Option Nat) (depth : Int32) (mode : Mode) : ObjectScan :=
  { start, depth, inStr := mode ≠ .plain, escape := mode = .escaping }

namespace ObjectScan

variable {start : Option Nat} {depth : Int32} {mode next : Mode} {i : Nat} {c : Char} {scan : ObjectScan}
  {bytes front back : List UInt8}

theorem run_append (going : scan.run i front = .going (.at start depth mode)) (back : List UInt8) :
    scan.run i (front ++ back) = (ObjectScan.at start depth mode).run (i + front.length) back := by
  induction front generalizing scan i with
  | nil =>
    cases going
    rfl
  | cons b front ih =>
    rw [List.cons_append, run]
    rw [run] at going
    cases here : scan.step i b with
    | going w =>
      rw [here] at going
      dsimp only at going ⊢
      rw [ih going, List.length_cons, Nat.add_right_comm, Nat.add_assoc]
    | found first last =>
      rw [here] at going
      cases going

theorem run_still (still : ∀ b ∈ bytes, ∀ i, scan.step i b = .going scan) (i : Nat) :
    scan.run i bytes = .going scan := by
  induction bytes generalizing i with
  | nil => rfl
  | cons b bytes ih =>
    rw [run, still b List.mem_cons_self i]
    exact ih (fun d member => still d (List.mem_cons_of_mem _ member)) (i + 1)

theorem encode_ne {d : Char} {b : UInt8} (other : c ≠ d) (ascii : d.toNat < 128)
    (member : b ∈ String.utf8EncodeChar c) : b ≠ d.toUInt8 := by
  rintro rfl
  exact other ((mem_utf8EncodeChar ascii).mp member)

theorem run_plain (start : Option Nat) (depth : Int32) (i : Nat) (quote : c ≠ '"') (opener : c ≠ '{')
    (closer : c ≠ '}') :
    (ObjectScan.at start depth .plain).run i (String.utf8EncodeChar c) = .going (.at start depth .plain) := by
  refine run_still (fun b member i => ?_) i
  exact (if_neg (encode_ne quote (by decide) member)).trans
    ((if_neg (encode_ne opener (by decide) member)).trans (if_neg (encode_ne closer (by decide) member)))

theorem run_quoted (start : Option Nat) (depth : Int32) (i : Nat) (quote : c ≠ '"') (backslash : c ≠ '\\') :
    (ObjectScan.at start depth .quoted).run i (String.utf8EncodeChar c) = .going (.at start depth .quoted) := by
  refine run_still (fun b member i => ?_) i
  exact (if_neg (encode_ne backslash (by decide) member)).trans (if_neg (encode_ne quote (by decide) member))

-- The first byte of a letter behind a backslash ends the escape, and the others are no quotation marks.
theorem run_escaping (start : Option Nat) (depth : Int32) (i : Nat) (c : Char) :
    (ObjectScan.at start depth .escaping).run i (String.utf8EncodeChar c) = .going (.at start depth .quoted) := by
  by_cases ascii : c.toNat < 128
  · rw [utf8EncodeChar_ascii ascii]
    rfl
  · obtain ⟨b, bytes, split⟩ : ∃ b bytes, String.utf8EncodeChar c = b :: bytes := by
      refine List.exists_cons_of_ne_nil fun none => ?_
      have size := c.utf8Size_pos
      rw [← String.length_utf8EncodeChar c, none] at size
      exact absurd size (Nat.lt_irrefl 0)
    have apart (d : Char) (small : d.toNat < 128) : c ≠ d := by
      rintro rfl
      exact ascii small
    rw [split]
    change (ObjectScan.at start depth .quoted).run (i + 1) bytes = _
    refine run_still (fun d member i => ?_) (i + 1)
    have inside : d ∈ String.utf8EncodeChar c := split ▸ List.mem_cons_of_mem b member
    exact (if_neg (encode_ne (apart '\\' (by decide)) (by decide) inside)).trans
      (if_neg (encode_ne (apart '"' (by decide)) (by decide) inside))

theorem run_opens (start : Option Nat) (depth : Int32) (i : Nat) :
    (ObjectScan.at start depth .plain).run i (String.utf8EncodeChar '"') = .going (.at start depth .quoted) := rfl

theorem run_ends (start : Option Nat) (depth : Int32) (i : Nat) :
    (ObjectScan.at start depth .quoted).run i (String.utf8EncodeChar '"') = .going (.at start depth .plain) := rfl

theorem run_backslash (start : Option Nat) (depth : Int32) (i : Nat) :
    (ObjectScan.at start depth .quoted).run i (String.utf8EncodeChar '\\') = .going (.at start depth .escaping) := rfl

theorem run_unopened (depth : Int32) (i : Nat) :
    (ObjectScan.at none depth .plain).run i (String.utf8EncodeChar '}') = .going (.at none (depth - 1) .plain) := rfl

theorem run_letter (going : scan.run i (String.utf8EncodeChar c) = .going (.at start depth mode)) (rest : List Char) :
    ∃ j, scan.run i (utf8 (c :: rest)) = (ObjectScan.at start depth mode).run j (utf8 rest) :=
  ⟨_, (congrArg (scan.run i) (utf8_cons c rest)).trans (run_append going (utf8 rest))⟩

end ObjectScan

-- Where a prose ends, and its letters outside of strings, if its quotation marks are those of JSON.
def unquote : Mode → List Char → Mode × List Char
  | mode, [] => (mode, [])
  | .plain, c :: rest =>
    if c = '"' then unquote .quoted rest else ((unquote .plain rest).1, c :: (unquote .plain rest).2)
  | .quoted, c :: rest =>
    if c = '\\' then unquote .escaping rest else if c = '"' then unquote .plain rest else unquote .quoted rest
  | .escaping, _ :: rest => unquote .quoted rest

def unopened (mode : Mode) (text : List Char) : Nat := (unquote mode text).2.count '}'

-- The prose ends outside of strings and no brace closes in it; they are counted in 32 bits.
structure Neutral (front : List Char) : Prop where
  plain : (unquote .plain front).1 = .plain
  level : 2 ^ 32 ∣ unopened .plain front

section

variable {start : Option Nat} {depth : Int32} {mode : Mode} {i n : Nat} {c : Char} {text front back rest : List Char}

theorem sub_ofNat_succ (depth : Int32) (n : Nat) : depth - 1 - Int32.ofNat n = depth - Int32.ofNat (n + 1) := by
  rw [Int32.ofNat_add, Int32.sub_sub, Int32.add_comm]
  rfl

theorem run_prose (depth : Int32) (mode : Mode) (i : Nat) (none_opens : '{' ∉ text) :
    (ObjectScan.at none depth mode).run i (utf8 text) =
      .going (.at none (depth - Int32.ofNat (unopened mode text)) (unquote mode text).1) := by
  induction text generalizing depth mode i with
  | nil =>
    have same : depth - Int32.ofNat 0 = depth := Int32.sub_zero depth
    cases mode <;> exact congrArg (fun d => Scanned.going (.at none d _)) same.symm
  | cons c rest ih =>
    rw [List.mem_cons, not_or] at none_opens
    have opener : c ≠ '{' := fun same => none_opens.1 same.symm
    cases mode with
    | plain =>
      by_cases quote : c = '"'
      · subst quote
        obtain ⟨j, going⟩ := ObjectScan.run_letter (ObjectScan.run_opens none depth i) rest
        exact going.trans (ih _ _ _ none_opens.2)
      · by_cases closer : c = '}'
        · subst closer
          obtain ⟨j, going⟩ := ObjectScan.run_letter (ObjectScan.run_unopened depth i) rest
          have count : unopened .plain ('}' :: rest) = unopened .plain rest + 1 := List.count_cons_self
          rw [going, count, ← sub_ofNat_succ]
          exact ih _ _ _ none_opens.2
        · obtain ⟨j, going⟩ := ObjectScan.run_letter (ObjectScan.run_plain none depth i quote opener closer) rest
          have count : unopened .plain (c :: rest) = unopened .plain rest := by
            rw [unopened, unquote, if_neg quote]
            exact List.count_cons_of_ne closer
          have ends : (unquote .plain (c :: rest)).1 = (unquote .plain rest).1 := by rw [unquote, if_neg quote]
          rw [going, count, ends]
          exact ih _ _ _ none_opens.2
    | quoted =>
      by_cases backslash : c = '\\'
      · subst backslash
        obtain ⟨j, going⟩ := ObjectScan.run_letter (ObjectScan.run_backslash none depth i) rest
        exact going.trans (ih _ _ _ none_opens.2)
      · by_cases quote : c = '"'
        · subst quote
          obtain ⟨j, going⟩ := ObjectScan.run_letter (ObjectScan.run_ends none depth i) rest
          exact going.trans (ih _ _ _ none_opens.2)
        · obtain ⟨j, going⟩ := ObjectScan.run_letter (ObjectScan.run_quoted none depth i quote backslash) rest
          have same : unquote .quoted (c :: rest) = unquote .quoted rest := by
            rw [unquote, if_neg backslash, if_neg quote]
          rw [going, unopened, same]
          exact ih _ _ _ none_opens.2
    | escaping =>
      obtain ⟨j, going⟩ := ObjectScan.run_letter (ObjectScan.run_escaping none depth i c) rest
      exact going.trans (ih _ _ _ none_opens.2)

theorem run_escaped (escaped : Escaped text) :
    (ObjectScan.at start depth .quoted).run i (utf8 text) = .going (.at start depth .quoted) := by
  induction escaped generalizing i with
  | nil => rfl
  | plain quote backslash rest ih =>
    obtain ⟨j, going⟩ := ObjectScan.run_letter (ObjectScan.run_quoted start depth i quote backslash) _
    exact going.trans ih
  | escape c rest ih =>
    obtain ⟨j, going⟩ := ObjectScan.run_letter (ObjectScan.run_backslash start depth i) _
    obtain ⟨j', escaping⟩ := ObjectScan.run_letter (ObjectScan.run_escaping start depth j c) _
    exact going.trans (escaping.trans ih)

-- Inside an object the scan comes back to its depth, and is not outside of it in between.
def Kept (n : Nat) (text : List Char) : Prop :=
  ∀ (start : Nat) (depth : Int32) (i : Nat), (∀ k ≤ n, depth + Int32.ofNat k ≠ 0) →
    (ObjectScan.at (some start) depth .plain).run i (utf8 text) = .going (.at (some start) depth .plain)

theorem kept_append (first : Kept n front) (second : Kept n back) : Kept n (front ++ back) := by
  intro start depth i within
  rw [utf8_append, ObjectScan.run_append (first start depth i within)]
  exact second start depth _ within

theorem kept_plain (plain : ∀ c ∈ text, c ∉ ['"', '{', '}']) : Kept n text := by
  intro start depth i within
  induction text generalizing i with
  | nil => rfl
  | cons c rest ih =>
    have here := plain c List.mem_cons_self
    simp only [List.mem_cons, List.not_mem_nil, or_false, not_or] at here
    obtain ⟨quote, opener, closer⟩ := here
    obtain ⟨j, going⟩ := ObjectScan.run_letter (ObjectScan.run_plain (some start) depth i quote opener closer) rest
    exact going.trans (ih (fun d member => plain d (List.mem_cons_of_mem c member)) j)

theorem kept_string (escaped : Escaped text) : Kept n ('"' :: (text ++ ['"'])) := by
  intro start depth i within
  obtain ⟨j, going⟩ := ObjectScan.run_letter (ObjectScan.run_opens (some start) depth i) (text ++ ['"'])
  rw [going, utf8_append, ObjectScan.run_append (run_escaped escaped)]
  rfl

theorem run_opener (deep : depth ≠ 0) (start i : Nat) :
    (ObjectScan.at (some start) depth .plain).run i (String.utf8EncodeChar '{') =
      .going (.at (some start) (depth + 1) .plain) := by
  change Scanned.going { start := if depth = 0 then some i else some start, depth := depth + 1, .. } = _
  rw [if_neg deep]
  rfl

theorem step_closer (start i : Nat) (depth : Int32) :
    (ObjectScan.at (some start) depth .plain).step i '}'.toUInt8 =
      if depth - 1 = 0 then .found start i else .going (.at (some start) (depth - 1) .plain) := rfl

theorem run_closer (deep : depth ≠ 0) (start i : Nat) (rest : List UInt8) :
    (ObjectScan.at (some start) (depth + 1) .plain).run i ('}'.toUInt8 :: rest) =
      (ObjectScan.at (some start) depth .plain).run (i + 1) rest := by
  have back : depth + 1 - 1 = depth := Int32.add_sub_cancel depth 1
  rw [ObjectScan.run, step_closer, back, if_neg deep]

theorem run_last (start i : Nat) (rest : List UInt8) :
    (ObjectScan.at (some start) 1 .plain).run i ('}'.toUInt8 :: rest) = .found start i := by
  rw [ObjectScan.run, step_closer, if_pos (by decide)]

theorem kept_braces (inner : Kept n text) : Kept (n + 1) ('{' :: (text ++ ['}'])) := by
  intro start depth i within
  have deep : depth ≠ 0 := by simpa using within 0 (Nat.zero_le _)
  have deeper : ∀ k ≤ n, depth + 1 + Int32.ofNat k ≠ 0 := by
    intro k less
    have next := within (k + 1) (Nat.succ_le_succ less)
    rwa [Nat.add_comm, Int32.ofNat_add, ← Int32.add_assoc] at next
  obtain ⟨j, going⟩ := ObjectScan.run_letter (run_opener deep start i) (text ++ ['}'])
  rw [going, utf8_append, ObjectScan.run_append (inner start (depth + 1) j deeper)]
  exact run_closer deep start _ []

theorem kept_nested {lexicon : Lexicon} : Nested lexicon Kept where
  append := kept_append
  plain other := kept_plain fun c member inside => other c member (by simp_all [special])
  text raw := kept_string (lexicon.text_escaped _ raw)
  within {n} c inner inside := by
    cases c with
    | object => exact kept_braces inside
    | array =>
      have bracket (d : Char) (other : d ∉ ['"', '{', '}']) : Kept (n + 1) [d] :=
        kept_plain fun c member => List.mem_singleton.mp member ▸ other
      have deeper : Kept (n + 1) inner := fun start depth i within =>
        inside start depth i fun k less => within k (Nat.le_succ_of_le less)
      exact kept_append (bracket '[' (by decide)) (kept_append deeper (bracket ']' (by decide)))

theorem run_object (inner : Kept 126 text) (i : Nat) (rest : List Char) :
    (ObjectScan.at none 0 .plain).run i (utf8 ('{' :: (text ++ '}' :: rest))) = .found i (i + 1 + utf8Length text) := by
  have within : ∀ k ≤ 126, (1 : Int32) + Int32.ofNat k ≠ 0 := by decide
  have opens : (ObjectScan.at none 0 .plain).run i (String.utf8EncodeChar '{') = .going (.at (some i) 1 .plain) := rfl
  have size : (String.utf8EncodeChar '{').length = 1 := rfl
  rw [utf8_cons, ObjectScan.run_append opens, utf8_append, ObjectScan.run_append (inner i 1 _ within), size]
  exact run_last i _ (utf8 rest)

def marks : List Char := ['"', '\\', '{', '}']

def Left (front front' : List Char) : Prop := ∃ dropped, front = dropped ++ front' ∧ ∀ c ∈ dropped, c ∉ marks

theorem Left.refl (front : List Char) : Left front front := ⟨[], rfl, by simp⟩

theorem Left.trans {front' front'' : List Char} (first : Left front front') (second : Left front' front'') :
    Left front front'' := by
  obtain ⟨dropped, rfl, unmarked⟩ := first
  obtain ⟨more, rfl, also⟩ := second
  refine ⟨dropped ++ more, (List.append_assoc _ _ _).symm, fun c member => ?_⟩
  exact (List.mem_append.mp member).elim (unmarked c) (also c)

theorem Left.not_mem {front' : List Char} (left : Left front front') (absent : c ∉ front) : c ∉ front' := by
  obtain ⟨dropped, rfl, -⟩ := left
  exact fun member => absent (List.mem_append_right dropped member)

theorem left_dropWhile {p : Char → Bool} (unmarked : ∀ c ∈ marks, p c = false) (front : List Char) :
    Left front (front.dropWhile p) := by
  refine ⟨front.takeWhile p, List.takeWhile_append_dropWhile.symm, fun c member inside => ?_⟩
  have dropped : p c = true := List.mem_takeWhile_imp member
  rw [unmarked c inside] at dropped
  cases dropped

theorem left_stripPrefix {pattern front' : List Char} (unmarked : ∀ c ∈ pattern, c ∉ marks)
    (strips : stripPrefix pattern front = some front') : Left front front' := by
  rw [stripPrefix] at strips
  split at strips
  · next begins =>
    cases strips
    exact ⟨pattern, (List.prefix_iff_eq_append.mp begins).symm, unmarked⟩
  · cases strips

theorem unquote_left {front' : List Char} (left : Left front front') :
    (unquote .plain front).1 = (unquote .plain front').1 ∧ unopened .plain front = unopened .plain front' := by
  obtain ⟨dropped, rfl, unmarked⟩ := left
  induction dropped with
  | nil => exact ⟨rfl, rfl⟩
  | cons c dropped ih =>
    have here := unmarked c List.mem_cons_self
    simp only [marks, List.mem_cons, List.not_mem_nil, or_false, not_or] at here
    obtain ⟨mode, count⟩ := ih fun d member => unmarked d (List.mem_cons_of_mem c member)
    have passed : unquote .plain (c :: (dropped ++ front')) =
        ((unquote .plain (dropped ++ front')).1, c :: (unquote .plain (dropped ++ front')).2) := if_neg here.1
    rw [List.cons_append]
    constructor
    · rw [passed, ← mode]
    · rw [unopened, passed, ← count]
      exact List.count_cons_of_ne here.2.2.2

theorem neutral_left {front' : List Char} (left : Left front front') : Neutral front ↔ Neutral front' := by
  obtain ⟨mode, count⟩ := unquote_left left
  constructor
  · exact fun neutral => ⟨mode ▸ neutral.plain, count ▸ neutral.level⟩
  · exact fun neutral => ⟨mode ▸ neutral.plain, count ▸ neutral.level⟩

def framed (front inner back : List Char) : List Char := front ++ '{' :: (inner ++ '}' :: back)

theorem dropWhile_to {p : Char → Bool} (stops : p c = false) (front rest : List Char) :
    (front ++ c :: rest).dropWhile p = front.dropWhile p ++ c :: rest := by
  rw [List.dropWhile_append]
  split
  · next empty =>
    rw [List.isEmpty_iff.mp empty, List.dropWhile_cons_of_neg (by simp [stops]), List.nil_append]
  · rfl

theorem rdropWhile_to {p : Char → Bool} (stops : p c = false) (front rest : List Char) :
    (front ++ c :: rest).rdropWhile p = front ++ c :: rest.rdropWhile p := by
  have around : (front ++ c :: rest).reverse = rest.reverse ++ c :: front.reverse := by simp
  rw [List.rdropWhile, around, dropWhile_to stops, List.rdropWhile]
  simp

theorem trim_framed (front inner back : List Char) :
    trim (String.ofList (framed front inner back)) =
      String.ofList (framed (front.dropWhile isWhitespace) inner (back.rdropWhile isWhitespace)) := by
  have opener : isWhitespace '{' = false := by decide
  have closer : isWhitespace '}' = false := by decide
  have split (front back : List Char) : framed front inner back = (front ++ '{' :: inner) ++ '}' :: back := by
    simp [framed]
  rw [trim, String.toList_ofList, framed, dropWhile_to opener, ← framed, split, rdropWhile_to closer, ← split]

theorem stripPrefix_framed {pattern : List Char} (other : '{' ∉ pattern) (front inner back : List Char) :
    stripPrefix pattern (framed front inner back) =
      (stripPrefix pattern front).map fun front => framed front inner back := by
  have begins : pattern <+: framed front inner back ↔ pattern <+: front := Shared.Markers.prefix_break front other
  rw [stripPrefix, stripPrefix, ite_congr (propext begins) (fun _ => rfl) fun _ => rfl]
  split
  · next here =>
    rw [framed, List.drop_append_of_le_length here.length_le]
    rfl
  · rfl

theorem stripSuffix_framed {pattern : List Char} (other : '}' ∉ pattern) (front inner back : List Char) :
    stripSuffix pattern (framed front inner back) =
      (stripSuffix pattern back).map fun back => framed front inner back := by
  have split (back : List Char) : framed front inner back = (front ++ '{' :: inner) ++ '}' :: back := by
    simp [framed]
  have ends : pattern <:+ framed front inner back ↔ pattern <:+ back := by
    rw [← List.reverse_prefix, ← List.reverse_prefix, split, List.reverse_append, List.reverse_cons,
      List.append_assoc]
    exact Shared.Markers.prefix_break back.reverse (by simpa using other)
  rw [stripSuffix, stripSuffix, ite_congr (propext ends) (fun _ => rfl) fun _ => rfl]
  split
  · next here =>
    have less := here.length_le
    have length : (framed front inner back).length - pattern.length =
        (front ++ '{' :: inner ++ ['}']).length + (back.length - pattern.length) := by
      simp only [split, List.length_append, List.length_cons, List.length_nil]
      omega
    have shape (back : List Char) : framed front inner back = (front ++ '{' :: inner ++ ['}']) ++ back := by
      simp [framed]
    rw [length, shape, List.take_length_add_append, ← shape]
    rfl
  · rfl

theorem left_trim (front : List Char) : Left front (front.dropWhile isWhitespace) :=
  left_dropWhile (List.all_iff_forall_prop.mp (by decide)) front

theorem left_afterOpen (front : List Char) : Left front (afterOpen front) := by
  have strips {found : Option (List Char)} (left : ∀ front', found = some front' → Left front front') :
      Left front (found.getD front) := by
    cases found with
    | none => exact .refl front
    | some front' => exact left front' rfl
  refine strips fun front' found => ?_
  rcases Option.or_eq_some_iff.mp found with tagged | ⟨-, plain⟩
  · rcases Option.or_eq_some_iff.mp tagged with lower | ⟨-, upper⟩
    · exact left_stripPrefix (List.all_iff_forall_prop.mp (by decide)) lower
    · exact left_stripPrefix (List.all_iff_forall_prop.mp (by decide)) upper
  · exact left_stripPrefix (List.all_iff_forall_prop.mp (by decide)) plain

theorem afterOpen_framed (front inner back : List Char) :
    afterOpen (framed front inner back) = framed (afterOpen front) inner back := by
  rw [afterOpen, stripPrefix_framed (by decide), stripPrefix_framed (by decide), stripPrefix_framed (by decide),
    ← Option.map_or, ← Option.map_or, Option.getD_map]
  rfl

theorem closing_framed (front inner back : List Char) :
    ∃ back', back' <+: back ∧
      (stripSuffix "```".toList (framed front inner back)).getD (framed front inner back) =
        framed front inner back' := by
  rw [stripSuffix_framed (by decide)]
  cases strips : stripSuffix "```".toList back with
  | none => exact ⟨back, List.prefix_rfl, rfl⟩
  | some back' =>
    rw [stripSuffix] at strips
    split at strips
    · cases strips
      exact ⟨_, List.take_prefix _ _, rfl⟩
    · cases strips

def strippedFront (front : List Char) : List Char :=
  ((afterOpen (front.dropWhile isWhitespace)).dropWhile (· = '\n')).dropWhile isWhitespace

theorem left_strippedFront (front : List Char) : Left front (strippedFront front) := by
  have tagged : Left front (afterOpen (front.dropWhile isWhitespace)) := (left_trim front).trans (left_afterOpen _)
  have lines := left_dropWhile (p := (· = '\n')) (List.all_iff_forall_prop.mp (by decide))
    (afterOpen (front.dropWhile isWhitespace))
  exact (tagged.trans lines).trans (left_trim _)

theorem stripFences_framed (front inner back : List Char) :
    ∃ back', back' <+: back ∧
      stripFences (String.ofList (framed front inner back)) =
        String.ofList (framed (strippedFront front) inner back') := by
  let body := (afterOpen (front.dropWhile isWhitespace)).dropWhile (· = '\n')
  obtain ⟨back', fewer, ends⟩ := closing_framed body inner (back.rdropWhile isWhitespace)
  have lines : (afterOpen (trim (String.ofList (framed front inner back))).toList).dropWhile (· = '\n') =
      framed body inner (back.rdropWhile isWhitespace) := by
    rw [trim_framed, String.toList_ofList, afterOpen_framed]
    exact dropWhile_to (by decide) _ _
  refine ⟨back'.rdropWhile isWhitespace, ?_, ?_⟩
  · exact (List.rdropWhile_prefix _ _).trans (fewer.trans (List.rdropWhile_prefix _ _))
  · rw [stripFences, lines, ends, trim_framed]
    rfl

theorem cleaned_framed (front inner back : List Char) :
    ∃ back', back' <+: back ∧ stripFences (trim (String.ofList (framed front inner back))) =
      String.ofList (framed (strippedFront (front.dropWhile isWhitespace)) inner back') := by
  rw [trim_framed]
  obtain ⟨back', fewer, same⟩ := stripFences_framed (front.dropWhile isWhitespace) inner (back.rdropWhile isWhitespace)
  exact ⟨back', fewer.trans (List.rdropWhile_prefix _ _), same⟩

theorem left_cleaned (front : List Char) : Left front (strippedFront (front.dropWhile isWhitespace)) :=
  (left_trim front).trans (left_strippedFront _)

theorem stripFences_ends {s : String} {middle : List Char}
    (same : stripFences s = String.ofList (front ++ middle ++ back)) (filled : middle ≠ []) :
    (∀ c ∈ front.head?, isWhitespace c = false) ∧ ∀ c ∈ back.getLast?, isWhitespace c = false := by
  obtain ⟨text, trimmed⟩ : ∃ text : List Char, (text.dropWhile isWhitespace).rdropWhile isWhitespace =
      front ++ middle ++ back := ⟨_, String.ofList_injective same⟩
  constructor
  · intro c first
    have begins : (text.dropWhile isWhitespace).head? = some c := by
      obtain ⟨rest, split⟩ := trimmed ▸ List.rdropWhile_prefix isWhitespace (text.dropWhile isWhitespace)
      rw [← split]
      simp [Option.mem_def.mp first]
    have stops := List.head?_dropWhile_not isWhitespace text
    rw [begins] at stops
    simpa using stops
  · intro c last
    have ends : (front ++ middle ++ back).getLast? = some c := by simp [Option.mem_def.mp last]
    have present : (text.dropWhile isWhitespace).rdropWhile isWhitespace ≠ [] := by
      rw [trimmed]
      simp [filled]
    have stops := List.rdropWhile_last_not isWhitespace _ present
    have final : ((text.dropWhile isWhitespace).rdropWhile isWhitespace).getLast present = c := by
      rw [← Option.some_inj, ← List.getLast?_eq_some_getLast, trimmed, ends]
    rw [final] at stops
    simpa using stops

end

end AtomrAgents.DeepResearch
