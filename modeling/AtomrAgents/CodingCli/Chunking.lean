import AtomrAgents.CodingCli.Headless
import Mathlib.Algebra.GroupWithZero.Nat

set_option autoImplicit false

namespace AtomrAgents.CodingCli

open Shared

variable {chunk bytes : List UInt8} {text : List Char} {chunks : List (List UInt8)}

abbrev encode (text : List Char) : List UInt8 := text.flatMap String.utf8EncodeChar

theorem fromUtf8_eq_some : fromUtf8 bytes = some text ↔ bytes = encode text := by
  rw [fromUtf8, Option.map_eq_some_iff]
  constructor
  · rintro ⟨decoded, found, rfl⟩
    have valid : bytes.toByteArray.utf8Decode?.isSome := by rw [found]; rfl
    have encoded := ByteArray.utf8Encode_get_utf8Decode? (b := bytes.toByteArray) (h := valid)
    simp only [found, Option.get_some] at encoded
    exact (List.toByteArray_inj.mp encoded).symm
  · rintro rfl
    exact ⟨text.toArray, List.utf8Decode?_utf8Encode, rfl⟩

theorem fromUtf8_nil : fromUtf8 [] = some [] := fromUtf8_eq_some.mpr rfl

-- How many bytes have no part in a line end.
def content (bytes : List UInt8) : Nat := bytes.countP fun b => b ≠ 10 ∧ b ≠ 13

@[simp] theorem content_append (front back : List UInt8) : content (front ++ back) = content front + content back :=
  List.countP_append

theorem encode_append (front back : List Char) : encode (front ++ back) = encode front ++ encode back :=
  List.flatMap_append

theorem content_lineFeed : content (encode ['\n']) = 0 := by decide

theorem content_carriageReturn : content (encode ['\r']) = 0 := by decide

theorem fromUtf8_of_content (none : content bytes = 0) : ∃ text, fromUtf8 bytes = some text := by
  induction bytes with
  | nil => exact ⟨[], fromUtf8_nil⟩
  | cons b rest ih =>
    rw [content, List.countP_eq_zero] at none
    obtain ⟨text, decoded⟩ := ih (List.countP_eq_zero.mpr fun c member => none c (List.mem_cons_of_mem b member))
    rw [fromUtf8_eq_some] at decoded
    have lineEnd : b = 10 ∨ b = 13 := by
      have here := none b List.mem_cons_self
      rw [decide_eq_true_eq, not_and_or, not_not, not_not] at here
      exact here
    rcases lineEnd with rfl | rfl
    · exact ⟨'\n' :: text, fromUtf8_eq_some.mpr (by rw [decoded]; rfl)⟩
    · exact ⟨'\r' :: text, fromUtf8_eq_some.mpr (by rw [decoded]; rfl)⟩

theorem content_stripLineEnd (piece : List Char) : content (encode (stripLineEnd piece)) = content (encode piece) := by
  unfold stripLineEnd
  split
  · next ended =>
    obtain ⟨front, rfl⟩ := List.getLast?_eq_some_iff.mp ended
    rw [List.dropLast_concat, encode_append, content_append, content_lineFeed, Nat.add_zero]
    split
    · next returned =>
      obtain ⟨front, rfl⟩ := List.getLast?_eq_some_iff.mp returned
      rw [List.dropLast_concat, encode_append, content_append, content_carriageReturn, Nat.add_zero]
    · rfl
  · rfl

def lineContent (lines : List String) : Nat := (lines.map fun line => content (encode line.toList)).sum

theorem lineContent_append (front back : List String) :
    lineContent (front ++ back) = lineContent front + lineContent back := by
  simp [lineContent]

theorem lineContent_lines (text : List Char) : lineContent (lines text) = content (encode text) := by
  have whole (parts : List (List Char)) :
      lineContent (parts.map fun piece => String.ofList (stripLineEnd piece)) = content (encode parts.flatten) := by
    induction parts with
    | nil => rfl
    | cons piece parts ih =>
      rw [List.map_cons, ← List.singleton_append, lineContent_append, ih, List.flatten_cons, encode_append,
        content_append, ← content_stripLineEnd piece]
      simp [lineContent]
  rw [lines, whole, flatten_pieces]

theorem lineContent_chunk (decoded : fromUtf8 chunk = some text) :
    lineContent (chunkLines chunk) = content chunk := by
  rw [chunkLines, decoded, Option.getD_some, lineContent_lines, ← fromUtf8_eq_some.mp decoded]

theorem chunkLines_undecodable (garbled : fromUtf8 chunk = none) : chunkLines chunk = [] := by
  rw [chunkLines, garbled]
  rfl

theorem lineContent_chunk_le (chunk : List UInt8) : lineContent (chunkLines chunk) ≤ content chunk := by
  cases decoded : fromUtf8 chunk with
  | none =>
    rw [chunkLines_undecodable decoded]
    exact Nat.zero_le _
  | some text => exact Nat.le_of_eq (lineContent_chunk decoded)

theorem lineContent_chunks_le (chunks : List (List UInt8)) :
    lineContent (chunks.flatMap chunkLines) ≤ content chunks.flatten := by
  induction chunks with
  | nil => exact Nat.le_refl 0
  | cons chunk rest ih =>
    rw [List.flatMap_cons, lineContent_append, List.flatten_cons, content_append]
    exact Nat.add_le_add (lineContent_chunk_le chunk) ih

theorem decodable_of_lineContent (all : lineContent (chunks.flatMap chunkLines) = content chunks.flatten) :
    ∃ texts : List (List Char), chunks.map fromUtf8 = texts.map some := by
  induction chunks with
  | nil => exact ⟨[], rfl⟩
  | cons chunk rest ih =>
    have here := lineContent_chunk_le chunk
    have later := lineContent_chunks_le rest
    rw [List.flatMap_cons, lineContent_append, List.flatten_cons, content_append] at all
    obtain ⟨texts, decoded⟩ := ih (by omega)
    cases decodes : fromUtf8 chunk with
    | none =>
      rw [chunkLines_undecodable decodes] at all
      have silent : lineContent [] = 0 := rfl
      obtain ⟨text, found⟩ := fromUtf8_of_content (by omega : content chunk = 0)
      rw [decodes] at found
      cases found
    | some text => exact ⟨text :: texts, by rw [List.map_cons, decodes, decoded, List.map_cons]⟩

theorem fromUtf8_flatten {texts : List (List Char)} (decoded : chunks.map fromUtf8 = texts.map some) :
    fromUtf8 chunks.flatten = some texts.flatten := by
  induction chunks generalizing texts with
  | nil =>
    obtain rfl : texts = [] := by simpa using decoded.symm
    exact fromUtf8_nil
  | cons chunk rest ih =>
    cases texts with
    | nil => cases decoded
    | cons text texts =>
      rw [List.map_cons, List.map_cons, List.cons.injEq] at decoded
      have here := fromUtf8_eq_some.mp decoded.1
      have later := fromUtf8_eq_some.mp (ih decoded.2)
      rw [fromUtf8_eq_some, List.flatten_cons, List.flatten_cons, encode_append, ← here, ← later]

theorem flatMap_chunkLines {texts : List (List Char)} (decoded : chunks.map fromUtf8 = texts.map some) :
    chunks.flatMap chunkLines = texts.flatMap lines := by
  have mapped := congrArg (List.flatMap fun text => lines (text.getD [])) decoded
  rwa [List.flatMap_map, List.flatMap_map] at mapped

theorem lines_eq_nil {text : List Char} : lines text = [] ↔ text = [] := by
  rw [lines, List.map_eq_nil_iff]
  constructor
  · intro none
    by_contra some
    exact pieces_ne_nil some none
  · rintro rfl
    rfl

theorem chunkLines_eq_nil : chunkLines chunk = [] ↔ chunk = [] ∨ fromUtf8 chunk = none := by
  cases decoded : fromUtf8 chunk with
  | none => simp [chunkLines_undecodable decoded]
  | some text =>
    rw [chunkLines, decoded, Option.getD_some, lines_eq_nil]
    rw [fromUtf8_eq_some] at decoded
    have empty : encode text = [] ↔ text = [] := by
      cases text with
      | nil => simp
      | cons c rest => simp [encode, String.utf8EncodeChar_ne_nil]
    simp [decoded, empty]

def uncancelled (chunks : List (List UInt8)) : List Received := chunks.map ({ chunk := ·, cancelled := false })

theorem readStdout_uncancelled {P : Type} (parser : CliEventParser P) (run : Running P)
    (chunks : List (List UInt8)) :
    readStdout parser run (uncancelled chunks) = (chunks.flatMap chunkLines).foldl (takeLine parser) run := by
  induction chunks generalizing run with
  | nil => rfl
  | cons chunk rest ih =>
    rw [List.flatMap_cons, List.foldl_append, ← ih]
    rfl

structure ReadAlike (chunks : List (List UInt8)) : Prop where
  lines : chunks.flatMap chunkLines = chunkLines chunks.flatten
  runs : ∀ {P : Type} (parser : CliEventParser P) (world : HeadlessWorld) (runId : CliRunId) (req : CliRequest),
    runOne parser { world with stdout := uncancelled chunks } runId req =
      runOne parser { world with stdout := uncancelled [chunks.flatten] } runId req

theorem readAlike_of_lines (same : chunks.flatMap chunkLines = chunkLines chunks.flatten) : ReadAlike chunks where
  lines := same
  runs := by
    intro P parser world runId req
    have read (run : Running P) : readStdout parser run (uncancelled chunks) =
        readStdout parser run (uncancelled [chunks.flatten]) := by
      rw [readStdout_uncancelled, readStdout_uncancelled, same, List.flatMap_singleton]
    simp only [runOne, read]

/-- Other cuts than those behind a line feed show in the lines. So does a character that is cut through: its
chunks are dropped. -/
theorem readAlike_iff (chunks : List (List UInt8)) : ReadAlike chunks ↔
    (∃ texts : List (List Char), chunks.map fromUtf8 = texts.map some ∧ CutAtEnds (· = '\n') texts) ∨
      fromUtf8 chunks.flatten = none ∧ ∀ chunk ∈ chunks, chunk = [] ∨ fromUtf8 chunk = none := by
  constructor
  · intro alike
    have same := alike.lines
    cases whole : fromUtf8 chunks.flatten with
    | none =>
      right
      rw [chunkLines_undecodable whole, List.flatMap_eq_nil_iff] at same
      exact ⟨rfl, fun chunk member => chunkLines_eq_nil.mp (same chunk member)⟩
    | some text =>
      left
      obtain ⟨texts, decoded⟩ := decodable_of_lineContent (by rw [same, lineContent_chunk whole])
      refine ⟨texts, decoded, cutAtEnds_of_length ?_⟩
      have lengths := congrArg List.length same
      rw [flatMap_chunkLines decoded, chunkLines, fromUtf8_flatten decoded, Option.getD_some, lines, List.length_map,
        List.length_flatMap] at lengths
      rw [List.length_flatMap, ← lengths]
      simp [lines]
  · rintro (⟨texts, decoded, cut⟩ | ⟨whole, silent⟩)
    · apply readAlike_of_lines
      rw [flatMap_chunkLines decoded, chunkLines, fromUtf8_flatten decoded, Option.getD_some, lines,
        pieces_flatten cut, List.map_flatMap]
      rfl
    · apply readAlike_of_lines
      rw [chunkLines_undecodable whole, List.flatMap_eq_nil_iff]
      exact fun chunk member => chunkLines_eq_nil.mpr (silent chunk member)

-- `ab`, with a line feed behind it, in two chunks.
theorem cutLine_differs : ¬ ∀ chunks, ReadAlike chunks := by
  intro alike
  have same := (alike [[97], [98, 10]]).lines
  have front : fromUtf8 [97] = some ['a'] := fromUtf8_eq_some.mpr rfl
  have back : fromUtf8 [98, 10] = some ['b', '\n'] := fromUtf8_eq_some.mpr rfl
  have whole : fromUtf8 [97, 98, 10] = some ['a', 'b', '\n'] := fromUtf8_eq_some.mpr rfl
  have lengths := congrArg List.length same
  simp [chunkLines, front, back, whole, lines, pieces] at lengths

end AtomrAgents.CodingCli
