import AtomrAgents.Shared.Utf8
import Mathlib.Data.List.Basic

set_option autoImplicit false

/-! Bytes are cut into chunks of one size, and a chunk is read as text with a replacement character for every
part that is no UTF-8. The chunks of a text read as its pieces if each holds whole characters. -/

namespace Shared

section Chunks

variable {α : Type} (n : Nat)

-- `slice::chunks`; the first `skip` elements are in the chunk before.
def chunksFrom : Nat → List α → List (List α)
  | _, [] => []
  | skip + 1, _ :: rest => chunksFrom skip rest
  | 0, x :: rest => (x :: rest).take n :: chunksFrom (n - 1) rest

def chunks (xs : List α) : List (List α) := chunksFrom n 0 xs

variable {n}

theorem chunksFrom_skip (skip : Nat) (xs : List α) : chunksFrom n skip xs = chunks n (xs.drop skip) := by
  induction xs generalizing skip with
  | nil => cases skip <;> simp [chunks, chunksFrom]
  | cons x rest ih =>
    cases skip with
    | zero => rfl
    | succ skip => exact ih skip

theorem chunks_cons (positive : 0 < n) {xs : List α} (filled : xs ≠ []) :
    chunks n xs = xs.take n :: chunks n (xs.drop n) := by
  cases xs with
  | nil => exact absurd rfl filled
  | cons x rest =>
    obtain ⟨m, rfl⟩ := Nat.exists_eq_succ_of_ne_zero (Nat.ne_of_gt positive)
    rw [chunks, chunksFrom, chunksFrom_skip]
    rfl

theorem chunk_induction {motive : List α → Prop} (positive : 0 < n) (nil : motive [])
    (chunk : ∀ xs, xs ≠ [] → motive (xs.drop n) → motive xs) (xs : List α) : motive xs := by
  induction size : xs.length using Nat.strong_induction_on generalizing xs with
  | h k ih =>
    by_cases filled : xs = []
    · rw [filled]
      exact nil
    · refine chunk xs filled (ih _ ?_ _ rfl)
      have := List.length_pos_iff.mpr filled
      rw [List.length_drop]
      omega

theorem flatten_chunks (positive : 0 < n) (xs : List α) : (chunks n xs).flatten = xs := by
  induction xs using chunk_induction positive with
  | nil => rfl
  | chunk xs filled ih => simp [chunks_cons positive filled, ih]

theorem chunk_bounds (positive : 0 < n) {xs chunk : List α} (member : chunk ∈ chunks n xs) :
    chunk ≠ [] ∧ chunk.length ≤ n := by
  induction xs using chunk_induction positive with
  | nil => simp [chunks, chunksFrom] at member
  | chunk xs filled ih =>
    rw [chunks_cons positive filled, List.mem_cons] at member
    cases member with
    | inl first =>
      have := List.length_pos_iff.mpr filled
      rw [first, ← List.length_pos_iff, List.length_take]
      omega
    | inr later => exact ih later

theorem length_chunks (positive : 0 < n) {xs : List α} (longer : n < xs.length) : 2 ≤ (chunks n xs).length := by
  have filled : xs ≠ [] := List.length_pos_iff.mp (by omega)
  have rest : xs.drop n ≠ [] := List.length_pos_iff.mp (by rw [List.length_drop]; omega)
  simp [chunks_cons positive filled, chunks_cons positive rest]

end Chunks

def decodeChar (bytes : List UInt8) : Option Char := bytes.toByteArray.utf8DecodeChar? 0

def isTail (b : UInt8) : Bool := b &&& 192 == 128

-- Whether a first byte of three or of four goes on with a second one.
def goesOn (first second : UInt8) : Bool :=
  if first = 0xE0 then 0xA0 ≤ second ∧ second ≤ 0xBF
  else if first = 0xED then 0x80 ≤ second ∧ second ≤ 0x9F
  else if first = 0xF0 then 0x90 ≤ second ∧ second ≤ 0xBF
  else if first = 0xF4 then 0x80 ≤ second ∧ second ≤ 0x8F
  else 0xE1 ≤ first ∧ first ≤ 0xF3 ∧ isTail second

def invalidTail (first : UInt8) : List UInt8 → Nat
  | [] => 0
  | [second] => if goesOn first second then 1 else 0
  | second :: third :: _ =>
    if goesOn first second then
      if 0xF0 ≤ first ∧ isTail third then 2 else 1
    else 0

-- `String::from_utf8_lossy`; the first `skip` bytes are read already.
def lossyFrom : Nat → List UInt8 → List Char
  | _, [] => []
  | skip + 1, _ :: rest => lossyFrom skip rest
  | 0, b :: rest =>
    match decodeChar (b :: rest) with
    | some c => c :: lossyFrom (c.utf8Size - 1) rest
    | none => '\uFFFD' :: lossyFrom (invalidTail b rest) rest

def fromUtf8Lossy (bytes : List UInt8) : List Char := lossyFrom 0 bytes

variable {bytes : List UInt8} {text rest : List Char} {c : Char}

theorem decodeChar_append (c : Char) (rest : List UInt8) : decodeChar (String.utf8EncodeChar c ++ rest) = some c := by
  rw [decodeChar, List.toByteArray_append]
  exact ByteArray.utf8DecodeChar?_utf8EncodeChar_append

theorem exists_of_decodeChar (found : decodeChar bytes = some c) : ∃ rest, bytes = String.utf8EncodeChar c ++ rest := by
  have whole := ByteArray.eq_of_utf8DecodeChar?_eq_some found
  let rest := bytes.toByteArray.extract c.utf8Size bytes.toByteArray.size
  have same : rest.data.toList.toByteArray = rest := ByteArray.ext (by simp [List.data_toByteArray])
  refine ⟨rest.data.toList, List.toByteArray_inj.mp ?_⟩
  rw [List.toByteArray_append, same]
  exact whole

theorem lossyFrom_skip (skip : Nat) (bytes : List UInt8) : lossyFrom skip bytes = fromUtf8Lossy (bytes.drop skip) := by
  induction bytes generalizing skip with
  | nil => cases skip <;> simp [fromUtf8Lossy, lossyFrom]
  | cons b rest ih =>
    cases skip with
    | zero => rfl
    | succ skip => exact ih skip

theorem fromUtf8Lossy_append (c : Char) (rest : List UInt8) :
    fromUtf8Lossy (String.utf8EncodeChar c ++ rest) = c :: fromUtf8Lossy rest := by
  have size := String.length_utf8EncodeChar c
  have found := decodeChar_append c rest
  cases encoded : String.utf8EncodeChar c with
  | nil =>
    have := c.utf8Size_pos
    rw [encoded] at size
    simp at size
    omega
  | cons b tail =>
    rw [encoded] at size found
    simp only [List.cons_append] at found ⊢
    have behind : c.utf8Size - 1 = tail.length := by simp [← size]
    rw [fromUtf8Lossy, lossyFrom, found]
    simp [lossyFrom_skip, behind]

theorem fromUtf8Lossy_utf8 (text : List Char) : fromUtf8Lossy (utf8 text) = text := by
  induction text with
  | nil => rfl
  | cons c text ih => rw [utf8_cons, fromUtf8Lossy_append, ih]

theorem fromUtf8Lossy_cons (b : UInt8) (bytes : List UInt8) :
    (∃ c rest, b :: bytes = String.utf8EncodeChar c ++ rest ∧ fromUtf8Lossy (b :: bytes) = c :: fromUtf8Lossy rest) ∨
      ∃ skip, fromUtf8Lossy (b :: bytes) = '\uFFFD' :: fromUtf8Lossy (bytes.drop skip) := by
  cases found : decodeChar (b :: bytes) with
  | some c =>
    obtain ⟨rest, whole⟩ := exists_of_decodeChar found
    left
    refine ⟨c, rest, whole, ?_⟩
    rw [whole, fromUtf8Lossy_append]
  | none =>
    right
    refine ⟨invalidTail b bytes, ?_⟩
    rw [fromUtf8Lossy, lossyFrom, found, ← lossyFrom_skip]

theorem length_fromUtf8Lossy (bytes : List UInt8) : (fromUtf8Lossy bytes).length ≤ bytes.length := by
  induction size : bytes.length using Nat.strong_induction_on generalizing bytes with
  | h n ih =>
    cases bytes with
    | nil => simp [fromUtf8Lossy, lossyFrom]
    | cons b bytes =>
      obtain ⟨c, rest, whole, text⟩ | ⟨skip, text⟩ := fromUtf8Lossy_cons b bytes
      · have lengths := congrArg List.length whole
        have := c.utf8Size_pos
        simp only [List.length_append, String.length_utf8EncodeChar] at lengths
        have := ih rest.length (by omega) rest rfl
        rw [text, List.length_cons]
        omega
      · have shorter : (bytes.drop skip).length ≤ bytes.length := by simp
        simp only [List.length_cons] at size
        have := ih (bytes.drop skip).length (by omega) _ rfl
        rw [text, List.length_cons]
        omega

theorem fromUtf8Lossy_ne_nil (filled : bytes ≠ []) : fromUtf8Lossy bytes ≠ [] := by
  cases bytes with
  | nil => exact absurd rfl filled
  | cons b bytes => obtain ⟨c, rest, -, text⟩ | ⟨skip, text⟩ := fromUtf8Lossy_cons b bytes <;> simp [text]

theorem utf8_fromUtf8Lossy (clean : '\uFFFD' ∉ fromUtf8Lossy bytes) : utf8 (fromUtf8Lossy bytes) = bytes := by
  induction size : bytes.length using Nat.strong_induction_on generalizing bytes with
  | h n ih =>
    cases bytes with
    | nil => rfl
    | cons b bytes =>
      obtain ⟨c, rest, whole, text⟩ | ⟨skip, text⟩ := fromUtf8Lossy_cons b bytes
      · have lengths := congrArg List.length whole
        have := c.utf8Size_pos
        simp only [List.length_append, String.length_utf8EncodeChar] at lengths
        rw [text, List.mem_cons, not_or] at clean
        rw [text, utf8_cons, ih rest.length (by omega) clean.2 rfl, ← whole]
      · simp [text] at clean

def WholeChunks (n : Nat) (text : List Char) : Prop := ∀ chunk ∈ chunks n (utf8 text), ∃ piece, chunk = utf8 piece

theorem flatten_of_wholeChunks {n : Nat} (positive : 0 < n) (whole : WholeChunks n text) :
    ((chunks n (utf8 text)).map fromUtf8Lossy).flatten = text := by
  have read : ∀ bytes : List (List UInt8), (∀ chunk ∈ bytes, ∃ piece, chunk = utf8 piece) →
      utf8 (bytes.map fromUtf8Lossy).flatten = bytes.flatten := by
    intro bytes pieces
    induction bytes with
    | nil => rfl
    | cons chunk bytes ih =>
      obtain ⟨⟨piece, rfl⟩, later⟩ := List.forall_mem_cons.mp pieces
      rw [List.map_cons, List.flatten_cons, utf8_append, fromUtf8Lossy_utf8, ih later, List.flatten_cons]
  have same := read _ whole
  rw [flatten_chunks positive] at same
  rw [← fromUtf8Lossy_utf8 (List.flatten _), same, fromUtf8Lossy_utf8]

theorem wholeChunks_of_clean {n : Nat}
    (clean : ∀ piece ∈ (chunks n (utf8 text)).map fromUtf8Lossy, '\uFFFD' ∉ piece) : WholeChunks n text := by
  intro chunk member
  exact ⟨fromUtf8Lossy chunk, (utf8_fromUtf8Lossy (clean _ (List.mem_map_of_mem member))).symm⟩

end Shared
