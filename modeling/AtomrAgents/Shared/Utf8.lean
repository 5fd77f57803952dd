import Mathlib.Data.String.Basic
import Mathlib.Data.List.Basic

set_option autoImplicit false

/-! A text is read byte by byte, and cut at byte offsets. An offset at which a byte below 128 stands, or the
text ends, lies between two characters, so nothing is cut inside one there. -/

namespace Shared

variable {text front middle back : List Char} {c x : Char} {b : UInt8}

abbrev utf8 (text : List Char) : List UInt8 := text.flatMap String.utf8EncodeChar

abbrev utf8Length (text : List Char) : Nat := (utf8 text).length

theorem utf8_append (front back : List Char) : utf8 (front ++ back) = utf8 front ++ utf8 back := List.flatMap_append

theorem utf8_cons (c : Char) (text : List Char) : utf8 (c :: text) = String.utf8EncodeChar c ++ utf8 text :=
  List.flatMap_cons

theorem utf8Length_append (front back : List Char) :
    utf8Length (front ++ back) = utf8Length front + utf8Length back := by
  rw [utf8Length, utf8_append, List.length_append]

theorem length_utf8 (text : List Char) : (utf8 text).length = utf8Length text := rfl

theorem utf8Length_cons (c : Char) (text : List Char) : utf8Length (c :: text) = c.utf8Size + utf8Length text := by
  simp [utf8Length, utf8]

theorem utf8Length_snoc {c : Char} (ascii : c.utf8Size = 1) (text : List Char) :
    utf8Length (text ++ [c]) = utf8Length text + 1 := by
  rw [utf8Length_append, utf8Length_cons, ascii]
  rfl

theorem utf8Length_sub (front rest : List Char) :
    utf8Length (front ++ rest) - utf8Length rest = utf8Length front := by
  rw [utf8Length_append, Nat.add_sub_cancel]

theorem not_ascii_of_wide {n : Nat} (wide : 128 ≤ n) (fits : n < 256) : ¬ (UInt8.ofNat n).toNat < 128 := by
  rw [UInt8.toNat_ofNat', Nat.mod_eq_of_lt fits]
  omega

theorem char_of_ascii_byte (member : b ∈ String.utf8EncodeChar x) (ascii : b.toNat < 128) :
    x.toNat = b.toNat := by
  revert member
  fun_cases String.utf8EncodeChar x with
  | case1 v small =>
    intro member
    rw [List.mem_singleton.mp member, UInt8.toNat_ofNat']
    exact (Nat.mod_eq_of_lt (by omega : x.val.toNat < 2 ^ 8)).symm
  | case2 | case3 | case4 =>
    intro member
    simp only [List.mem_cons, List.not_mem_nil, or_false] at member
    exfalso
    rcases member with rfl | rfl | rfl | rfl <;> exact not_ascii_of_wide (by omega) (by omega) ascii

theorem mem_utf8EncodeChar (ascii : c.toNat < 128) : UInt8.ofNat c.toNat ∈ String.utf8EncodeChar x ↔ x = c := by
  have byte : (UInt8.ofNat c.toNat).toNat = c.toNat := by
    rw [UInt8.toNat_ofNat']
    exact Nat.mod_eq_of_lt (by omega)
  constructor
  · intro member
    have same := char_of_ascii_byte member (by omega)
    rw [byte] at same
    exact Char.toNat_inj.mp same
  · rintro rfl
    have small : x.val.toNat ≤ 127 := Nat.le_of_lt_succ ascii
    simp only [String.utf8EncodeChar, if_pos small]
    exact List.mem_singleton_self _

theorem utf8EncodeChar_ascii (ascii : c.toNat < 128) : String.utf8EncodeChar c = [UInt8.ofNat c.toNat] := by
  have small : c.val.toNat ≤ 127 := Nat.le_of_lt_succ ascii
  simp only [String.utf8EncodeChar, if_pos small]
  rfl

theorem split_at_char {c x : Char} {text rest : List Char} (found : text.dropWhile (· ≠ c) = x :: rest) :
    x = c ∧ text = text.takeWhile (· ≠ c) ++ c :: rest := by
  have stops := List.head?_dropWhile_not (· ≠ c) text
  rw [found] at stops
  have same : x = c := by simpa using stops
  subst same
  have whole := List.takeWhile_append_dropWhile (p := (· ≠ x)) (l := text)
  rw [found] at whole
  exact ⟨rfl, whole.symm⟩

theorem takeWhile_of_dropWhile_nil {c : Char} {text : List Char} (none : text.dropWhile (· ≠ c) = []) :
    text.takeWhile (· ≠ c) = text := by
  have whole := List.takeWhile_append_dropWhile (p := (· ≠ c)) (l := text)
  rwa [none, List.append_nil] at whole

theorem takeWhile_utf8 (ascii : c.toNat < 128) (text : List Char) :
    (utf8 text).takeWhile (· ≠ UInt8.ofNat c.toNat) = utf8 (text.takeWhile (· ≠ c)) := by
  induction text with
  | nil => rfl
  | cons x rest ih =>
    rw [utf8_cons]
    by_cases same : x = c
    · subst same
      simp [utf8EncodeChar_ascii ascii]
    · have passed : ∀ b ∈ String.utf8EncodeChar x, decide (b ≠ UInt8.ofNat c.toNat) = true := by
        intro b member
        rw [decide_eq_true_eq]
        rintro rfl
        exact same ((mem_utf8EncodeChar ascii).mp member)
      rw [List.takeWhile_append_of_pos passed, ih, List.takeWhile_cons_of_pos (by simpa using same)]
      exact (utf8_cons x _).symm

-- The text before a byte offset and the text from it on, if the offset lies between two characters.
def splitAtByte : List Char → Nat → Option (List Char × List Char)
  | text, 0 => some ([], text)
  | [], _ + 1 => none
  | c :: rest, n + 1 =>
    if c.utf8Size ≤ n + 1 then
      (splitAtByte rest (n + 1 - c.utf8Size)).map fun (before, after) => (c :: before, after)
    else none

theorem splitAtByte_append (front back : List Char) :
    splitAtByte (front ++ back) (utf8Length front) = some (front, back) := by
  induction front with
  | nil => cases back <;> rfl
  | cons c front ih =>
    obtain ⟨n, size⟩ := Nat.exists_eq_succ_of_ne_zero (Nat.ne_of_gt c.utf8Size_pos)
    have length : utf8Length (c :: front) = n + utf8Length front + 1 := by
      rw [utf8Length_cons, size]
      omega
    have less : c.utf8Size ≤ n + utf8Length front + 1 := by omega
    have rest : n + utf8Length front + 1 - c.utf8Size = utf8Length front := by omega
    rw [length, List.cons_append, splitAtByte, if_pos less, rest, ih]
    rfl

theorem splitAtByte_eq_some {n : Nat} {back : List Char} (split : splitAtByte text n = some (front, back)) :
    text = front ++ back ∧ utf8Length front = n := by
  induction text generalizing n front with
  | nil =>
    cases n with
    | zero =>
      cases split
      exact ⟨rfl, rfl⟩
    | succ n => cases split
  | cons c rest ih =>
    cases n with
    | zero =>
      cases split
      exact ⟨rfl, rfl⟩
    | succ n =>
      rw [splitAtByte] at split
      split at split
      · next fits =>
        obtain ⟨⟨before, after⟩, later, same⟩ := Option.map_eq_some_iff.mp split
        cases same
        obtain ⟨rfl, length⟩ := ih later
        refine ⟨rfl, ?_⟩
        rw [utf8Length_cons, length]
        omega
      · cases split

-- `raw[start..stop]`, where nothing stands for the panic at an offset outside the text or inside a character.
def slice (raw : List Char) (start stop : Nat) : Option (List Char) :=
  if start ≤ stop then
    (splitAtByte raw stop).bind fun (before, _) => (splitAtByte before start).map Prod.snd
  else none

-- `raw[start..]`
def sliceFrom (raw : List Char) (start : Nat) : Option (List Char) := (splitAtByte raw start).map Prod.snd

-- `raw[..stop]`
def sliceTo (raw : List Char) (stop : Nat) : Option (List Char) := (splitAtByte raw stop).map Prod.fst

theorem slice_append (front middle back : List Char) :
    slice (front ++ middle ++ back) (utf8Length front) (utf8Length (front ++ middle)) = some middle := by
  have less : utf8Length front ≤ utf8Length (front ++ middle) := by
    rw [utf8Length_append]
    omega
  rw [slice, if_pos less, splitAtByte_append]
  dsimp only [Option.bind_some]
  rw [splitAtByte_append]
  rfl

theorem sliceFrom_append (front back : List Char) :
    sliceFrom (front ++ back) (utf8Length front) = some back := by
  rw [sliceFrom, splitAtByte_append]
  rfl

theorem sliceTo_append (front back : List Char) : sliceTo (front ++ back) (utf8Length front) = some front := by
  rw [sliceTo, splitAtByte_append]
  rfl

theorem sliceTo_isSome_iff (text : List Char) (stop : Nat) :
    (sliceTo text stop).isSome ↔ ∃ front, front <+: text ∧ utf8Length front = stop := by
  constructor
  · intro cut
    obtain ⟨front, slice⟩ := Option.isSome_iff_exists.mp cut
    obtain ⟨⟨before, back⟩, split, rfl⟩ := Option.map_eq_some_iff.mp slice
    obtain ⟨rfl, length⟩ := splitAtByte_eq_some split
    exact ⟨before, List.prefix_append before back, length⟩
  · rintro ⟨front, ⟨back, rfl⟩, rfl⟩
    rw [sliceTo_append]
    rfl

theorem sliceTo_ascii {i : Nat} (byte : (utf8 text)[i]? = some b) (ascii : b.toNat < 128) :
    ∃ front, front <+: text ∧ sliceTo text (i + 1) = some front := by
  suffices cut : ∃ front back, text = front ++ back ∧ utf8Length front = i + 1 by
    obtain ⟨front, back, rfl, length⟩ := cut
    exact ⟨front, List.prefix_append front back, length ▸ sliceTo_append front back⟩
  induction text generalizing i with
  | nil => cases byte
  | cons x rest ih =>
    rw [utf8_cons, List.getElem?_append] at byte
    split at byte
    · have value := char_of_ascii_byte (List.mem_of_getElem? byte) ascii
      have single := utf8EncodeChar_ascii (c := x) (by omega)
      refine ⟨[x], rest, rfl, ?_⟩
      simp_all [utf8Length, utf8]
    · next behind =>
      obtain ⟨front, back, rfl, length⟩ := ih byte
      have size : (String.utf8EncodeChar x).length = x.utf8Size := String.length_utf8EncodeChar x
      refine ⟨x :: front, back, rfl, ?_⟩
      rw [utf8Length_cons, length]
      omega

def splitFirst (pattern : List Char) : List Char → Option (List Char × List Char)
  | [] => if pattern <+: [] then some ([], []) else none
  | c :: rest =>
    if pattern <+: c :: rest then some ([], (c :: rest).drop pattern.length)
    else (splitFirst pattern rest).map fun (before, after) => (c :: before, after)

-- `str::find`
def find (pattern text : List Char) : Option Nat := (splitFirst pattern text).map fun (before, _) => utf8Length before

theorem splitFirst_eq_some {pattern before after : List Char} (found : splitFirst pattern text = some (before, after)) :
    text = before ++ pattern ++ after := by
  induction text generalizing before with
  | nil =>
    rw [splitFirst] at found
    split at found
    · next here =>
      cases found
      rw [List.prefix_nil.mp here]
      rfl
    · cases found
  | cons c rest ih =>
    rw [splitFirst] at found
    split at found
    · next here =>
      cases found
      exact (List.prefix_iff_eq_append.mp here).symm
    · obtain ⟨⟨before', after'⟩, found, same⟩ := Option.map_eq_some_iff.mp found
      cases same
      rw [ih found]
      rfl

theorem splitFirst_append {rest before : List Char} (first : c ∉ before) (after : List Char) :
    splitFirst (c :: rest) (before ++ c :: rest ++ after) = some (before, after) := by
  induction before with
  | nil =>
    have here : c :: rest <+: c :: (rest ++ after) := List.prefix_append (c :: rest) after
    rw [List.nil_append, List.cons_append, splitFirst, if_pos here]
    simp
  | cons x before ih =>
    rw [List.mem_cons, not_or] at first
    have elsewhere : ¬ c :: rest <+: x :: (before ++ c :: rest ++ after) := by
      rw [List.cons_prefix_cons]
      exact fun here => first.1 here.1
    rw [List.cons_append, List.cons_append, splitFirst, if_neg elsewhere, ih first.2]
    rfl

end Shared
