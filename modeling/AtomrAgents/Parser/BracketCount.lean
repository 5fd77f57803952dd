import AtomrAgents.Parser.Streaming
import AtomrAgents.Shared.JsonText

set_option autoImplicit false

namespace AtomrAgents

open Shared JsonText

namespace Walk

def depth (w : Walk) : Container → Int32
  | .object => w.depthObj
  | .array => w.depthArr

-- Where the walk is: outside of strings, or inside one behind a byte.
def place (w : Walk) : Option UInt8 := if w.inString then some w.prev else none

end Walk

-- What stands outside of strings, if a string ends at the first quote that is not behind a backslash.
def outside : Option UInt8 → List UInt8 → List UInt8
  | _, [] => []
  | none, c :: rest => if c = '"'.toUInt8 then outside (some c) rest else c :: outside none rest
  | some prev, c :: rest =>
    if c = '"'.toUInt8 ∧ prev ≠ '\\'.toUInt8 then outside none rest else outside (some c) rest

def surplus (k : Container) (bytes : List UInt8) : Int :=
  bytes.count k.opener.toUInt8 - bytes.count k.closer.toUInt8

def unclosed (k : Container) (text : List Char) : Nat :=
  (Int32.ofInt (surplus k (outside none (utf8 text)))).toInt.toNat

def counted (text : List Char) : List Container :=
  List.replicate (unclosed .object text) .object ++ List.replicate (unclosed .array text) .array

def delta (k : Container) (c : UInt8) : Int :=
  if c = k.opener.toUInt8 then 1 else if c = k.closer.toUInt8 then -1 else 0

theorem surplus_cons (k : Container) (c : UInt8) (bytes : List UInt8) :
    surplus k (c :: bytes) = delta k c + surplus k bytes := by
  have apart : k.opener.toUInt8 ≠ k.closer.toUInt8 := by cases k <;> decide
  rw [surplus, surplus, List.count_cons, List.count_cons, delta]
  by_cases opens : c = k.opener.toUInt8
  · subst opens
    simp [apart]
    omega
  · by_cases closes : c = k.closer.toUInt8
    · subst closes
      simp [apart.symm]
      omega
    · simp [opens, closes]

namespace Walk

theorem turn_inside {w : Walk} (inside : w.inString = true) (i : Nat) (c : UInt8) (k : Container) :
    (w.turn i c).depth k = w.depth k := by
  unfold turn
  rw [if_pos inside]
  split_ifs <;> cases k <;> rfl

theorem depth_balance (w : Walk) (i : Nat) (k : Container) : (w.balance i).depth k = w.depth k := by
  unfold balance
  split_ifs <;> cases k <;> rfl

theorem turn_outside {w : Walk} (free : w.inString = false) (i : Nat) (c : UInt8) (k : Container) :
    (w.turn i c).depth k = w.depth k + Int32.ofInt (delta k c) := by
  have same (d : Int32) : d = d + Int32.ofInt 0 := (Int32.add_zero d).symm
  have less (d : Int32) : d - 1 = d + Int32.ofInt (-1) := Int32.sub_eq_add_neg d 1
  unfold turn
  rw [if_neg (by simp [free])]
  split_ifs with quote object endObject array endArray
  · subst quote
    cases k <;> exact same _
  · subst object
    cases k
    · rfl
    · exact same _
  · subst endObject
    rw [depth_balance]
    cases k
    · exact less _
    · exact same _
  · subst array
    cases k
    · exact same _
    · rfl
  · subst endArray
    rw [depth_balance]
    cases k
    · exact same _
    · exact less _
  · have none : delta k c = 0 := by
      cases k
      · exact (if_neg object).trans (if_neg endObject)
      · exact (if_neg array).trans (if_neg endArray)
    rw [none]
    exact same _

theorem depth_step (w : Walk) (i : Nat) (c : UInt8) (k : Container) : (w.step i c).depth k = (w.turn i c).depth k := by
  cases k <;> rfl

theorem place_step (w : Walk) (i : Nat) (c : UInt8) :
    (w.step i c).place = if (w.turn i c).inString then some c else none := rfl

theorem outside_inside {w : Walk} (inside : w.inString = true) (i : Nat) (c : UInt8) (rest : List UInt8) :
    outside w.place (c :: rest) = outside (w.step i c).place rest := by
  have here : w.place = some w.prev := if_pos inside
  rw [here, outside, place_step, turn, if_pos inside]
  by_cases ends : c = '"'.toUInt8 ∧ w.prev ≠ '\\'.toUInt8
  · rw [if_pos ends, if_pos ends]
    rfl
  · rw [if_neg ends, if_neg ends, if_pos inside]

theorem inString_balance (w : Walk) (i : Nat) : (w.balance i).inString = w.inString := by
  unfold balance
  split_ifs <;> rfl

theorem inString_turn {w : Walk} {c : UInt8} (free : w.inString = false) (other : c ≠ '"'.toUInt8) (i : Nat) :
    (w.turn i c).inString = false := by
  rw [turn, if_neg (by simp [free]), if_neg other]
  split_ifs
  · exact free
  · exact (inString_balance _ i).trans free
  · exact free
  · exact (inString_balance _ i).trans free
  · exact free

theorem surplus_outside {w : Walk} (free : w.inString = false) (i : Nat) (c : UInt8) (rest : List UInt8)
    (k : Container) :
    surplus k (outside w.place (c :: rest)) = delta k c + surplus k (outside (w.step i c).place rest) := by
  have here : w.place = none := if_neg (by simp [free])
  rw [here, outside]
  by_cases quote : c = '"'.toUInt8
  · have opens : w.turn i c = { w with inString := true } := by
      rw [turn, if_neg (by simp [free]), if_pos quote]
    have next : (w.step i c).place = some c := by
      rw [place_step, opens]
      rfl
    have none : delta k c = 0 := by
      subst quote
      cases k <;> rfl
    rw [if_pos quote, next, none, Int.zero_add]
  · have next : (w.step i c).place = none := by
      rw [place_step, inString_turn free quote]
      rfl
    rw [if_neg quote, next, surplus_cons]

theorem depth_run (w : Walk) (i : Nat) (bytes : List UInt8) (k : Container) :
    (w.run i bytes).depth k = w.depth k + Int32.ofInt (surplus k (outside w.place bytes)) := by
  induction bytes generalizing w i with
  | nil => exact (Int32.add_zero _).symm
  | cons c rest ih =>
    rw [run, ih, depth_step]
    cases inside : w.inString with
    | true => rw [turn_inside inside, outside_inside inside i]
    | false => rw [turn_outside inside, surplus_outside inside i, Int32.ofInt_add, Int32.add_assoc]

end Walk

section

variable {k : Container} {a b : Int} {bytes passed : List UInt8} {p : UInt8} {c : Char} {raw front back : List Char}

theorem surplus_append (k : Container) (front back : List UInt8) :
    surplus k (front ++ back) = surplus k front + surplus k back := by
  rw [surplus, surplus, surplus, List.count_append, List.count_append]
  omega

def Adds (k : Container) (a : Int) (text : List Char) : Prop :=
  ∀ rest, surplus k (outside none (utf8 (text ++ rest))) = a + surplus k (outside none (utf8 rest))

theorem Adds.append (first : Adds k a front) (second : Adds k b back) : Adds k (a + b) (front ++ back) := by
  intro rest
  rw [List.append_assoc, first, second, Int.add_assoc]

theorem outside_other (other : ∀ d ∈ passed, d ≠ '"'.toUInt8) (bytes : List UInt8) :
    outside none (passed ++ bytes) = passed ++ outside none bytes := by
  induction passed with
  | nil => rfl
  | cons d passed ih =>
    rw [List.cons_append, outside, if_neg (other d List.mem_cons_self),
      ih fun e member => other e (List.mem_cons_of_mem _ member)]
    rfl

theorem outside_passed (filled : passed ≠ []) (other : ∀ d ∈ passed, d ≠ '"'.toUInt8) (p : UInt8)
    (bytes : List UInt8) :
    outside (some p) (passed ++ bytes) = outside (some (passed.getLast filled)) bytes := by
  induction passed generalizing p with
  | nil => exact absurd rfl filled
  | cons d passed ih =>
    have open_ : ¬ (d = '"'.toUInt8 ∧ p ≠ '\\'.toUInt8) := fun ends => other d List.mem_cons_self ends.1
    rw [List.cons_append, outside, if_neg open_]
    cases passed with
    | nil => rfl
    | cons e passed =>
      exact ih (List.cons_ne_nil _ _) (fun f member => other f (List.mem_cons_of_mem _ member)) d

theorem mem_encode {d : Char} (ascii : d.toNat < 128) (member : d.toUInt8 ∈ String.utf8EncodeChar c) : c = d :=
  (mem_utf8EncodeChar ascii).mp member

theorem adds_char (other : c ≠ '"') (ascii : c.toNat < 128) (k : Container) : Adds k (delta k c.toUInt8) [c] := by
  intro rest
  have bytes : String.utf8EncodeChar c = [c.toUInt8] := utf8EncodeChar_ascii ascii
  have noQuote : ∀ d ∈ [c.toUInt8], d ≠ '"'.toUInt8 := by
    intro d member same
    rw [← bytes, same] at member
    exact other (mem_encode (by decide) member)
  rw [List.singleton_append, utf8_cons, bytes, outside_other noQuote, List.singleton_append, surplus_cons]

theorem adds_plain (plain : ∀ d ∈ raw, d ∉ special) (k : Container) : Adds k 0 raw := by
  induction raw with
  | nil => exact fun rest => (Int.zero_add _).symm
  | cons c raw ih =>
    have here : c ∉ special := plain c List.mem_cons_self
    have none (d : Char) (member : d ∈ special) (ascii : d.toNat < 128) : d.toUInt8 ∉ String.utf8EncodeChar c :=
      fun inside => here (mem_encode ascii inside ▸ member)
    have noQuote : ∀ d ∈ String.utf8EncodeChar c, d ≠ '"'.toUInt8 := by
      rintro d member rfl
      exact none '"' (by decide) (by decide) member
    have nothing : surplus k (String.utf8EncodeChar c) = 0 := by
      have opener : k.opener.toUInt8 ∉ String.utf8EncodeChar c := by
        cases k <;> exact none _ (by decide) (by decide)
      have closer : k.closer.toUInt8 ∉ String.utf8EncodeChar c := by
        cases k <;> exact none _ (by decide) (by decide)
      rw [surplus, List.count_eq_zero.mpr opener, List.count_eq_zero.mpr closer]
      rfl
    intro rest
    rw [List.cons_append, utf8_cons, outside_other noQuote, surplus_append, nothing,
      ih (fun d member => plain d (List.mem_cons_of_mem _ member)) rest, Int.zero_add]

theorem outside_char (stays : c ≠ '"' ∨ p = '\\'.toUInt8) (bytes : List UInt8) :
    ∃ next, outside (some p) (String.utf8EncodeChar c ++ bytes) = outside (some next) bytes ∧
      (next = '\\'.toUInt8 ↔ c = '\\') := by
  by_cases quote : c = '"'
  · subst quote
    have backslash : p = '\\'.toUInt8 := stays.resolve_left (by simp)
    have open_ : ¬ ('"'.toUInt8 = '"'.toUInt8 ∧ p ≠ '\\'.toUInt8) := fun ends => ends.2 backslash
    exact ⟨'"'.toUInt8, if_neg open_, by decide⟩
  · have filled : String.utf8EncodeChar c ≠ [] := by
      have size := c.utf8Size_pos
      rw [← String.length_utf8EncodeChar c] at size
      exact List.ne_nil_of_length_pos size
    have noQuote : ∀ d ∈ String.utf8EncodeChar c, d ≠ '"'.toUInt8 := by
      rintro d member rfl
      exact quote (mem_encode (by decide) member)
    refine ⟨_, outside_passed filled noQuote p bytes, ?_, ?_⟩
    · intro last
      exact mem_encode (by decide) (last ▸ List.getLast_mem filled)
    · rintro rfl
      have single : String.utf8EncodeChar '\\' = ['\\'.toUInt8] := by decide
      simp [single]

theorem outside_escaped (escaped : Escaped raw) {before : Char} (last : p = '\\'.toUInt8 → before = '\\')
    (rest : List Char) :
    ∃ next, outside (some p) (utf8 (raw ++ rest)) = outside (some next) (utf8 rest) ∧
      (next = '\\'.toUInt8 → raw.getLast?.getD before = '\\') := by
  induction escaped generalizing p before with
  | nil => exact ⟨p, rfl, last⟩
  | @plain c raw noQuote noBackslash escaped ih =>
    obtain ⟨next, passes, ends⟩ := outside_char (p := p) (.inl noQuote) (utf8 (raw ++ rest))
    obtain ⟨final, inside, closes⟩ := ih ends.mp
    refine ⟨final, ?_, ?_⟩
    · rw [List.cons_append, utf8_cons, passes, inside]
    · rw [List.getLast?_cons]
      exact closes
  | @escape c raw escaped ih =>
    obtain ⟨middle, backslash, behind⟩ :=
      outside_char (p := p) (c := '\\') (.inl (by simp)) (utf8 (c :: raw ++ rest))
    obtain ⟨next, passes, ends⟩ := outside_char (c := c) (.inr (behind.mpr rfl)) (utf8 (raw ++ rest))
    obtain ⟨final, inside, closes⟩ := ih ends.mp
    refine ⟨final, ?_, ?_⟩
    · rw [List.cons_append, utf8_cons, backslash, List.cons_append, utf8_cons, passes, inside]
    · rw [List.getLast?_cons, List.getLast?_cons]
      exact closes

theorem adds_string (escaped : Escaped raw) (ends : raw.getLast? ≠ some '\\') (k : Container) :
    Adds k 0 ('"' :: (raw ++ ['"'])) := by
  intro rest
  have start : '"'.toUInt8 = '\\'.toUInt8 → '"' = '\\' := by decide
  obtain ⟨next, inside, closes⟩ := outside_escaped escaped start ('"' :: rest)
  have free : next ≠ '\\'.toUInt8 := by
    intro last
    have backslash := closes last
    cases found : raw.getLast? with
    | none =>
      rw [found] at backslash
      exact absurd backslash (by decide)
    | some c =>
      rw [found] at backslash
      exact ends (found.trans (congrArg some backslash))
  have quote : String.utf8EncodeChar '"' = ['"'.toUInt8] := by decide
  have opens : outside none (utf8 ('"' :: (raw ++ '"' :: rest))) =
      outside (some '"'.toUInt8) (utf8 (raw ++ '"' :: rest)) := by
    rw [utf8_cons, quote]
    rfl
  have shuts : outside (some next) (utf8 ('"' :: rest)) = outside none (utf8 rest) := by
    rw [utf8_cons, quote]
    exact if_pos ⟨rfl, free⟩
  have text : '"' :: (raw ++ ['"']) ++ rest = '"' :: (raw ++ '"' :: rest) := by simp
  rw [text, opens, inside, shuts, Int.zero_add]

theorem adds_bracket (c k : Container) :
    Adds k (delta k c.opener.toUInt8) [c.opener] ∧ Adds k (delta k c.closer.toUInt8) [c.closer] := by
  cases c <;> exact ⟨adds_char (by decide) (by decide) k, adds_char (by decide) (by decide) k⟩

theorem adds_pieced {lexicon : Lexicon} (ends : ∀ raw, lexicon.Text raw → raw.getLast? ≠ some '\\')
    (k : Container) :
    Pieced lexicon (Adds k 0) where
  append first second := first.append second
  plain other := adds_plain other k
  text {raw} text := adds_string (lexicon.text_escaped raw text) (ends raw text) k
  within c inner inside := by
    obtain ⟨opens, shuts⟩ := adds_bracket c k
    have total : delta k c.opener.toUInt8 + (0 + delta k c.closer.toUInt8) = 0 := by cases c <;> cases k <;> rfl
    exact total ▸ opens.append (inside.append shuts)

theorem adds_cut {lexicon : Lexicon} {n : Nat} {text : List Char} {opened : List Container}
    (ends : ∀ raw, lexicon.Text raw → raw.getLast? ≠ some '\\') (cut : Cut lexicon n text opened front)
    (k : Container) : Adds k (opened.count k) front := by
  have pieced := adds_pieced ends k
  induction cut with
  | whole json => exact pieced.json json
  | @within n opened front c gap earlier part later white placed values cut ih =>
    obtain ⟨opens, -⟩ := adds_bracket c k
    have total : delta k c.opener.toUInt8 + (0 + (opened.count k : Int)) = ((opened ++ [c]).count k : Nat) := by
      have one : delta k c.opener.toUInt8 = ([c].count k : Nat) := by cases c <;> cases k <;> rfl
      rw [List.count_append, one]
      omega
    exact total ▸ opens.append ((pieced.before white placed values).append ih)

theorem unclosed_eq {lexicon : Lexicon} {n : Nat} {text : List Char} {opened : List Container}
    (ends : ∀ raw, lexicon.Text raw → raw.getLast? ≠ some '\\') (cut : Cut lexicon n text opened front)
    (few : opened.length < 2 ^ 31) (k : Container) : unclosed k front = opened.count k := by
  have adds := adds_cut ends cut k []
  have less : opened.count k ≤ opened.length := List.count_le_length
  rw [List.append_nil] at adds
  have small : surplus k (outside none (utf8 front)) = opened.count k := adds.trans (Int.add_zero _)
  rw [unclosed, small, Int32.toInt_ofInt_of_le (by omega) (by omega)]
  exact Int.toNat_natCast _

end

end AtomrAgents
