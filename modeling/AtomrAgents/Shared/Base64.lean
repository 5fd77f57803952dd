import Mathlib.Data.List.Basic

set_option autoImplicit false

/-! Three bytes are four digits of six bits. What is left at the end is filled up with zero bits to whole
digits, and with `=` to four characters. -/

namespace Shared.Base64

def alphabet : List Char := "ABCDEFGHIJKLMNOPQRSTUVWXYZabcdefghijklmnopqrstuvwxyz0123456789+/".toList

def pad : Char := '='

def digit (n : Nat) : Char := alphabet.getD n pad

def value (c : Char) : Option Nat := alphabet.idxOf? c

def digits : List UInt8 → List Nat
  | a :: b :: c :: rest =>
    a.toNat / 4 :: (a.toNat % 4 * 16 + b.toNat / 16) :: (b.toNat % 16 * 4 + c.toNat / 64) :: c.toNat % 64 ::
      digits rest
  | [a, b] => [a.toNat / 4, a.toNat % 4 * 16 + b.toNat / 16, b.toNat % 16 * 4]
  | [a] => [a.toNat / 4, a.toNat % 4 * 16]
  | [] => []

def bytes : List Nat → List UInt8
  | a :: b :: c :: d :: rest =>
    .ofNat (a * 4 + b / 16) :: .ofNat (b % 16 * 16 + c / 4) :: .ofNat (c % 4 * 64 + d) :: bytes rest
  | [a, b, c] => [.ofNat (a * 4 + b / 16), .ofNat (b % 16 * 16 + c / 4)]
  | [a, b] => [.ofNat (a * 4 + b / 16)]
  | _ => []

def encode (content : List UInt8) : List Char :=
  (digits content).map digit ++ List.replicate ((3 - content.length % 3) % 3) pad

-- The padding is skipped.
def decode (text : List Char) : Option (List UInt8) :=
  ((text.takeWhile (· != pad)).mapM value).map bytes

theorem digits_lt {content : List UInt8} {n : Nat} (member : n ∈ digits content) : n < 64 := by
  fun_induction digits content with
  | case1 a b c rest ih =>
    have first := a.toNat_lt
    have second := b.toNat_lt
    have third := c.toNat_lt
    simp only [List.mem_cons] at member
    rcases member with rfl | rfl | rfl | rfl | member
    · omega
    · omega
    · omega
    · omega
    · exact ih member
  | case2 a b =>
    have first := a.toNat_lt
    have second := b.toNat_lt
    simp only [List.mem_cons, List.not_mem_nil, or_false] at member
    omega
  | case3 a =>
    have first := a.toNat_lt
    simp only [List.mem_cons, List.not_mem_nil, or_false] at member
    omega
  | case4 => cases member

theorem ofNat_eq (byte : UInt8) {n : Nat} (same : n = byte.toNat) : UInt8.ofNat n = byte := by
  rw [same, UInt8.ofNat_toNat]

theorem bytes_digits (content : List UInt8) : bytes (digits content) = content := by
  fun_induction digits content with
  | case1 a b c rest ih =>
    have first := a.toNat_lt
    have second := b.toNat_lt
    have third := c.toNat_lt
    rw [bytes, ih, ofNat_eq a (by omega), ofNat_eq b (by omega),
      ofNat_eq c (by omega)]
  | case2 a b =>
    have first := a.toNat_lt
    have second := b.toNat_lt
    rw [bytes, ofNat_eq a (by omega), ofNat_eq b (by omega)]
  | case3 a =>
    have first := a.toNat_lt
    rw [bytes, ofNat_eq a (by omega)]
  | case4 => rfl

theorem value_digit {n : Nat} (fits : n < 64) : value (digit n) = some n := by
  have all : ∀ n : Fin 64, value (digit n) = some n.val := by decide +kernel
  exact all ⟨n, fits⟩

theorem digit_mem {n : Nat} (fits : n < 64) : digit n ∈ alphabet := by
  have all : ∀ n : Fin 64, digit n ∈ alphabet := by decide +kernel
  exact all ⟨n, fits⟩

theorem pad_not_mem : pad ∉ alphabet := by decide

theorem mem_encode {content : List UInt8} {c : Char} (member : c ∈ encode content) : c ∈ alphabet ∨ c = pad := by
  rw [encode, List.mem_append] at member
  rcases member with member | member
  · obtain ⟨n, inside, rfl⟩ := List.mem_map.mp member
    exact .inl (digit_mem (digits_lt inside))
  · exact .inr (List.eq_of_mem_replicate member)

theorem mapM_value {ns : List Nat} (fits : ∀ n ∈ ns, n < 64) : (ns.map digit).mapM value = some ns := by
  induction ns with
  | nil => rfl
  | cons n ns ih =>
    rw [List.forall_mem_cons] at fits
    rw [List.map_cons, List.mapM_cons, value_digit fits.1, ih fits.2]
    rfl

theorem takeWhile_encode (content : List UInt8) :
    (encode content).takeWhile (· != pad) = (digits content).map digit := by
  have kept : ∀ c ∈ (digits content).map digit, (c != pad) = true := by
    intro c member
    obtain ⟨n, inside, rfl⟩ := List.mem_map.mp member
    have used := digit_mem (digits_lt inside)
    exact bne_iff_ne.mpr fun same => pad_not_mem (same ▸ used)
  rw [encode, List.takeWhile_append_of_pos kept]
  have none_ : (List.replicate ((3 - content.length % 3) % 3) pad).takeWhile (· != pad) = [] := by
    cases (3 - content.length % 3) % 3 <;> simp [List.replicate_succ]
  rw [none_, List.append_nil]

theorem decode_encode (content : List UInt8) : decode (encode content) = some content := by
  rw [decode, takeWhile_encode, mapM_value fun n member => digits_lt member, Option.map_some, bytes_digits]

example : encode [77, 97, 110, 33] = "TWFuIQ==".toList := by decide

end Shared.Base64
