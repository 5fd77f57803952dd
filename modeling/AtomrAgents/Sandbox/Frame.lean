import AtomrAgents.Shared.Framed
import Mathlib.Algebra.Group.Nat.Defs

set_option autoImplicit false

/-! A message is encoded by `postcard` and written behind its length, which takes four bytes. The reader gives
`none` where the stream ends before the length is complete. -/

namespace AtomrAgents

open Shared.Framed

-- `std::io::Error`; one kind of it is looked at.
inductive IoError where
  | unexpectedEof
  | other (text : String)
deriving DecidableEq

inductive ProtoError where
  | io (e : IoError)
  | encode (text : String)
  | decode (text : String)
  | frameTooLarge (len : Nat)
deriving DecidableEq

def maxFrameBytes : Nat := 64 * 1024 * 1024

structure Postcard (T : Type) where
  toAllocvec : T → Except String (List UInt8)
  fromBytes : List UInt8 → Except String T

-- `(n as u32).to_le_bytes()`
def toLeBytes (n : Nat) : List UInt8 :=
  [n, n / 2 ^ 8, n / 2 ^ 16, n / 2 ^ 24].map UInt8.ofNat

-- `u32::from_le_bytes`
def fromLeBytes : List UInt8 → Nat
  | [] => 0
  | byte :: bytes => byte.toNat + 2 ^ 8 * fromLeBytes bytes

theorem fromLeBytes_toLeBytes {n : Nat} (fits : n < 2 ^ 32) : fromLeBytes (toLeBytes n) = n := by
  simp only [toLeBytes, fromLeBytes, List.map_cons, List.map_nil, UInt8.toNat_ofNat']
  omega

-- A stream that ends with `ending` when no byte is left: with `UnexpectedEof` when the peer has closed it.
def readExact (ending : IoError) (n : Nat) (r : List UInt8) : Except IoError (List UInt8) × List UInt8 :=
  if n ≤ r.length then (.ok (r.take n), r.drop n) else (.error ending, [])

section

variable {T : Type} (postcard : Postcard T)

-- The writer is what has been written; it takes every byte.
def writeFrame (w : List UInt8) (msg : T) : Except ProtoError Unit × List UInt8 :=
  match postcard.toAllocvec msg with
  | .error e => (.error (.encode e), w)
  | .ok body =>
    if body.length > maxFrameBytes then (.error (.frameTooLarge body.length), w)
    else (.ok (), w ++ toLeBytes body.length ++ body)

def writeFrames : List UInt8 → List T → Except ProtoError Unit × List UInt8
  | w, [] => (.ok (), w)
  | w, msg :: msgs =>
    match writeFrame postcard w msg with
    | (.error e, w) => (.error e, w)
    | (.ok (), w) => writeFrames w msgs

def readFrame (ending : IoError) (r : List UInt8) : Except ProtoError (Option T) × List UInt8 :=
  match readExact ending 4 r with
  | (.error .unexpectedEof, r) => (.ok none, r)
  | (.error e, r) => (.error (.io e), r)
  | (.ok lenBuf, r) =>
    let len := fromLeBytes lenBuf
    if len > maxFrameBytes then (.error (.frameTooLarge len), r)
    else
      match readExact ending len r with
      | (.error e, r) => (.error (.io e), r)
      | (.ok body, r) =>
        match postcard.fromBytes body with
        | .error e => (.error (.decode e), r)
        | .ok msg => (.ok (some msg), r)

def Postcard.RoundTrips : Prop :=
  ∀ msg body, postcard.toAllocvec msg = .ok body → postcard.fromBytes body = .ok msg

-- The message can be sent: it has an encoding, which is not too long.
def Sendable (msg : T) : Prop :=
  ∃ body, postcard.toAllocvec msg = .ok body ∧ body.length ≤ maxFrameBytes

def frameOf (msg : T) : List UInt8 :=
  match postcard.toAllocvec msg with
  | .error _ => []
  | .ok body => toLeBytes body.length ++ body

end

section

variable {T : Type} {postcard : Postcard T} {msg : T} {msgs : List T}

theorem length_toLeBytes (n : Nat) : (toLeBytes n).length = 4 := rfl

theorem readExact_append (ending : IoError) {bytes : List UInt8} {n : Nat} (length : bytes.length = n)
    (rest : List UInt8) : readExact ending n (bytes ++ rest) = (.ok bytes, rest) := by
  subst length
  simp [readExact]

theorem readExact_short (ending : IoError) {bytes : List UInt8} {n : Nat} (short : bytes.length < n) :
    readExact ending n bytes = (.error ending, []) := by
  rw [readExact, if_neg (by omega)]

theorem writeFrame_sendable (sendable : Sendable postcard msg) (w : List UInt8) :
    writeFrame postcard w msg = (.ok (), w ++ frameOf postcard msg) := by
  obtain ⟨body, encoded, fits⟩ := sendable
  simp only [writeFrame, frameOf, encoded, if_neg (Nat.not_lt.mpr fits), List.append_assoc]

theorem writeFrames_sendable (sendable : ∀ msg ∈ msgs, Sendable postcard msg) (w : List UInt8) :
    writeFrames postcard w msgs = (.ok (), w ++ msgs.flatMap (frameOf postcard)) := by
  induction msgs generalizing w with
  | nil => simp [writeFrames]
  | cons msg msgs ih =>
    have later := ih fun other member => sendable other (List.mem_cons_of_mem msg member)
    simp only [writeFrames, writeFrame_sendable (sendable msg List.mem_cons_self), later,
      List.flatMap_cons, List.append_assoc]

theorem length_frameOf (sendable : Sendable postcard msg) : 4 ≤ (frameOf postcard msg).length := by
  obtain ⟨body, encoded, -⟩ := sendable
  simp only [frameOf, encoded, List.length_append, length_toLeBytes]
  omega

theorem readFrame_frameOf (roundTrips : postcard.RoundTrips) (sendable : Sendable postcard msg)
    (ending : IoError) (rest : List UInt8) :
    readFrame postcard ending (frameOf postcard msg ++ rest) = (.ok (some msg), rest) := by
  obtain ⟨body, encoded, fits⟩ := sendable
  have small : body.length < 2 ^ 32 := Nat.lt_of_le_of_lt fits (by decide)
  simp only [readFrame, frameOf, encoded, List.append_assoc, readExact_append ending (length_toLeBytes _),
    fromLeBytes_toLeBytes small, if_neg (Nat.not_lt.mpr fits), readExact_append ending rfl,
    roundTrips msg body encoded]

theorem readFrame_short {part : List UInt8} (short : part.length < 4) :
    readFrame postcard .unexpectedEof part = (.ok none, []) := by
  simp only [readFrame, readExact_short .unexpectedEof short]

theorem readFrame_take_frameOf (sendable : Sendable postcard msg) {part : Nat} (long : 4 ≤ part)
    (short : part < (frameOf postcard msg).length) :
    readFrame postcard .unexpectedEof ((frameOf postcard msg).take part) =
      (.error (.io .unexpectedEof), []) := by
  obtain ⟨body, encoded, fits⟩ := sendable
  have small : body.length < 2 ^ 32 := Nat.lt_of_le_of_lt fits (by decide)
  simp only [frameOf, encoded, List.length_append, length_toLeBytes] at short
  have cutOff : ((toLeBytes body.length ++ body).take part) =
      toLeBytes body.length ++ body.take (part - 4) := by
    rw [List.take_append, List.take_of_length_le (by rw [length_toLeBytes]; exact long), length_toLeBytes]
  have less : (body.take (part - 4)).length < body.length := by
    rw [List.length_take]
    omega
  simp only [readFrame, frameOf, encoded, cutOff, readExact_append _ (length_toLeBytes _),
    fromLeBytes_toLeBytes small, if_neg (Nat.not_lt.mpr fits), readExact_short _ less]

theorem reads_end (n : Nat) :
    reads (readFrame postcard .unexpectedEof) n [] = List.replicate n (.ok none) := by
  induction n with
  | zero => rfl
  | succ n ih => rw [reads, readFrame_short (by simp), ih, List.replicate_succ]

end

section

variable {T : Type} (postcard : Postcard T) (msgs : List T) (cut : Nat)

-- Reading the first `cut` bytes gives the whole messages and then `none` at a frame boundary, an error
-- elsewhere.
def TruncationSeen : Prop :=
  let whole := wholeFrames (frameOf postcard) msgs cut
  let results := reads (readFrame postcard .unexpectedEof) (whole + 1)
    ((writeFrames postcard [] msgs).2.take cut)
  let messages := (msgs.take whole).map fun msg => .ok (some msg)
  if cut = boundary (frameOf postcard) msgs whole then results = messages ++ [.ok none]
  else ∃ e, results = messages ++ [.error e]

-- The cut is one to three bytes behind a frame boundary.
def InsideLength : Prop :=
  ∃ k < msgs.length, boundary (frameOf postcard) msgs k < cut ∧ cut < boundary (frameOf postcard) msgs k + 4

end

section

variable {T : Type} {postcard : Postcard T} {msgs : List T} {cut : Nat}

theorem insideLength_iff (sendable : ∀ msg ∈ msgs, Sendable postcard msg)
    (short : wholeFrames (frameOf postcard) msgs cut < msgs.length) :
    InsideLength postcard msgs cut ↔
      cut ≠ boundary (frameOf postcard) msgs (wholeFrames (frameOf postcard) msgs cut) ∧
        cut < boundary (frameOf postcard) msgs (wholeFrames (frameOf postcard) msgs cut) + 4 := by
  have low := boundary_wholeFrames_le (frameOf postcard) msgs cut
  constructor
  · intro ⟨k, less, after, before⟩
    have whole : wholeFrames (frameOf postcard) msgs cut = k := by
      apply wholeFrames_eq (frameOf postcard) (Nat.le_of_lt less) (Nat.le_of_lt after)
      intro _
      have long := length_frameOf (sendable _ (List.getElem_mem less))
      rw [boundary_succ (frameOf postcard) (List.getElem?_eq_getElem less)]
      omega
    rw [whole]
    omega
  · intro ⟨off, before⟩
    exact ⟨_, short, by omega, before⟩

theorem reads_cut (roundTrips : postcard.RoundTrips) (sendable : ∀ msg ∈ msgs, Sendable postcard msg)
    (short : cut < (msgs.flatMap (frameOf postcard)).length) :
    ∃ msg ∈ msgs, wholeFrames (frameOf postcard) msgs cut < msgs.length ∧
      cut < boundary (frameOf postcard) msgs (wholeFrames (frameOf postcard) msgs cut) +
        (frameOf postcard msg).length ∧
      reads (readFrame postcard .unexpectedEof) (wholeFrames (frameOf postcard) msgs cut + 1)
          ((writeFrames postcard [] msgs).2.take cut) =
        (msgs.take (wholeFrames (frameOf postcard) msgs cut)).map (fun msg => .ok (some msg)) ++
          [(readFrame postcard .unexpectedEof ((frameOf postcard msg).take
            (cut - boundary (frameOf postcard) msgs (wholeFrames (frameOf postcard) msgs cut)))).1] := by
  obtain ⟨msg, found, part, taken⟩ := take_flatMap (frameOf postcard) short
  obtain ⟨less, -⟩ := List.getElem?_eq_some_iff.mp found
  refine ⟨msg, List.mem_of_getElem? found, less, part, ?_⟩
  have whole : ∀ msg ∈ msgs.take (wholeFrames (frameOf postcard) msgs cut), ∀ rest,
      readFrame postcard .unexpectedEof (frameOf postcard msg ++ rest) = (.ok (some msg), rest) :=
    fun msg member => readFrame_frameOf roundTrips (sendable msg (List.mem_of_mem_take member)) _
  have read := reads_frames (frameOf postcard) whole 1 ((frameOf postcard msg).take
    (cut - boundary (frameOf postcard) msgs (wholeFrames (frameOf postcard) msgs cut)))
  rw [List.length_take, Nat.min_eq_left (Nat.le_of_lt less)] at read
  rw [writeFrames_sendable sendable, List.nil_append, taken, read, reads_one]

theorem truncationSeen_iff (roundTrips : postcard.RoundTrips)
    (sendable : ∀ msg ∈ msgs, Sendable postcard msg)
    (short : cut < (msgs.flatMap (frameOf postcard)).length) :
    TruncationSeen postcard msgs cut ↔ ¬InsideLength postcard msgs cut := by
  obtain ⟨msg, member, less, before, read⟩ := reads_cut roundTrips sendable short
  have low := boundary_wholeFrames_le (frameOf postcard) msgs cut
  rw [insideLength_iff sendable less]
  simp only [TruncationSeen, read, List.append_cancel_left_eq, List.cons.injEq, and_true]
  split
  next atEnd =>
    rw [← atEnd, Nat.sub_self, List.take_zero, readFrame_short (by simp)]
    simp
  next off =>
    by_cases inside : cut < boundary (frameOf postcard) msgs (wholeFrames (frameOf postcard) msgs cut) + 4
    next =>
      have part : ((frameOf postcard msg).take
          (cut - boundary (frameOf postcard) msgs (wholeFrames (frameOf postcard) msgs cut))).length < 4 := by
        rw [List.length_take]
        omega
      simp [readFrame_short part, off, inside]
    next =>
      have long : 4 ≤ cut - boundary (frameOf postcard) msgs (wholeFrames (frameOf postcard) msgs cut) := by
        omega
      have missed := readFrame_take_frameOf (sendable msg member) long (by omega)
      simp [missed, inside]

/-- Messages are read back as they were written, and a stream that was cut off is told from one that has
ended unless the cut is inside a length. -/
theorem frames_read_back (roundTrips : postcard.RoundTrips)
    (sendable : ∀ msg ∈ msgs, Sendable postcard msg) :
    (writeFrames postcard [] msgs).1 = .ok () ∧
      (∀ n, reads (readFrame postcard .unexpectedEof) (msgs.length + n) (writeFrames postcard [] msgs).2 =
        msgs.map (fun msg => .ok (some msg)) ++ List.replicate n (.ok none)) ∧
      ∀ cut < (writeFrames postcard [] msgs).2.length,
        (TruncationSeen postcard msgs cut ↔ ¬InsideLength postcard msgs cut) := by
  have written := writeFrames_sendable sendable []
  rw [List.nil_append] at written
  refine ⟨by rw [written], ?_, ?_⟩
  · intro n
    have whole : ∀ msg ∈ msgs, ∀ rest,
        readFrame postcard .unexpectedEof (frameOf postcard msg ++ rest) = (.ok (some msg), rest) :=
      fun msg member => readFrame_frameOf roundTrips (sendable msg member) _
    have read := reads_frames (frameOf postcard) whole n []
    rw [List.append_nil, reads_end] at read
    rw [written, read]
  · intro cut short
    rw [written] at short
    exact truncationSeen_iff roundTrips sendable short

end

-- `postcard` writes a `bool` as one byte.
def boolPostcard : Postcard Bool where
  toAllocvec msg := .ok [if msg then 1 else 0]
  fromBytes
    | [] => .error "Hit the end of buffer, expected more data"
    | byte :: _ =>
      if byte = 0 then .ok false
      else if byte = 1 then .ok true
      else .error "Found a bool that wasn't 0 or 1"

theorem boolPostcard_roundTrips : boolPostcard.RoundTrips := by
  rintro msg _ ⟨⟩
  cases msg <;> rfl

theorem boolPostcard_sendable (msg : Bool) : Sendable boolPostcard msg :=
  ⟨_, rfl, by simp [maxFrameBytes]⟩

theorem frames_read_back_bools :
    (∀ n, reads (readFrame boolPostcard .unexpectedEof) (2 + n)
        (writeFrames boolPostcard [] [true, false]).2 =
      [.ok (some true), .ok (some false)] ++ List.replicate n (.ok none)) ∧
      TruncationSeen boolPostcard [true, false] 5 ∧ TruncationSeen boolPostcard [true, false] 9 := by
  have sendable : ∀ msg ∈ [true, false], Sendable boolPostcard msg :=
    fun msg _ => boolPostcard_sendable msg
  have read := frames_read_back boolPostcard_roundTrips sendable
  refine ⟨read.2.1, (read.2.2 5 (by decide)).mpr ?_, (read.2.2 9 (by decide)).mpr ?_⟩
  all_goals
    rintro ⟨k, less, after, before⟩
    match k, less with
    | 0, _ => revert before; decide
    | 1, _ => revert after before; decide

/-- Two bytes of the length are taken for the end of the stream. -/
theorem frame_cut_inside_length :
    boolPostcard.RoundTrips ∧ (∀ msg ∈ [true], Sendable boolPostcard msg) ∧
      (writeFrames boolPostcard [] [true]).2 = [1, 0, 0, 0, 1] ∧
      readFrame boolPostcard .unexpectedEof [1, 0] = (.ok none, []) ∧
      ¬TruncationSeen boolPostcard [true] 2 := by
  refine ⟨boolPostcard_roundTrips, fun msg _ => boolPostcard_sendable msg, by decide, by rfl, ?_⟩
  rintro ⟨e, seen⟩
  have first : reads (readFrame boolPostcard .unexpectedEof) 1 [1, 0] = [.ok none] := rfl
  cases first.symm.trans seen

end AtomrAgents
