import Mathlib.Data.List.Basic

set_option autoImplicit false

/-! A stream is written frame by frame and read result by result. A reader that takes every whole frame off
the front of the stream reads back what was written, whatever follows; a stream that was cut off is whole
frames and then a part of the next one. -/

namespace Shared.Framed

section Reads

variable {Stream Result : Type} (read : Stream → Result × Stream)

def reads : Nat → Stream → List Result
  | 0, _ => []
  | n + 1, stream => (read stream).1 :: reads n (read stream).2

theorem reads_one (stream : Stream) : reads read 1 stream = [(read stream).1] := rfl

end Reads

variable {Byte Item Result : Type} (frame : Item → List Byte)

theorem reads_frames {read : List Byte → Result × List Byte} {result : Item → Result} {items : List Item}
    (whole : ∀ item ∈ items, ∀ rest, read (frame item ++ rest) = (result item, rest)) (n : Nat)
    (rest : List Byte) :
    reads read (items.length + n) (items.flatMap frame ++ rest) =
      items.map result ++ reads read n rest := by
  induction items with
  | nil => simp
  | cons item items ih =>
    have first := whole item List.mem_cons_self (items.flatMap frame ++ rest)
    have later := ih fun other member => whole other (List.mem_cons_of_mem item member)
    rw [List.length_cons, Nat.add_right_comm, reads, List.flatMap_cons, List.append_assoc, first]
    simp only [List.map_cons, List.cons_append, later]

def boundary (items : List Item) (k : Nat) : Nat := ((items.take k).flatMap frame).length

-- How many frames are whole in the first `cut` bytes.
def wholeFrames : List Item → Nat → Nat
  | [], _ => 0
  | item :: items, cut =>
    if (frame item).length ≤ cut then wholeFrames items (cut - (frame item).length) + 1 else 0

theorem boundary_cons_succ (item : Item) (items : List Item) (k : Nat) :
    boundary frame (item :: items) (k + 1) = (frame item).length + boundary frame items k := by
  simp [boundary]

theorem boundary_succ {items : List Item} {k : Nat} {item : Item} (found : items[k]? = some item) :
    boundary frame items (k + 1) = boundary frame items k + (frame item).length := by
  simp [boundary, List.take_add_one, found]

theorem boundary_wholeFrames_le (items : List Item) (cut : Nat) :
    boundary frame items (wholeFrames frame items cut) ≤ cut := by
  induction items generalizing cut with
  | nil => simp [boundary, wholeFrames]
  | cons item items ih =>
    rw [wholeFrames]
    split
    next fits =>
      rw [boundary_cons_succ]
      have later := ih (cut - (frame item).length)
      omega
    next => simp [boundary]

theorem take_flatMap {items : List Item} {cut : Nat} (short : cut < (items.flatMap frame).length) :
    ∃ item, items[wholeFrames frame items cut]? = some item ∧
      cut < boundary frame items (wholeFrames frame items cut) + (frame item).length ∧
      (items.flatMap frame).take cut = (items.take (wholeFrames frame items cut)).flatMap frame ++
        (frame item).take (cut - boundary frame items (wholeFrames frame items cut)) := by
  induction items generalizing cut with
  | nil => simp at short
  | cons item items ih =>
    rw [wholeFrames]
    split
    next fits =>
      have inside : cut - (frame item).length < (items.flatMap frame).length := by
        simp only [List.flatMap_cons, List.length_append] at short
        omega
      obtain ⟨next, found, part, taken⟩ := ih inside
      refine ⟨next, by simpa using found, ?_, ?_⟩
      · rw [boundary_cons_succ]
        omega
      · rw [List.flatMap_cons, List.take_append, List.take_of_length_le fits, taken, boundary_cons_succ,
          List.take_succ_cons, List.flatMap_cons, List.append_assoc, Nat.sub_sub]
    next short' =>
      refine ⟨item, rfl, ?_, ?_⟩
      · simp only [boundary, List.take_zero, List.flatMap_nil, List.length_nil]
        omega
      · have fits : cut ≤ (frame item).length := by omega
        simp [boundary, List.take_append_of_le_length fits]

theorem wholeFrames_eq {items : List Item} {k cut : Nat} (within : k ≤ items.length)
    (low : boundary frame items k ≤ cut)
    (high : k < items.length → cut < boundary frame items (k + 1)) : wholeFrames frame items cut = k := by
  induction items generalizing k cut with
  | nil => simpa [wholeFrames, eq_comm] using within
  | cons item items ih =>
    cases k with
    | zero =>
      have short := high (Nat.zero_lt_succ _)
      rw [boundary_cons_succ] at short
      simp only [boundary, List.take_zero, List.flatMap_nil, List.length_nil, Nat.add_zero] at short
      rw [wholeFrames, if_neg (by omega)]
    | succ k =>
      rw [boundary_cons_succ] at low
      rw [wholeFrames, if_pos (by omega)]
      congr 1
      apply ih
      · simpa using within
      · omega
      · intro more
        have next := high (by simpa using more)
        rw [boundary_cons_succ] at next
        omega

section Groups

variable {Query Answer : Type} {Answers : Query → List Answer → Prop}

-- No answer to a query is the beginning of another one.
def PrefixFree (Answers : Query → List Answer → Prop) : Prop :=
  ∀ query answer other, Answers query answer → Answers query other → answer <+: other → answer = other

theorem groups_prefix (free : PrefixFree Answers) (nonempty : ∀ query, ¬Answers query []) {queries : List Query}
    {given read : Nat} {groups others : List (List Answer)} {rest : List Answer}
    (answered : List.Forall₂ Answers (queries.take given) groups)
    (split : List.Forall₂ Answers (queries.take read) others) (same : others.flatten ++ rest = groups.flatten) :
    others = groups.take read ∧ rest = (groups.drop read).flatten := by
  induction queries generalizing given read groups others with
  | nil =>
    rw [List.take_nil] at answered split
    cases answered
    cases split
    rw [List.take_nil, List.drop_nil]
    exact ⟨rfl, same⟩
  | cons query queries ih =>
    cases read with
    | zero =>
      cases split
      exact ⟨rfl, same⟩
    | succ read =>
      cases split with
      | @cons _ other _ others here' split =>
        rw [List.flatten_cons, List.append_assoc] at same
        cases given with
        | zero =>
          cases answered
          have none_ : other = [] := (List.append_eq_nil_iff.mp same).1
          exact absurd (none_ ▸ here') (nonempty query)
        | succ given =>
          cases answered with
          | @cons _ answer _ groups here answered =>
            rw [List.flatten_cons] at same
            have first : answer = other := by
              have left : answer <+: answer ++ groups.flatten := List.prefix_append _ _
              have right : other <+: answer ++ groups.flatten := same ▸ List.prefix_append _ _
              rcases List.prefix_or_prefix_of_prefix left right with short | short
              · exact free query answer other here here' short
              · exact (free query other answer here' here short).symm
            subst first
            obtain ⟨sameGroups, sameRest⟩ := ih answered split (List.append_cancel_left same)
            refine ⟨?_, ?_⟩
            · rw [sameGroups, List.take_succ_cons]
            · rw [sameRest, List.drop_succ_cons]

end Groups

end Shared.Framed
