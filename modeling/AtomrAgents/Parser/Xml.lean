import AtomrAgents.Core.Text
import AtomrAgents.Core.Value
import AtomrAgents.Shared.Utf8
import Mathlib.Data.List.Nodup

set_option autoImplicit false

namespace AtomrAgents

open Shared

namespace XmlParser

-- `while idx < bytes.len() && bytes[idx] != target { idx += 1; }`
def advanceTo (bytes : List UInt8) (target : Char) (idx : Nat) : Nat :=
  idx + ((bytes.drop idx).takeWhile (· ≠ UInt8.ofNat target.toNat)).length

inductive Scan where
  | finished (out : Values)
  | panicked
  | outOfFuel

def closing (tag : List Char) : List Char := '<' :: '/' :: (tag ++ ['>'])

def scan (raw : List Char) : Nat → Nat → Values → Scan
  | 0, _, _ => .outOfFuel
  | fuel + 1, idx, out =>
    let bytes := utf8 raw
    if bytes.length ≤ idx then .finished out
    else
      let idx := advanceTo bytes '<' idx
      if bytes.length ≤ idx then .finished out
      else
        let tagStart := idx + 1
        let tagEnd := advanceTo bytes '>' tagStart
        if bytes.length ≤ tagEnd then .finished out
        else
          match slice raw tagStart tagEnd with
          | none => .panicked
          | some tag =>
            if tag.head? = some '/' then scan raw fuel (tagEnd + 1) out
            else
              match sliceFrom raw tagEnd with
              | none => .panicked
              | some rest =>
                match find (closing tag) rest with
                | none => scan raw fuel (tagEnd + 1) out
                | some closePos =>
                  let bodyStart := tagEnd + 1
                  let bodyEnd := tagEnd + closePos
                  match slice raw bodyStart bodyEnd with
                  | none => .panicked
                  | some body =>
                    scan raw fuel (bodyEnd + utf8Length (closing tag))
                      (out.insert (String.ofList tag) (.string (trim (String.ofList body))))

-- Nothing is the panic of a slice, or a scanner that goes on and on.
def parse (raw : String) : Option (Except AgentError Value) :=
  match scan raw.toList (utf8Length raw.toList + 1) 0 ∅ with
  | .finished out =>
    some (if out.isEmpty then .error (.tool "xml parse: no tags found") else .ok (.ofValues out))
  | .panicked => none
  | .outOfFuel => none

def readTag (tag rest : List Char) : Option (List Char × List Char) × List Char :=
  if tag.head? = some '/' then (none, rest)
  else
    match splitFirst (closing tag) ('>' :: rest) with
    | some (before, after) => (some (tag, before.tail), after)
    | none => (none, rest)

def nextTag (text : List Char) : Option (Option (List Char × List Char) × List Char) :=
  match text.dropWhile (· ≠ '<') with
  | [] => none
  | _ :: opened =>
    match opened.dropWhile (· ≠ '>') with
    | [] => none
    | _ :: rest => some (readTag (opened.takeWhile (· ≠ '>')) rest)

def insertTag (out : Values) : Option (List Char × List Char) → Values
  | none => out
  | some (tag, body) => out.insert (String.ofList tag) (.string (trim (String.ofList body)))

variable {raw front back : List Char}

theorem advanceTo_append {target : Char} (ascii : target.toNat < 128) (front back : List Char) :
    advanceTo (utf8 (front ++ back)) target (utf8Length front) =
      utf8Length (front ++ back.takeWhile (· ≠ target)) := by
  rw [advanceTo, utf8_append, List.drop_left, takeWhile_utf8 ascii, utf8Length_append]

theorem body_of_closing {tag rest before after : List Char}
    (found : splitFirst (closing tag) ('>' :: rest) = some (before, after)) :
    ∃ body, before = '>' :: body ∧ rest = body ++ closing tag ++ after := by
  have split := splitFirst_eq_some found
  cases before with
  | nil =>
    have here : '>' = '<' := (List.cons.inj split).1
    exact absurd here (by decide)
  | cons x body =>
    obtain ⟨rfl, rest_split⟩ := List.cons.inj split
    exact ⟨body, rfl, rest_split⟩

theorem scan_tag {start tag rest : List Char} {idx : Nat} (fuel : Nat) (out : Values) (inside : idx < utf8Length start)
    (opens : advanceTo (utf8 (start ++ tag ++ '>' :: rest)) '<' idx + 1 = utf8Length start)
    (shuts : advanceTo (utf8 (start ++ tag ++ '>' :: rest)) '>' (utf8Length start) = utf8Length (start ++ tag)) :
    scan (start ++ tag ++ '>' :: rest) (fuel + 1) idx out =
      scan (start ++ tag ++ '>' :: rest) fuel
        (utf8Length (start ++ tag ++ '>' :: rest) - utf8Length (readTag tag rest).2)
        (insertTag out (readTag tag rest).1) := by
  have tag_end : utf8Length (start ++ tag) + 1 = utf8Length (start ++ tag ++ ['>']) :=
    (utf8Length_snoc (by decide) _).symm
  have behind : utf8Length (start ++ tag) + 1 = utf8Length (start ++ tag ++ '>' :: rest) - utf8Length rest := by
    rw [tag_end, List.append_cons _ '>' rest, utf8Length_sub]
  have longer : utf8Length start ≤ utf8Length (start ++ tag) := by
    rw [utf8Length_append]
    exact Nat.le_add_right _ _
  have more : utf8Length (start ++ tag) < utf8Length (start ++ tag ++ '>' :: rest) := by
    rw [utf8Length_append (start ++ tag), utf8Length_cons]
    exact Nat.lt_add_of_pos_right (Nat.add_pos_left (Char.utf8Size_pos _) _)
  rw [scan]
  dsimp only
  rw [length_utf8, if_neg (by omega), if_neg (by omega), opens, shuts, if_neg (Nat.not_le.mpr more), slice_append,
    sliceFrom_append, readTag]
  dsimp only
  by_cases slash : tag.head? = some '/'
  · rw [if_pos slash, if_pos slash, behind]
    rfl
  rw [if_neg slash, if_neg slash, find]
  cases shut : splitFirst (closing tag) ('>' :: rest) with
  | none =>
    rw [behind]
    rfl
  | some cut =>
    obtain ⟨before, after⟩ := cut
    obtain ⟨body, rfl, rfl⟩ := body_of_closing shut
    dsimp only [Option.map_some, List.tail_cons]
    have body_end : utf8Length (start ++ tag) + utf8Length ('>' :: body) =
        utf8Length (start ++ tag ++ ['>'] ++ body) := by
      rw [← utf8Length_append, List.append_cons _ '>' body]
    have element : start ++ tag ++ '>' :: (body ++ closing tag ++ after) =
        start ++ tag ++ ['>'] ++ body ++ (closing tag ++ after) := by
      simp only [List.append_assoc, List.cons_append, List.nil_append]
    rw [tag_end, body_end, element, slice_append, ← utf8Length_append, ← List.append_assoc, utf8Length_sub]
    rfl

theorem scan_succ (fuel : Nat) (out : Values) (split : raw = front ++ back) :
    scan raw (fuel + 1) (utf8Length front) out =
      match nextTag back with
      | none => .finished out
      | some (entry, rest) => scan raw fuel (utf8Length raw - utf8Length rest) (insertTag out entry) := by
  have first : advanceTo (utf8 raw) '<' (utf8Length front) = utf8Length (front ++ back.takeWhile (· ≠ '<')) :=
    split ▸ advanceTo_append (by decide) front back
  rw [nextTag]
  cases found : back.dropWhile (· ≠ '<') with
  | nil =>
    have whole : utf8Length (front ++ back.takeWhile (· ≠ '<')) = utf8Length raw := by
      rw [takeWhile_of_dropWhile_nil found, split]
    rw [scan]
    dsimp only
    rw [first, if_pos (Nat.le_of_eq whole.symm), ite_self]
  | cons x opened =>
    obtain ⟨rfl, back_split⟩ := split_at_char found
    generalize back.takeWhile (· ≠ '<') = before at *
    obtain rfl : raw = (front ++ before ++ ['<']) ++ opened := by
      rw [split, back_split]
      simp only [List.append_assoc, List.cons_append, List.nil_append]
    have opens : utf8Length (front ++ before) + 1 = utf8Length (front ++ before ++ ['<']) :=
      (utf8Length_snoc (by decide) _).symm
    have inside : utf8Length front < utf8Length (front ++ before ++ ['<']) := by
      rw [← opens, utf8Length_append]
      omega
    generalize front ++ before ++ ['<'] = start at *
    have second : advanceTo (utf8 (start ++ opened)) '>' (utf8Length start) =
        utf8Length (start ++ opened.takeWhile (· ≠ '>')) := advanceTo_append (by decide) start opened
    dsimp only
    cases closed : opened.dropWhile (· ≠ '>') with
    | nil =>
      rw [takeWhile_of_dropWhile_nil closed] at second
      rw [scan]
      dsimp only
      rw [first, opens, second, if_pos (Nat.le_refl _), ite_self, ite_self]
    | cons y rest =>
      obtain ⟨rfl, opened_split⟩ := split_at_char closed
      dsimp only
      generalize opened.takeWhile (· ≠ '>') = tag at *
      subst opened_split
      rw [← List.append_assoc] at first second ⊢
      exact scan_tag fuel out inside (first ▸ opens) second

theorem readTag_suffix (tag rest : List Char) : (readTag tag rest).2 <:+ rest := by
  rw [readTag]
  split
  · exact List.suffix_refl rest
  · split
    · next before after shut =>
      obtain ⟨body, -, rfl⟩ := body_of_closing shut
      exact List.suffix_append _ _
    · exact List.suffix_refl rest

theorem left_of_nextTag {text rest : List Char} {entry : Option (List Char × List Char)}
    (next : nextTag text = some (entry, rest)) :
    ∃ passed, text = passed ++ rest ∧ utf8Length rest < utf8Length text := by
  rw [nextTag] at next
  cases found : text.dropWhile (· ≠ '<') with
  | nil => simp only [found, reduceCtorEq] at next
  | cons x opened =>
    obtain ⟨rfl, text_split⟩ := split_at_char found
    rw [found] at next
    dsimp only at next
    cases closed : opened.dropWhile (· ≠ '>') with
    | nil => simp only [closed, reduceCtorEq] at next
    | cons y inside =>
      obtain ⟨rfl, opened_split⟩ := split_at_char closed
      rw [closed] at next
      have behind : '>' :: inside <:+ opened := ⟨opened.takeWhile (· ≠ '>'), opened_split.symm⟩
      have ends : rest <:+ opened := by
        have left := readTag_suffix (opened.takeWhile (· ≠ '>')) inside
        rw [Option.some.inj next] at left
        exact (left.trans (List.suffix_cons _ _)).trans behind
      obtain ⟨passed, rfl⟩ := ends
      refine ⟨text.takeWhile (· ≠ '<') ++ '<' :: passed, ?_, ?_⟩
      · rw [List.append_assoc]
        exact text_split
      · rw [text_split, utf8Length_append, utf8Length_cons, utf8Length_append]
        have := ('<').utf8Size_pos
        omega

theorem scan_finishes (fuel : Nat) (front back : List Char) (out : Values) (enough : utf8Length back < fuel) :
    ∃ all, scan (front ++ back) fuel (utf8Length front) out = .finished all := by
  induction fuel generalizing front back out with
  | zero => cases enough
  | succ fuel ih =>
    rw [scan_succ fuel out rfl]
    cases next : nextTag back with
    | none => exact ⟨out, rfl⟩
    | some left =>
      obtain ⟨entry, rest⟩ := left
      obtain ⟨passed, rfl, shorter⟩ := left_of_nextTag next
      dsimp only
      rw [← List.append_assoc, utf8Length_sub]
      exact ih (front ++ passed) rest (insertTag out entry) (by omega)

theorem parse_finishes (raw : String) : ∃ result, parse raw = some result := by
  obtain ⟨all, finishes⟩ := scan_finishes (utf8Length raw.toList + 1) [] raw.toList ∅ (Nat.lt_succ_self _)
  exact ⟨_, by rw [parse, show scan raw.toList (utf8Length raw.toList + 1) 0 ∅ = .finished all from finishes]⟩

-- `<tag>value</tag>`
def element (field : String × String) : List Char :=
  '<' :: (field.1.toList ++ '>' :: (field.2.toList ++ closing field.1.toList))

def render (fields : List (String × String)) : String := String.ofList (fields.flatMap element)

structure Flat (fields : List (String × String)) : Prop where
  filled : fields ≠ []
  distinct : (fields.map Prod.fst).Nodup
  tags : ∀ field ∈ fields, '<' ∉ field.1.toList ∧ '>' ∉ field.1.toList ∧ field.1.toList.head? ≠ some '/'
  values : ∀ field ∈ fields, '<' ∉ field.2.toList

theorem nextTag_element {field : String × String} (rest : List Char) (shuts : '>' ∉ field.1.toList)
    (names : field.1.toList.head? ≠ some '/') (plain : '<' ∉ field.2.toList) :
    nextTag (element field ++ rest) = some (some (field.1.toList, field.2.toList), rest) := by
  obtain ⟨tag, value⟩ := field
  have text : element (tag, value) ++ rest =
      '<' :: (tag.toList ++ '>' :: (value.toList ++ closing tag.toList ++ rest)) := by
    simp only [element, List.append_assoc, List.cons_append]
  have passes : ∀ c ∈ tag.toList, decide (c ≠ '>') = true := by
    intro c member
    rw [decide_eq_true_eq]
    rintro rfl
    exact shuts member
  have first : '<' ∉ '>' :: value.toList := by
    rw [List.mem_cons, not_or]
    exact ⟨by decide, plain⟩
  have shut : splitFirst (closing tag.toList) ('>' :: (value.toList ++ closing tag.toList ++ rest)) =
      some ('>' :: value.toList, rest) := splitFirst_append first rest
  rw [text, nextTag, List.dropWhile_cons_of_neg (by decide)]
  dsimp only
  rw [List.dropWhile_append_of_pos passes, List.dropWhile_cons_of_neg (by decide),
    List.takeWhile_append_of_pos passes, List.takeWhile_cons_of_neg (by decide), List.append_nil]
  dsimp only
  rw [readTag, if_neg names, shut]
  rfl

theorem scan_elements {fields : List (String × String)} (fuel : Nat) (front : List Char) (out : Values)
    (tags : ∀ field ∈ fields, '<' ∉ field.1.toList ∧ '>' ∉ field.1.toList ∧ field.1.toList.head? ≠ some '/')
    (values : ∀ field ∈ fields, '<' ∉ field.2.toList) (enough : utf8Length (fields.flatMap element) < fuel) :
    scan (front ++ fields.flatMap element) fuel (utf8Length front) out =
      .finished (out.insertMany (fields.map fun field => (field.1, Value.string (trim field.2)))) := by
  induction fields generalizing fuel front out with
  | nil =>
    obtain ⟨fuel, rfl⟩ := Nat.exists_eq_add_one_of_ne_zero (Nat.ne_of_gt enough)
    rw [scan_succ fuel out rfl]
    rfl
  | cons field fields ih =>
    obtain ⟨fuel, rfl⟩ := Nat.exists_eq_add_one_of_ne_zero (Nat.ne_zero_of_lt enough)
    obtain ⟨-, shuts, names⟩ := tags field List.mem_cons_self
    have next := nextTag_element (fields.flatMap element) shuts names (values field List.mem_cons_self)
    obtain ⟨-, -, shorter⟩ := left_of_nextTag next
    rw [List.flatMap_cons] at enough ⊢
    rw [scan_succ fuel out rfl, next]
    dsimp only
    rw [← List.append_assoc, utf8Length_sub,
      ih fuel (front ++ element field) _ (fun other member => tags other (List.mem_cons_of_mem _ member))
        (fun other member => values other (List.mem_cons_of_mem _ member)) (by omega),
      List.map_cons, Std.ExtTreeMap.insertMany_cons, insertTag, String.ofList_toList, String.ofList_toList]

theorem getElem?_trimmed {fields : List (String × String)} (distinct : (fields.map Prod.fst).Nodup) (key : String)
    (v : Value) :
    ((∅ : Values).insertMany (fields.map fun field => (field.1, Value.string (trim field.2))))[key]? = some v ↔
      ∃ value, (key, value) ∈ fields ∧ v = .string (trim value) := by
  let entry (field : String × String) : String × Value := (field.1, .string (trim field.2))
  change ((∅ : Values).insertMany (fields.map entry))[key]? = some v ↔ _
  have keys : (fields.map entry).map Prod.fst = fields.map Prod.fst := by simp [entry]
  by_cases known : key ∈ fields.map Prod.fst
  · obtain ⟨⟨_, value⟩, member, rfl⟩ := List.mem_map.mp known
    dsimp only
    have apart : (fields.map entry).Pairwise fun a b => ¬ compare a.1 b.1 = .eq := by
      rw [← keys, List.Nodup, List.pairwise_map] at distinct
      exact distinct.imp fun differ same => differ (Std.LawfulEqCmp.eq_of_compare same)
    have held := Std.ExtTreeMap.getElem?_insertMany_list_of_mem (t := (∅ : Values)) (Std.ReflCmp.compare_self) apart
      (List.mem_map_of_mem member)
    rw [held, Option.some_inj]
    constructor
    · rintro rfl
      exact ⟨value, member, rfl⟩
    · rintro ⟨other, found, rfl⟩
      have same := List.inj_on_of_nodup_map distinct member found rfl
      rw [(Prod.mk.inj same).2]
  · have missing : ((fields.map entry).map Prod.fst).contains key = false := by
      rw [keys]
      simpa using known
    rw [Std.ExtTreeMap.getElem?_insertMany_list_of_contains_eq_false missing]
    simp only [Std.ExtTreeMap.getElem?_empty, reduceCtorEq, false_iff]
    rintro ⟨value, member, -⟩
    exact known (List.mem_map_of_mem member)

theorem flat_documents_parse :
    (∀ raw, ∃ result, parse raw = some result) ∧
      ∀ fields, Flat fields → ∃ out, parse (render fields) = some (.ok (.ofValues out)) ∧
        ∀ key v, out[key]? = some v ↔ ∃ value, (key, value) ∈ fields ∧ v = .string (trim value) := by
  refine ⟨parse_finishes, fun fields flat => ⟨_, ?_, getElem?_trimmed flat.distinct⟩⟩
  have scanned : scan (fields.flatMap element) (utf8Length (fields.flatMap element) + 1) 0 ∅ = _ :=
    scan_elements _ [] ∅ flat.tags flat.values (Nat.lt_succ_self _)
  have filled : ((∅ : Values).insertMany
      (fields.map fun field => (field.1, Value.string (trim field.2)))).isEmpty = false := by
    simp [Std.ExtTreeMap.isEmpty_insertMany_list, flat.filled]
  rw [parse, render, String.toList_ofList, scanned]
  dsimp only
  rw [filled]
  rfl

def menu : List (String × String) := [("a", " crème "), ("ab", "x > y"), ("", "")]

theorem menu_flat : Flat menu where
  filled := by decide
  distinct := by decide
  tags := by decide
  values := by decide

theorem menu_parses : ∃ out, parse (render menu) = some (.ok (.ofValues out)) ∧
    ∀ key v, out[key]? = some v ↔ ∃ value, (key, value) ∈ menu ∧ v = .string (trim value) :=
  flat_documents_parse.2 menu menu_flat

end XmlParser

end AtomrAgents
