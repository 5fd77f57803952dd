import Mathlib.Data.List.Basic
import Mathlib.Data.List.Induction

set_option autoImplicit false

/-! A list takes in elements one after another. An element with the key of one that is there already takes the
place of the first such one, any other is appended, and elements without a key are all kept. -/

namespace Shared

variable {α κ : Type} [DecidableEq κ] {key : α → Option κ} {out front rest : List α} {b c m : α} {k : κ}

def upsert (key : α → Option κ) (out : List α) (m : α) : List α :=
  match key m with
  | none => out ++ [m]
  | some k =>
    match out.findIdx? (fun x => key x = some k) with
    | some slot => out.set slot m
    | none => out ++ [m]

def upserts (key : α → Option κ) (out ms : List α) : List α := ms.foldl (upsert key) out

@[simp] theorem upserts_nil (out : List α) : upserts key out [] = out := rfl

@[simp] theorem upserts_cons (out ms : List α) (m : α) :
    upserts key out (m :: ms) = upserts key (upsert key out m) ms := rfl

theorem upserts_append (out ms ms' : List α) :
    upserts key out (ms ++ ms') = upserts key (upserts key out ms) ms' := List.foldl_append

def Known (key : α → Option κ) (out : List α) (m : α) : Prop := key m ≠ none ∧ key m ∈ out.map key

theorem findIdx?_key (out : List α) (k : κ) :
    out.findIdx? (fun x => key x = some k) = (out.map key).findIdx? (· == some k) := by
  rw [List.findIdx?_map]
  congr 1
  funext x
  exact (Bool.beq_eq_decide_eq _ _).symm

theorem upsert_known (known : Known key out m) :
    upsert key out m = out.set ((out.map key).idxOf (key m)) m := by
  obtain ⟨keyed, member⟩ := known
  cases same : key m with
  | none => exact absurd same keyed
  | some k =>
    rw [same] at member
    have slot : (out.map key).findIdx? (· == some k) = some ((out.map key).idxOf (some k)) :=
      List.findIdx?_eq_some_iff_findIdx_eq.mpr ⟨List.idxOf_lt_length_iff.mpr member, rfl⟩
    simp only [upsert, same, findIdx?_key, slot]

theorem upsert_fresh (fresh : ¬ Known key out m) : upsert key out m = out ++ [m] := by
  cases same : key m with
  | none => simp only [upsert, same]
  | some k =>
    have missing : some k ∉ out.map key := fun member => fresh ⟨by simp [same], by rwa [same]⟩
    have slot : (out.map key).findIdx? (· == some k) = none := by
      rw [List.findIdx?_eq_none_iff]
      intro other member
      have different : other ≠ some k := fun equal => missing (equal ▸ member)
      simpa using different
    simp only [upsert, same, findIdx?_key, slot]

theorem map_key_known (known : Known key out m) : (upsert key out m).map key = out.map key := by
  have bound := List.idxOf_lt_length_iff.mpr known.2
  rw [upsert_known known, List.map_set]
  conv_rhs => rw [← List.set_getElem_self bound]
  rw [List.getElem_idxOf bound]

theorem map_key_fresh (fresh : ¬ Known key out m) : (upsert key out m).map key = out.map key ++ [key m] := by
  rw [upsert_fresh fresh, List.map_append, List.map_singleton]

theorem mem_map_key_upsert {k : Option κ} : k ∈ (upsert key out m).map key ↔ k ∈ out.map key ∨ k = key m := by
  by_cases known : Known key out m
  · rw [map_key_known known]
    exact ⟨.inl, fun member => member.elim id fun same => same ▸ known.2⟩
  · rw [map_key_fresh known, List.mem_append, List.mem_singleton]

theorem Known.upsert (known : Known key out c) (m : α) : Known key (upsert key out m) c :=
  ⟨known.1, mem_map_key_upsert.mpr (.inl known.2)⟩

theorem known_upsert_self (out : List α) (keyed : key m ≠ none) : Known key (upsert key out m) m :=
  ⟨keyed, mem_map_key_upsert.mpr (.inr rfl)⟩

theorem upsert_upsert (same : key b = key c) (keyed : key c ≠ none) :
    upsert key (upsert key out b) c = upsert key out c := by
  have again : Known key (upsert key out b) c := by
    have self := known_upsert_self out (same ▸ keyed : key b ≠ none)
    rwa [Known, same] at self
  rw [upsert_known again]
  by_cases known : Known key out b
  · have known' : Known key out c := by rwa [Known, same] at known
    rw [map_key_known known, upsert_known known, upsert_known known', same, List.set_set]
  · have fresh : ¬ Known key out c := by rwa [Known, same] at known
    have missing : key c ∉ out.map key := fun member => fresh ⟨keyed, member⟩
    rw [map_key_fresh known, upsert_fresh known, upsert_fresh fresh, same,
      List.idxOf_append_of_notMem missing]
    simp

theorem upsert_comm (known : Known key out c) (other : key m ≠ key c) :
    upsert key (upsert key out m) c = upsert key (upsert key out c) m := by
  rw [upsert_known (known.upsert m), upsert_known known]
  have bound := List.idxOf_lt_length_iff.mpr known.2
  by_cases also : Known key out m
  · have moved : Known key (out.set ((out.map key).idxOf (key c)) c) m := by
      rw [← upsert_known known]
      exact also.upsert c
    have keys : (out.set ((out.map key).idxOf (key c)) c).map key = out.map key := by
      rw [← upsert_known known, map_key_known known]
    have apart : (out.map key).idxOf (key m) ≠ (out.map key).idxOf (key c) := by
      intro equal
      exact other ((List.idxOf_inj also.2).mp equal)
    rw [map_key_known also, upsert_known also, upsert_known moved, keys, List.set_comm _ _ apart]
  · have still : ¬ Known key (out.set ((out.map key).idxOf (key c)) c) m := by
      rw [← upsert_known known, Known, map_key_known known]
      exact also
    rw [map_key_fresh also, upsert_fresh also, upsert_fresh still, List.idxOf_append_of_mem known.2,
      List.set_append_left _ _ (by simpa using bound)]

theorem upserts_known (known : Known key out c) (other : key c ∉ rest.map key) :
    upsert key (upserts key out rest) c = upserts key (upsert key out c) rest := by
  induction rest generalizing out with
  | nil => rfl
  | cons m rest ih =>
    rw [List.map_cons, List.mem_cons, not_or] at other
    rw [upserts_cons, upserts_cons, ← upsert_comm known (Ne.symm other.1)]
    exact ih (known.upsert m) other.2

theorem upserts_overwritten (known : Known key out c) (again : key c ∈ rest.map key) :
    upserts key (upsert key out c) rest = upserts key out rest := by
  induction rest generalizing out with
  | nil => simp at again
  | cons m rest ih =>
    rw [upserts_cons, upserts_cons]
    by_cases same : key c = key m
    · rw [upsert_upsert same (same ▸ known.1)]
    · rw [List.map_cons, List.mem_cons] at again
      rw [← upsert_comm known (Ne.symm same)]
      exact ih (known.upsert m) (again.resolve_left same)

section Lookup

def standing (key : α → Option κ) (out : List α) (k : κ) : Option α := out.find? fun x => key x = some k

def latest (key : α → Option κ) (ms : List α) (k : κ) : Option α := ms.reverse.find? fun x => key x = some k

theorem latest_cons (m : α) (ms : List α) (k : κ) :
    latest key (m :: ms) k = (latest key ms k).or (if key m = some k then some m else none) := by
  rw [latest, List.reverse_cons, List.find?_append, latest]
  by_cases here : key m = some k <;> simp [here]

theorem latest_eq_none : latest key rest k = none ↔ some k ∉ rest.map key := by
  simp [latest, List.find?_eq_none]

theorem key_of_latest (found : latest key rest k = some m) : key m = some k := by
  simpa using List.find?_some found

theorem standing_split (found : standing key out k = some m) :
    ∃ front rest, out = front ++ m :: rest ∧ key m = some k ∧ some k ∉ front.map key := by
  obtain ⟨same, front, rest, split, before⟩ := List.find?_eq_some_iff_append.mp found
  refine ⟨front, rest, split, by simpa using same, ?_⟩
  intro member
  obtain ⟨x, inside, equal⟩ := List.mem_map.mp member
  simpa [equal] using before x inside

theorem exists_standing (member : some k ∈ out.map key) : ∃ m, standing key out k = some m := by
  obtain ⟨x, inside, same⟩ := List.mem_map.mp member
  rw [← Option.isSome_iff_exists, standing, List.find?_isSome]
  exact ⟨x, inside, by simpa using same⟩

theorem upsert_split (keyed : key c = some k) (same : key b = some k) (first : some k ∉ front.map key) :
    upsert key (front ++ b :: rest) c = front ++ c :: rest := by
  have known : Known key (front ++ b :: rest) c := by simp [Known, keyed, same]
  rw [upsert_known known, List.map_append, keyed, List.idxOf_append_of_notMem first, List.map_cons, same,
    List.idxOf_cons_self]
  simp

theorem standing_upsert (out : List α) (m : α) (k : κ) :
    standing key (upsert key out m) k = if key m = some k then some m else standing key out k := by
  by_cases known : Known key out m
  · cases keyed : key m with
    | none => exact absurd keyed known.1
    | some j =>
      obtain ⟨b, stands⟩ := exists_standing (keyed ▸ known.2 : some j ∈ out.map key)
      obtain ⟨front, rest, rfl, same, first⟩ := standing_split stands
      rw [upsert_split keyed same first, standing, standing, List.find?_append, List.find?_append,
        List.find?_cons, List.find?_cons, keyed, same]
      by_cases here : j = k
      · subst here
        have none : front.find? (fun x => key x = some j) = .none := by
          simpa [List.find?_eq_none] using first
        simp [none]
      · simp [here]
  · rw [upsert_fresh known, standing, List.find?_append, standing]
    by_cases here : key m = some k
    · have none : out.find? (fun x => key x = some k) = .none := by
        have missing : some k ∉ out.map key := fun member => known ⟨by simp [here], here ▸ member⟩
        simpa [List.find?_eq_none] using missing
      simp [none, here]
    · simp [here]

theorem standing_upserts (out ms : List α) (k : κ) :
    standing key (upserts key out ms) k = (latest key ms k).or (standing key out k) := by
  induction ms generalizing out with
  | nil => simp [latest]
  | cons m ms ih =>
    rw [upserts_cons, ih, latest_cons, standing_upsert]
    cases latest key ms k <;> by_cases here : key m = some k <;> simp [here]

theorem upsert_standing (stands : standing key out k = some m) : upsert key out m = out := by
  obtain ⟨front, rest, rfl, keyed, first⟩ := standing_split stands
  exact upsert_split keyed keyed first

end Lookup

section Associativity

def Repeated (key : α → Option κ) (out : List α) (m : α) : Prop :=
  key m ≠ none ∧ 1 < (out.map key).count (key m)

instance (key : α → Option κ) (out : List α) (m : α) : Decidable (Repeated key out m) :=
  inferInstanceAs (Decidable (_ ∧ _))

theorem Repeated.known (again : Repeated key out m) : Known key out m :=
  ⟨again.1, List.count_pos_iff.mp (Nat.lt_of_succ_lt again.2)⟩

theorem repeated_congr (same : key m = key c) : Repeated key out m ↔ Repeated key out c := by
  rw [Repeated, same, Repeated]

theorem repeated_upsert (out : List α) (m c : α) : Repeated key (upsert key out m) c ↔ Repeated key out c := by
  by_cases known : Known key out m
  · rw [Repeated, map_key_known known, Repeated]
  · rw [Repeated, map_key_fresh known, Repeated, List.count_append]
    by_cases same : key m = key c
    · have none : key c ≠ .none → (out.map key).count (key c) = 0 := by
        intro keyed
        rw [List.count_eq_zero]
        exact fun member => known ⟨same ▸ keyed, same ▸ member⟩
      constructor
      · rintro ⟨keyed, many⟩
        rw [none keyed, same, List.count_singleton_self] at many
        omega
      · rintro ⟨keyed, many⟩
        rw [none keyed] at many
        omega
    · simp [same]

theorem repeated_upserts (out ms : List α) (c : α) :
    Repeated key (upserts key out ms) c ↔ Repeated key out c := by
  induction ms generalizing out with
  | nil => rfl
  | cons m ms ih => rw [upserts_cons, ih, repeated_upsert]

theorem upserts_upsert (a out : List α) (c : α) :
    upserts key a (upsert key out c) =
      if Repeated key out c then upserts key a out else upsert key (upserts key a out) c := by
  by_cases known : Known key out c
  · cases keyed : key c with
    | none => exact absurd keyed known.1
    | some k =>
      obtain ⟨b, stands⟩ := exists_standing (keyed ▸ known.2 : some k ∈ out.map key)
      obtain ⟨front, rest, rfl, same, first⟩ := standing_split stands
      have equal : key b = key c := same.trans keyed.symm
      have there : Known key (upsert key (upserts key a front) b) c :=
        ⟨known.1, mem_map_key_upsert.mpr (.inr equal.symm)⟩
      rw [upsert_split keyed same first, upserts_append, upserts_append, upserts_cons, upserts_cons,
        ← upsert_upsert equal known.1]
      have counted : ((front ++ b :: rest).map key).count (key c) = (rest.map key).count (key c) + 1 := by
        rw [keyed, List.map_append, List.count_append, List.count_eq_zero.mpr first, List.map_cons, same,
          List.count_cons_self, Nat.zero_add]
      split
      · next again =>
        apply upserts_overwritten there
        rw [← List.count_pos_iff]
        have many := again.2
        omega
      · next once =>
        symm
        apply upserts_known there
        rw [← List.count_eq_zero]
        have few : ¬ 1 < _ := fun many => once ⟨known.1, many⟩
        omega
  · rw [upsert_fresh known, upserts_append, if_neg fun again => known again.known]
    rfl

theorem upserts_upserts (a b c : List α) :
    upserts key a (upserts key b c) = upserts key (upserts key a b) (c.filter (¬ Repeated key b ·)) := by
  induction c using List.reverseRecOn with
  | nil => rfl
  | append_singleton c m ih =>
    rw [upserts_append, upserts_cons, upserts_nil, upserts_upsert, ih, List.filter_append, upserts_append]
    simp only [repeated_upserts]
    by_cases again : Repeated key b m <;> simp [again]

theorem upserts_filter {p : α → Bool} (ms : List α) (byKey : ∀ x m, key x = key m → p x = p m)
    (keyed : ∀ m, p m = false → key m ≠ none)
    (idle : ∀ k m, latest key ms k = some m → p m = false → standing key out k = some m) :
    upserts key out (ms.filter p) = upserts key out ms := by
  induction ms generalizing out with
  | nil => rfl
  | cons m ms ih =>
    have later (k : κ) (w : α) (found : latest key ms k = some w) : latest key (m :: ms) k = some w := by
      rw [latest_cons, found, Option.some_or]
    cases kept : p m with
    | true =>
      rw [List.filter_cons_of_pos kept, upserts_cons, upserts_cons]
      apply ih
      intro k w found dropped
      rw [standing_upsert, if_neg, idle k w (later k w found) dropped]
      intro same
      rw [byKey m w (same.trans (key_of_latest found).symm), dropped] at kept
      cases kept
    | false =>
      have silent : upserts key (upsert key out m) ms = upserts key out ms := by
        cases key_m : key m with
        | none => exact absurd key_m (keyed m kept)
        | some k =>
          cases found : latest key ms k with
          | none =>
            have last : latest key (m :: ms) k = some m := by rw [latest_cons, found, Option.none_or, if_pos key_m]
            rw [upsert_standing (idle k m last kept)]
          | some w =>
            have key_w := key_of_latest found
            have stands := idle k w (later k w found) (byKey w m (key_w.trans key_m.symm) ▸ kept)
            have again : some k ∈ ms.map key := by
              by_contra missing
              rw [latest_eq_none.mpr missing] at found
              cases found
            have known : Known key out m := by
              obtain ⟨front, rest, rfl, -, -⟩ := standing_split stands
              exact ⟨keyed m kept, by simp [key_m, key_w]⟩
            exact upserts_overwritten known (key_m ▸ again)
      rw [List.filter_cons_of_neg (by simp [kept]), upserts_cons, silent]
      exact ih fun k w found dropped => idle k w (later k w found) dropped

theorem standing_of_repeated (again : Repeated key out m) (keyed : key m = some k) (onto : List α) :
    standing key (upserts key onto out) k = latest key out k := by
  rw [standing_upserts]
  cases found : latest key out k with
  | none => exact absurd (keyed ▸ again.known.2) (latest_eq_none.mp found)
  | some w => rfl

theorem upserts_assoc_iff (a b c : List α) :
    upserts key (upserts key a b) c = upserts key a (upserts key b c) ↔
      ∀ k m, latest key c k = some m → Repeated key b m → latest key b k = some m := by
  rw [upserts_upserts]
  constructor
  · intro same k m found again
    have keyed := key_of_latest found
    have stands := congrArg (standing key · k) same
    have dropped : latest key (c.filter (¬ Repeated key b ·)) k = none := by
      rw [latest_eq_none]
      intro member
      obtain ⟨w, kept, key_w⟩ := List.mem_map.mp member
      have fresh := (List.mem_filter.mp kept).2
      exact of_decide_eq_true fresh ((repeated_congr (key_w.trans keyed.symm)).mpr again)
    simp only [standing_upserts _ c, standing_upserts _ (c.filter _), found, dropped] at stands
    rw [Option.some_or, Option.none_or, standing_of_repeated again keyed] at stands
    exact stands.symm
  · intro agree
    symm
    apply upserts_filter c
    · intro x m same
      exact decide_eq_decide.mpr (not_congr (repeated_congr same))
    · intro m dropped keyless
      simp [Repeated, keyless] at dropped
    · intro k m found dropped
      have again : Repeated key b m := by simpa using dropped
      rw [standing_of_repeated again (key_of_latest found), agree k m found again]

end Associativity

section Heads

def Distinct (key : α → Option κ) (out : List α) : Prop := (out.filterMap key).Nodup

instance (key : α → Option κ) (out : List α) (m : α) : Decidable (Known key out m) :=
  inferInstanceAs (Decidable (_ ∧ _))

-- The elements without a key, and the first one with each key.
def heads (key : α → Option κ) : List α → List α → List α
  | _, [] => []
  | before, m :: rest =>
    if Known key before m then heads key (before ++ [m]) rest
    else m :: heads key (before ++ [m]) rest

def current (key : α → Option κ) (ms : List α) (m : α) : α := ((key m).bind (latest key ms)).getD m

theorem heads_concat (before ms : List α) (m : α) :
    heads key before (ms ++ [m]) =
      if Known key (before ++ ms) m then heads key before ms else heads key before ms ++ [m] := by
  induction ms generalizing before with
  | nil => by_cases known : Known key before m <;> simp [heads, known]
  | cons x ms ih =>
    rw [List.cons_append, heads, ih, heads]
    by_cases known : Known key before x <;> by_cases again : Known key (before ++ x :: ms) m <;>
      simp [known, again]

theorem heads_keyless (before ms : List α) :
    (heads key before ms).filter (key · = none) = ms.filter (key · = none) := by
  induction ms generalizing before with
  | nil => rfl
  | cons m ms ih =>
    rw [heads, List.filter_cons]
    split
    · next known => simp [ih, known.1]
    · simp [List.filter_cons, ih]

omit [DecidableEq κ] in
theorem filterMap_key (out : List α) : out.filterMap key = (out.map key).filterMap id := by
  rw [List.filterMap_map]
  rfl

omit [DecidableEq κ] in
theorem mem_filterMap_key : k ∈ out.filterMap key ↔ some k ∈ out.map key := by simp

theorem Distinct.upsert (distinct : Distinct key out) (m : α) : Distinct key (upsert key out m) := by
  by_cases known : Known key out m
  · rwa [Distinct, filterMap_key, map_key_known known, ← filterMap_key]
  · rw [Distinct, upsert_fresh known, List.filterMap_append, List.nodup_append]
    cases keyed : key m with
    | none => exact ⟨distinct, by simp [keyed], by simp [keyed]⟩
    | some k =>
      have missing : k ∉ out.filterMap key := by
        rw [mem_filterMap_key]
        exact fun member => known ⟨by simp [keyed], keyed ▸ member⟩
      refine ⟨distinct, by simp [keyed], ?_⟩
      intro a inside b last same
      have is : b = k := by simpa [keyed, eq_comm] using last
      exact missing (is ▸ same ▸ inside)

theorem Distinct.upserts (distinct : Distinct key out) (ms : List α) : Distinct key (upserts key out ms) := by
  induction ms generalizing out with
  | nil => exact distinct
  | cons m ms ih => exact ih (distinct.upsert m)

theorem upsert_eq_map (distinct : Distinct key out) (known : Known key out m) :
    upsert key out m = out.map fun x => if key x = key m then m else x := by
  cases keyed : key m with
  | none => exact absurd keyed known.1
  | some k =>
    obtain ⟨b, stands⟩ := exists_standing (keyed ▸ known.2 : some k ∈ out.map key)
    obtain ⟨front, rest, rfl, same, first⟩ := standing_split stands
    have last : some k ∉ rest.map key := by
      rw [Distinct, List.filterMap_append, List.nodup_append] at distinct
      have rest_distinct := distinct.2.1
      rw [List.filterMap_cons_some same] at rest_distinct
      rw [← mem_filterMap_key]
      exact (List.nodup_cons.mp rest_distinct).1
    have others (xs : List α) (missing : some k ∉ xs.map key) :
        xs.map (fun x => if key x = some k then m else x) = xs := by
      conv_rhs => rw [← List.map_id xs]
      apply List.map_congr_left
      intro x inside
      exact if_neg fun same => missing (List.mem_map.mpr ⟨x, inside, same⟩)
    rw [upsert_split keyed same first, List.map_append, List.map_cons, others front first, others rest last,
      if_pos same]

@[simp] theorem upserts_concat (out ms : List α) (m : α) :
    upserts key out (ms ++ [m]) = upsert key (upserts key out ms) m := upserts_append out ms [m]

theorem key_current (ms : List α) (m : α) : key (current key ms m) = key m := by
  unfold current
  cases keyed : key m with
  | none => simpa using keyed
  | some k =>
    cases found : latest key ms k with
    | none => simpa [found] using keyed
    | some w => simpa [found] using key_of_latest found

theorem known_upserts (ms : List α) (m : α) : Known key (upserts key [] ms) m ↔ Known key ms m := by
  have member (k : Option κ) : k ∈ (upserts key [] ms).map key ↔ k ∈ ms.map key := by
    induction ms using List.reverseRecOn with
    | nil => rfl
    | append_singleton ms x ih => rw [upserts_concat, mem_map_key_upsert, ih]; simp
  exact and_congr_right fun _ => member (key m)

theorem latest_concat (ms : List α) (m : α) (k : κ) :
    latest key (ms ++ [m]) k = if key m = some k then some m else latest key ms k := by
  rw [latest, List.reverse_concat, List.find?_cons]
  by_cases here : key m = some k <;> simp [here, latest]

theorem current_concat (ms : List α) (m x : α) :
    current key (ms ++ [m]) x = if key x ≠ none ∧ key x = key m then m else current key ms x := by
  unfold current
  cases keyed : key x with
  | none => simp
  | some k => by_cases here : key m = some k <;> simp [latest_concat, here, eq_comm]

theorem heads_sublist (before ms : List α) : (heads key before ms).Sublist ms := by
  induction ms generalizing before with
  | nil => exact .refl []
  | cons m ms ih =>
    rw [heads]
    split
    · exact (ih _).cons m
    · exact (ih _).cons_cons m

omit [DecidableEq κ] in
theorem distinct_nil : Distinct key ([] : List α) := List.nodup_nil

theorem upserts_eq_heads (ms : List α) : upserts key [] ms = (heads key [] ms).map (current key ms) := by
  induction ms using List.reverseRecOn with
  | nil => rfl
  | append_singleton ms m ih =>
    rw [upserts_concat, heads_concat, List.nil_append]
    by_cases known : Known key ms m
    · have there := (known_upserts ms m).mpr known
      rw [if_pos known, upsert_eq_map (distinct_nil.upserts ms) there, ih, List.map_map]
      apply List.map_congr_left
      intro x _
      by_cases same : key x = key m <;> simp [key_current, current_concat, same, known.1]
    · have others : (heads key [] ms).map (current key (ms ++ [m])) = upserts key [] ms := by
        rw [ih]
        apply List.map_congr_left
        intro x member
        rw [current_concat, if_neg]
        rintro ⟨keyed, same⟩
        exact known ⟨same ▸ keyed, same ▸ List.mem_map_of_mem ((heads_sublist [] ms).mem member)⟩
      have last : current key (ms ++ [m]) m = m := by
        cases keyed : key m <;> simp [current, latest_concat, keyed]
      rw [if_neg known, upsert_fresh (mt (known_upserts ms m).mp known), List.map_append, others,
        List.map_singleton, last]

theorem upserts_of_distinct (distinct : Distinct key out) : upserts key [] out = out := by
  induction out using List.reverseRecOn with
  | nil => rfl
  | append_singleton out m ih =>
    rw [Distinct, List.filterMap_append, List.nodup_append] at distinct
    have fresh : ¬ Known key out m := by
      rintro ⟨keyed, member⟩
      cases same : key m with
      | none => exact keyed same
      | some k =>
        rw [same, ← mem_filterMap_key] at member
        exact distinct.2.2 k member k (by simp [same]) rfl
    rw [upserts_concat, ih distinct.1, upsert_fresh fresh]

theorem filter_keyless_upserts (ms : List α) :
    (upserts key [] ms).filter (key · = none) = ms.filter (key · = none) := by
  have same (x : α) : decide (key (current key ms x) = none) = decide (key x = none) := by
    have keyed : key (current key ms x) = key x := key_current ms x
    rw [keyed]
  rw [upserts_eq_heads, List.filter_map]
  simp only [Function.comp_def, same]
  rw [heads_keyless]
  apply (List.map_congr_left ?_).trans (List.map_id _)
  intro x member
  simp only [List.mem_filter, decide_eq_true_eq] at member
  simp [current, member.2]

end Heads

end Shared
