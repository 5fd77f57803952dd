import AtomrAgents.Shared.Ranking
import Mathlib.Data.List.TakeDrop

set_option autoImplicit false

/-! The best `k` of each part, ranked again and cut off again, are the best `k` of all. Items with a score
above a bound stand at the front of a ranking, so cutting it off counts them up to `k`. -/

namespace Shared

variable {ι β : Type} [LinearOrder β] {score : ι → β} {items front back : List ι} {k : Nat} {x : ι}

theorem pairwise_le_ranking (score : ι → β) (items : List ι) :
    (ranking score items).Pairwise fun a b => score b ≤ score a := by
  have sorted := List.pairwise_mergeSort (descending_trans score) (descending_total score) items
  exact sorted.imp fun le => of_decide_eq_true le

theorem filter_append_filter (bound : β) (sorted : items.Pairwise fun a b => score b ≤ score a) :
    items = (items.filter fun a => bound < score a) ++ items.filter fun a => score a ≤ bound := by
  induction items with
  | nil => rfl
  | cons a rest ih =>
    obtain ⟨first, sorted⟩ := List.pairwise_cons.mp sorted
    rcases lt_or_ge bound (score a) with above | below
    · have other : ¬ score a ≤ bound := not_le.mpr above
      rw [List.filter_cons_of_pos (by simpa using above), List.filter_cons_of_neg (by simpa using other),
        List.cons_append, ← ih sorted]
    · have none : rest.filter (fun a => bound < score a) = [] := by
        rw [List.filter_eq_nil_iff]
        intro b member
        simpa using (first b member).trans below
      have all : rest.filter (fun a => score a ≤ bound) = rest := by
        rw [List.filter_eq_self]
        intro b member
        simpa using (first b member).trans below
      have other : ¬ bound < score a := not_lt.mpr below
      rw [List.filter_cons_of_neg (by simpa using other), List.filter_cons_of_pos (by simpa using below),
        none, all, List.nil_append]

theorem countP_take_ranking (score : ι → β) (bound : β) (items : List ι) (k : Nat) :
    ((ranking score items).take k).countP (fun a => bound < score a) =
      min k (items.countP fun a => bound < score a) := by
  have split := filter_append_filter bound (pairwise_le_ranking score items)
  have count : ((ranking score items).filter fun a => bound < score a).length =
      items.countP fun a => bound < score a := by
    rw [← List.countP_eq_length_filter, (ranking_perm score items).countP_eq]
  have all : ∀ n, (((ranking score items).filter fun a => bound < score a).take n).countP
      (fun a => bound < score a) = min n (items.countP fun a => bound < score a) := by
    intro n
    rw [List.countP_eq_length.mpr, List.length_take, count]
    intro a member
    exact (List.mem_filter.mp (List.mem_of_mem_take member)).2
  have none : ∀ n, (((ranking score items).filter fun a => score a ≤ bound).take n).countP
      (fun a => bound < score a) = 0 := by
    intro n
    rw [List.countP_eq_zero]
    intro a member
    simpa using (List.mem_filter.mp (List.mem_of_mem_take member)).2
  rw [split, List.take_append, List.countP_append, all, none, Nat.add_zero]

theorem exists_best (score : ι → β) (present : items ≠ []) :
    ∃ best ∈ items, ∀ y ∈ items, score y ≤ score best := by
  have perm := ranking_perm score items
  have order := pairwise_le_ranking score items
  cases sorted : ranking score items with
  | nil =>
    rw [sorted] at perm
    exact absurd perm.nil_eq.symm present
  | cons best rest =>
    rw [sorted] at perm order
    refine ⟨best, perm.mem_iff.mp List.mem_cons_self, fun y member => ?_⟩
    rcases List.mem_cons.mp (perm.mem_iff.mpr member) with rfl | later
    · exact le_rfl
    · exact (List.pairwise_cons.mp order).1 y later

theorem score_head_eq {first best : ι} {rest : List ι} (member : best ∈ first :: rest)
    (sorted : (first :: rest).Pairwise fun a b => score b ≤ score a)
    (bound : ∀ x ∈ first :: rest, score x ≤ score best) : score first = score best := by
  rcases List.mem_cons.mp member with rfl | later
  · rfl
  · exact le_antisymm (bound first List.mem_cons_self) ((List.pairwise_cons.mp sorted).1 best later)

theorem exists_first_of_front (score : ι → β) {best : ι} (member : best ∈ front) (back : List ι) :
    ∃ first rest, ((ranking score (front ++ back)).filter fun x => score x ≤ score best) = first :: rest ∧
      first ∈ front := by
  have ranked := pairwise_le_ranking score (front ++ back)
  have ties := filter_score_ranking score (score best) (front ++ back)
  rw [filter_append_filter (score best) ranked, List.filter_append, List.filter_append] at ties
  have higher : ((ranking score (front ++ back)).filter fun x => score best < score x).filter
      (fun x => score x = score best) = [] := by
    rw [List.filter_eq_nil_iff]
    intro x above
    simpa using ne_of_gt (of_decide_eq_true (List.mem_filter.mp above).2)
  rw [higher, List.nil_append] at ties
  have inside : best ∈ (ranking score (front ++ back)).filter fun x => score x ≤ score best := by
    rw [List.mem_filter, (ranking_perm score (front ++ back)).mem_iff]
    exact ⟨List.mem_append_left back member, by simp⟩
  obtain ⟨first, rest, others⟩ := List.exists_cons_of_ne_nil (List.ne_nil_of_mem inside)
  have sorted := ranked.filter fun x => score x ≤ score best
  have bound : ∀ x ∈ first :: rest, score x ≤ score best := by
    intro x there
    rw [← others] at there
    exact of_decide_eq_true (List.mem_filter.mp there).2
  rw [others] at inside sorted ties
  have tie : score first = score best := score_head_eq inside sorted bound
  have tied : best ∈ front.filter fun x => score x = score best := by
    rw [List.mem_filter]
    exact ⟨member, by simp⟩
  obtain ⟨head, tail, heads⟩ := List.exists_cons_of_ne_nil (List.ne_nil_of_mem tied)
  rw [List.filter_cons_of_pos (by simpa using tie), heads, List.cons_append, List.cons.injEq] at ties
  have there : head ∈ front.filter fun x => score x = score best := by
    rw [heads]
    exact List.mem_cons_self
  refine ⟨first, rest, others, ?_⟩
  rw [ties.1]
  exact (List.mem_filter.mp there).1

theorem ranking_append_split (score : ι → β) (present : front ≠ []) (back : List ι) :
    ∃ better first rest, ranking score (front ++ back) = better ++ first :: rest ∧ first ∈ front ∧
      (∀ x ∈ better, x ∈ back) ∧
      better.length = back.countP fun x => ∀ y ∈ front, score y < score x := by
  obtain ⟨best, member, most⟩ := exists_best score present
  have none : front.filter (fun x => score best < score x) = [] := by
    rw [List.filter_eq_nil_iff]
    intro y there
    simpa using most y there
  have better := (ranking_perm score (front ++ back)).filter fun x => decide (score best < score x)
  rw [List.filter_append, none, List.nil_append] at better
  have counted : (back.filter fun x => score best < score x).length =
      back.countP fun x => ∀ y ∈ front, score y < score x := by
    rw [← List.countP_eq_length_filter]
    apply List.countP_congr
    intro x _
    simp only [decide_eq_true_iff]
    exact ⟨fun above y there => (most y there).trans_lt above, fun above => above best member⟩
  obtain ⟨first, rest, others, in_front⟩ := exists_first_of_front score member back
  refine ⟨(ranking score (front ++ back)).filter fun x => score best < score x, first, rest, ?_, in_front,
    ?_, ?_⟩
  · rw [← others]
    exact filter_append_filter (score best) (pairwise_le_ranking score (front ++ back))
  · intro x above
    exact List.mem_of_mem_filter (better.mem_iff.mp above)
  · rw [better.length_eq, counted]

theorem take_ranking_append_iff (score : ι → β) (front back : List ι) (k : Nat)
    (apart : ∀ x ∈ front, x ∉ back) :
    (∀ x ∈ (ranking score (front ++ back)).take k, x ∈ back) ↔
      front = [] ∨ k ≤ back.countP fun x => ∀ y ∈ front, score y < score x := by
  by_cases present : front = []
  · subst present
    refine iff_of_true (fun x taken => ?_) (.inl rfl)
    exact (ranking_perm score back).mem_iff.mp (List.mem_of_mem_take taken)
  · obtain ⟨better, first, rest, split, member, behind, counted⟩ :=
      ranking_append_split score present back
    rw [split, ← counted, or_iff_right present]
    constructor
    · intro all
      by_contra beyond
      have taken : first ∈ (better ++ first :: rest).take k := by
        have more : k - better.length ≠ 0 := by omega
        obtain ⟨n, same⟩ := Nat.exists_eq_succ_of_ne_zero more
        simp [List.take_append, same]
      exact apart first member (all first taken)
    · intro le x taken
      rw [List.take_append_of_le_length le] at taken
      exact behind x (List.mem_of_mem_take taken)

theorem take_ranking_lt_iff (score : ι → β) (items : List ι) (positive : k ≠ 0) (bound : β) :
    (∀ x ∈ (ranking score items).take k, score x < bound) ↔ ∀ x ∈ items, score x < bound := by
  have perm := ranking_perm score items
  have sorted := pairwise_le_ranking score items
  constructor
  · intro best x member
    have here := perm.mem_iff.mpr member
    obtain ⟨n, rfl⟩ := Nat.exists_eq_succ_of_ne_zero positive
    cases split : ranking score items with
    | nil =>
      rw [split] at here
      cases here
    | cons first rest =>
      rw [split] at here sorted best
      have top := best first List.mem_cons_self
      rcases List.mem_cons.mp here with rfl | later
      · exact top
      · exact ((List.pairwise_cons.mp sorted).1 x later).trans_lt top
  · intro all x taken
    exact all x (perm.mem_iff.mp (List.mem_of_mem_take taken))

section Distinct

variable (distinct : (items.map score).Nodup)

include distinct

theorem pairwise_lt_ranking : (ranking score items).Pairwise fun a b => score b < score a := by
  have apart : ((ranking score items).map score).Nodup :=
    ((ranking_perm score items).map score).nodup_iff.mpr distinct
  have both := (pairwise_le_ranking score items).and (List.pairwise_map.mp apart)
  exact both.imp fun le => lt_of_le_of_ne le.1 (Ne.symm le.2)

theorem mem_take_ranking_of_distinct :
    x ∈ (ranking score items).take k ↔ x ∈ items ∧ items.countP (fun a => score x < score a) < k := by
  have counted := countP_take_ranking score (score x) items k
  have perm := ranking_perm score items
  constructor
  · intro taken
    refine ⟨perm.mem_iff.mp (List.mem_of_mem_take taken), ?_⟩
    have not_all : ((ranking score items).take k).countP (fun a => score x < score a) ≠
        ((ranking score items).take k).length := by
      intro all
      have above := List.countP_eq_length.mp all x taken
      simp at above
    have le := List.countP_le_length (p := fun a => decide (score x < score a))
      (l := (ranking score items).take k)
    have short := List.length_take_le k (ranking score items)
    omega
  · rintro ⟨member, few⟩
    have here := perm.mem_iff.mpr member
    have sorted := pairwise_lt_ranking distinct
    rw [← List.take_append_drop k (ranking score items)] at here sorted
    rcases List.mem_append.mp here with taken | dropped
    · exact taken
    · have all : ((ranking score items).take k).countP (fun a => score x < score a) =
          ((ranking score items).take k).length := by
        rw [List.countP_eq_length]
        intro a taken
        simpa using (List.pairwise_append.mp sorted).2.2 a taken x dropped
      have positive := List.length_pos_of_mem dropped
      rw [List.length_drop] at positive
      rw [List.length_take] at all
      omega

end Distinct

section Parts

variable {parts : List (List ι)}

def bestOfEach (score : ι → β) (k : Nat) (parts : List (List ι)) : List ι :=
  parts.flatMap fun part => (ranking score part).take k

theorem bestOfEach_subperm (score : ι → β) (k : Nat) (parts : List (List ι)) :
    (bestOfEach score k parts).Subperm parts.flatten := by
  induction parts with
  | nil => exact List.Subperm.refl _
  | cons part rest ih =>
    have best : ((ranking score part).take k).Subperm part :=
      (List.take_sublist k _).subperm.trans (ranking_perm score part).subperm
    exact best.append ih

theorem countP_bestOfEach_le (score : ι → β) (bound : β) (k : Nat) (parts : List (List ι)) :
    (bestOfEach score k parts).countP (fun a => bound < score a) ≤
      parts.flatten.countP fun a => bound < score a :=
  (bestOfEach_subperm score k parts).countP_le _

theorem countP_bestOfEach (score : ι → β) (bound : β) (parts : List (List ι))
    (few : (bestOfEach score k parts).countP (fun a => bound < score a) < k) :
    parts.flatten.countP (fun a => bound < score a) < k := by
  suffices same : parts.flatten.countP (fun a => bound < score a) =
      (bestOfEach score k parts).countP fun a => bound < score a by omega
  induction parts with
  | nil => rfl
  | cons part rest ih =>
    rw [bestOfEach, List.flatMap_cons, List.countP_append, countP_take_ranking] at few ⊢
    rw [bestOfEach] at ih
    rw [List.flatten_cons, List.countP_append, ih (by omega)]
    omega

theorem le_countP_bestOfEach_iff (score : ι → β) (bound : β) (k : Nat) (parts : List (List ι)) :
    k ≤ (bestOfEach score k parts).countP (fun a => bound < score a) ↔
      k ≤ parts.flatten.countP fun a => bound < score a := by
  constructor
  · intro enough
    exact enough.trans (countP_bestOfEach_le score bound k parts)
  · intro enough
    by_contra few
    exact absurd enough (not_le.mpr (countP_bestOfEach score bound parts (not_le.mp few)))

theorem take_ranking_parts (distinct : (parts.flatten.map score).Nodup) :
    (ranking score (bestOfEach score k parts)).take k = (ranking score parts.flatten).take k := by
  have subperm := bestOfEach_subperm score k parts
  have distinct' : ((bestOfEach score k parts).map score).Nodup := by
    obtain ⟨same, perm, sublist⟩ := subperm
    exact (perm.map score).nodup_iff.mp (distinct.sublist (sublist.map score))
  have sorted := (pairwise_lt_ranking distinct).take (i := k)
  have sorted' := (pairwise_lt_ranking distinct').take (i := k)
  have perm : ((ranking score (bestOfEach score k parts)).take k).Perm
      ((ranking score parts.flatten).take k) := by
    rw [List.perm_ext_iff_of_nodup (sorted'.imp fun lt same => ne_of_gt lt (congrArg score same))
      (sorted.imp fun lt same => ne_of_gt lt (congrArg score same))]
    intro x
    rw [mem_take_ranking_of_distinct distinct', mem_take_ranking_of_distinct distinct]
    constructor
    · rintro ⟨member, few⟩
      exact ⟨subperm.subset member, countP_bestOfEach score (score x) parts few⟩
    · rintro ⟨member, few⟩
      refine ⟨?_, (countP_bestOfEach_le score (score x) k parts).trans_lt few⟩
      obtain ⟨part, there, here⟩ := List.mem_flatten.mp member
      have sublist := List.sublist_flatten_of_mem there
      have own := (mem_take_ranking_of_distinct (k := k) (x := x)
        (distinct.sublist (sublist.map score))).mpr ⟨here, sublist.countP_le.trans_lt few⟩
      exact List.mem_flatMap.mpr ⟨part, there, own⟩
  apply perm.eq_of_pairwise _ sorted' sorted
  intro a b _ _ lt gt
  exact absurd lt (lt_asymm gt)

end Parts

end Shared
