import Mathlib.Data.List.Nodup
import Mathlib.Data.List.Perm.Subperm
import Mathlib.Order.Lattice

set_option autoImplicit false

/-! Items are ranked by their score, the best first and ties in the order of their positions; the best `k` are
kept. Cutting a ranking off before some items are filtered out is compared with ranking only the items that
pass the filter, by other scores. -/

namespace Shared

variable {ι β : Type} [LinearOrder β]

-- A stable sort, in descending order of the scores.
def ranking (score : ι → β) (items : List ι) : List ι :=
  items.mergeSort fun a b => score b ≤ score a

def Precedes (score : ι → β) (pos : ι → Nat) (x y : ι) : Prop :=
  score y < score x ∨ score x = score y ∧ pos x < pos y

instance (score : ι → β) (pos : ι → Nat) (x y : ι) : Decidable (Precedes score pos x y) :=
  inferInstanceAs (Decidable (_ ∨ _))

def ahead (score : ι → β) (pos : ι → Nat) (items : List ι) (x : ι) : Nat :=
  items.countP fun y => Precedes score pos y x

variable {score : ι → β} {pos : ι → Nat} {items : List ι} {x y z : ι}

namespace Precedes

theorem irrefl (x : ι) : ¬ Precedes score pos x x := by
  simp [Precedes]

theorem trans (xy : Precedes score pos x y) (yz : Precedes score pos y z) :
    Precedes score pos x z := by
  rcases xy with better | ⟨tie, earlier⟩ <;> rcases yz with better' | ⟨tie', earlier'⟩
  · exact .inl (better'.trans better)
  · exact .inl (tie' ▸ better)
  · exact .inl (tie ▸ better')
  · exact .inr ⟨tie.trans tie', Nat.lt_trans earlier earlier'⟩

theorem asymm (xy : Precedes score pos x y) : ¬ Precedes score pos y x :=
  fun yx => irrefl x (xy.trans yx)

theorem antisymm (xy : Precedes score pos x y) (yx : Precedes score pos y x) : x = y :=
  absurd yx xy.asymm

theorem of_pos_lt (tie : score x = score y) (earlier : pos x < pos y) : Precedes score pos x y :=
  .inr ⟨tie, earlier⟩

theorem pos_lt (xy : Precedes score pos x y) (tie : score x = score y) : pos x < pos y := by
  rcases xy with better | ⟨-, earlier⟩
  · exact absurd tie (ne_of_gt better)
  · exact earlier

end Precedes

theorem ranking_perm (score : ι → β) (items : List ι) : (ranking score items).Perm items :=
  List.mergeSort_perm items _

theorem pos_inj (increasing : items.Pairwise fun a b => pos a < pos b) (here : x ∈ items)
    (there : y ∈ items) (same : pos x = pos y) : x = y := by
  have distinct : (items.map pos).Nodup := List.pairwise_map.mpr (increasing.imp Nat.ne_of_lt)
  exact List.inj_on_of_nodup_map distinct here there same

section Sorted

variable (score : ι → β)

theorem descending_trans (a b c : ι) (ab : decide (score b ≤ score a) = true)
    (bc : decide (score c ≤ score b) = true) : decide (score c ≤ score a) = true := by
  simp only [decide_eq_true_iff] at ab bc ⊢
  exact le_trans bc ab

theorem descending_total (a b : ι) :
    (decide (score b ≤ score a) || decide (score a ≤ score b)) = true := by
  simpa using le_total (score b) (score a)

theorem filter_score_ranking (c : β) (items : List ι) :
    (ranking score items).filter (fun a => score a = c) = items.filter fun a => score a = c := by
  have tied : (items.filter fun a => score a = c).Pairwise fun a b => decide (score b ≤ score a) := by
    apply List.Pairwise.imp_of_mem _ (List.pairwise_of_forall (l := _) fun _ _ => trivial)
    intro a b here there _
    simp only [List.mem_filter, decide_eq_true_iff] at here there
    simp [here.2, there.2]
  have kept := List.sublist_mergeSort (descending_trans score) (descending_total score) tied
    List.filter_sublist
  have inside := kept.filter fun a => decide (score a = c)
  rw [List.filter_filter] at inside
  simp only [Bool.and_self] at inside
  exact (inside.eq_of_length ((ranking_perm score items).filter _).length_eq.symm).symm

end Sorted

theorem Precedes.total (score : ι → β) (increasing : items.Pairwise fun a b => pos a < pos b)
    (here : x ∈ items) (there : y ∈ items) (other : x ≠ y) :
    Precedes score pos x y ∨ Precedes score pos y x := by
  rcases lt_trichotomy (score x) (score y) with worse | tie | better
  · exact .inr (.inl worse)
  · rcases Nat.lt_trichotomy (pos x) (pos y) with before | same | after
    · exact .inl (.inr ⟨tie, before⟩)
    · exact absurd (pos_inj increasing here there same) other
    · exact .inr (.inr ⟨tie.symm, after⟩)
  · exact .inl (.inl better)

theorem pairwise_ranking (score : ι → β) (increasing : items.Pairwise fun a b => pos a < pos b) :
    (ranking score items).Pairwise (Precedes score pos) := by
  have sorted := List.pairwise_mergeSort (descending_trans score) (descending_total score) items
  rw [List.pairwise_iff_forall_sublist] at sorted ⊢
  intro a b sublist
  have le : score b ≤ score a := by simpa using sorted sublist
  rcases lt_or_eq_of_le le with better | tie
  · exact .inl better
  · have pair := sublist.filter fun x => decide (score x = score a)
    rw [filter_score_ranking] at pair
    simp only [tie, decide_true, List.filter_cons_of_pos, List.filter_nil] at pair
    exact .inr ⟨tie.symm, List.pairwise_iff_forall_sublist.mp (increasing.filter _) pair⟩

theorem mem_take_ranking (increasing : items.Pairwise fun a b => pos a < pos b) {k : Nat}
    (member : x ∈ items) : x ∈ (ranking score items).take k ↔ ahead score pos items x < k := by
  have sorted := pairwise_ranking score increasing
  have same : ahead score pos items x = ahead score pos (ranking score items) x :=
    ((ranking_perm score items).countP_eq _).symm
  obtain ⟨front, back, split⟩ := List.append_of_mem ((ranking_perm score items).mem_iff.mpr member)
  rw [same, split]
  rw [split, List.pairwise_append, List.pairwise_cons] at sorted
  obtain ⟨-, ⟨later, -⟩, earlier⟩ := sorted
  have count : ahead score pos (front ++ x :: back) x = front.length := by
    have all : front.countP (fun y => Precedes score pos y x) = front.length :=
      List.countP_eq_length.mpr fun y there => by
        simpa using earlier y there x List.mem_cons_self
    have none : back.countP (fun y => Precedes score pos y x) = 0 :=
      List.countP_eq_zero.mpr fun y there => by simpa using (later y there).asymm
    rw [ahead, List.countP_append, List.countP_cons, all, none]
    simp [Precedes.irrefl]
  rw [count]
  constructor
  · intro taken
    by_contra beyond
    rw [List.take_append_of_le_length (by omega)] at taken
    exact Precedes.irrefl x (earlier x (List.mem_of_mem_take taken) x List.mem_cons_self)
  · intro lt
    rw [List.take_append, List.mem_append]
    right
    have positive : k - front.length ≠ 0 := by omega
    obtain ⟨n, rest⟩ := Nat.exists_eq_succ_of_ne_zero positive
    simp [rest]

theorem ahead_lt_of_precedes {k : Nat} (xy : Precedes score pos x y)
    (kept : ahead score pos items y < k) : ahead score pos items x < k := by
  refine Nat.lt_of_le_of_lt (List.countP_mono_left fun z _ zx => ?_) kept
  simp only [decide_eq_true_iff] at zx ⊢
  exact zx.trans xy

-- Ranking all items by `whole` does not keep those that pass from being the best `k` by `own`.
structure Unskewed (whole own : ι → β) (pos : ι → Nat) (items : List ι) (passes : ι → Bool)
    (k : Nat) : Prop where
  room : ∀ x ∈ items.filter passes, ahead own pos (items.filter passes) x < k →
    ahead whole pos items x < k
  order : ∀ x ∈ items.filter passes, ahead own pos (items.filter passes) x < k →
    ∀ y ∈ items.filter passes, Precedes own pos x y → Precedes whole pos x y

section Cut

variable {whole own : ι → β} {passes : ι → Bool} {k : Nat}

def cutThenFilter (whole : ι → β) (items : List ι) (passes : ι → Bool) (k : Nat) : List ι :=
  ((ranking whole items).take k).filter passes

def filterThenCut (own : ι → β) (items : List ι) (passes : ι → Bool) (k : Nat) : List ι :=
  (ranking own (items.filter passes)).take k

section Map

variable {κ : Type} (f : κ → ι)

theorem map_ranking (score : ι → β) (items : List κ) :
    (ranking (score ∘ f) items).map f = ranking score (items.map f) :=
  List.map_mergeSort fun _ _ _ _ => rfl

theorem map_cutThenFilter (whole : ι → β) (items : List κ) (passes : ι → Bool) (k : Nat) :
    (cutThenFilter (whole ∘ f) items (passes ∘ f) k).map f =
      cutThenFilter whole (items.map f) passes k := by
  rw [cutThenFilter, cutThenFilter, ← map_ranking, ← List.map_take, List.filter_map]

theorem map_filterThenCut (own : ι → β) (items : List κ) (passes : ι → Bool) (k : Nat) :
    (filterThenCut (own ∘ f) items (passes ∘ f) k).map f =
      filterThenCut own (items.map f) passes k := by
  rw [filterThenCut, filterThenCut, List.map_take, map_ranking, List.filter_map]

end Map

variable (increasing : items.Pairwise fun a b => pos a < pos b)

include increasing

theorem mem_cutThenFilter : x ∈ cutThenFilter whole items passes k ↔
    x ∈ items.filter passes ∧ ahead whole pos items x < k := by
  rw [cutThenFilter, List.mem_filter, List.mem_filter]
  constructor
  · rintro ⟨taken, passed⟩
    have member := (ranking_perm whole items).mem_iff.mp (List.mem_of_mem_take taken)
    exact ⟨⟨member, passed⟩, (mem_take_ranking increasing member).mp taken⟩
  · rintro ⟨⟨member, passed⟩, lt⟩
    exact ⟨(mem_take_ranking increasing member).mpr lt, passed⟩

theorem mem_filterThenCut : x ∈ filterThenCut own items passes k ↔
    x ∈ items.filter passes ∧ ahead own pos (items.filter passes) x < k := by
  rw [filterThenCut]
  constructor
  · intro taken
    have member := (ranking_perm own _).mem_iff.mp (List.mem_of_mem_take taken)
    exact ⟨member, (mem_take_ranking (increasing.filter passes) member).mp taken⟩
  · rintro ⟨member, lt⟩
    exact (mem_take_ranking (increasing.filter passes) member).mpr lt

theorem pairwise_cutThenFilter :
    (cutThenFilter whole items passes k).Pairwise (Precedes whole pos) :=
  ((pairwise_ranking whole increasing).take).filter passes

theorem pairwise_filterThenCut :
    (filterThenCut own items passes k).Pairwise (Precedes own pos) :=
  (pairwise_ranking own (increasing.filter passes)).take

theorem nodup_filterThenCut : (filterThenCut own items passes k).Nodup := by
  apply (pairwise_filterThenCut increasing).imp
  rintro a b ab rfl
  exact Precedes.irrefl a ab

theorem nodup_cutThenFilter : (cutThenFilter whole items passes k).Nodup := by
  apply (pairwise_cutThenFilter increasing).imp
  rintro a b ab rfl
  exact Precedes.irrefl a ab

omit increasing in
theorem length_cutThenFilter_le :
    (cutThenFilter whole items passes k).length ≤ (filterThenCut own items passes k).length := by
  have cut : (cutThenFilter whole items passes k).length ≤ k :=
    Nat.le_trans (List.length_filter_le _ _) (List.length_take_le _ _)
  have passed : (cutThenFilter whole items passes k).length ≤ (items.filter passes).length := by
    have sublist := (List.take_sublist k (ranking whole items)).filter passes
    have same := ((ranking_perm whole items).filter passes).length_eq
    exact Nat.le_trans sublist.length_le (Nat.le_of_eq same)
  rw [filterThenCut, List.length_take, (ranking_perm own _).length_eq]
  exact Nat.le_min.mpr ⟨cut, passed⟩

theorem perm_of_subset
    (kept : filterThenCut own items passes k ⊆ cutThenFilter whole items passes k) :
    (filterThenCut own items passes k).Perm (cutThenFilter whole items passes k) :=
  (List.subperm_of_subset (nodup_filterThenCut increasing) kept).perm_of_length_le
    length_cutThenFilter_le

theorem Unskewed.eq (unskewed : Unskewed whole own pos items passes k) :
    cutThenFilter whole items passes k = filterThenCut own items passes k := by
  have kept : filterThenCut own items passes k ⊆ cutThenFilter whole items passes k := by
    intro x best
    rw [mem_filterThenCut increasing] at best
    rw [mem_cutThenFilter increasing]
    exact ⟨best.1, unskewed.room x best.1 best.2⟩
  have ordered : (filterThenCut own items passes k).Pairwise (Precedes whole pos) := by
    apply (pairwise_filterThenCut increasing).imp_of_mem
    intro x y here there xy
    rw [mem_filterThenCut increasing] at here there
    exact unskewed.order x here.1 here.2 y there.1 xy
  exact List.Perm.eq_of_pairwise (fun _ _ _ _ => Precedes.antisymm)
    (pairwise_cutThenFilter increasing) ordered
    (perm_of_subset increasing kept).symm

omit increasing in
theorem Unskewed.of_eq (increasing : items.Pairwise fun a b => pos a < pos b)
    (same : cutThenFilter whole items passes k = filterThenCut own items passes k) :
    Unskewed whole own pos items passes k := by
  have kept (x : ι) (member : x ∈ items.filter passes)
      (best : ahead own pos (items.filter passes) x < k) : ahead whole pos items x < k := by
    have there := (mem_filterThenCut increasing).mpr ⟨member, best⟩
    rw [← same, mem_cutThenFilter increasing] at there
    exact there.2
  refine ⟨kept, ?_⟩
  intro x member best y other xy
  have here : x ∈ filterThenCut own items passes k :=
    (mem_filterThenCut increasing).mpr ⟨member, best⟩
  by_cases best' : ahead own pos (items.filter passes) y < k
  · -- both are kept, in the one list that is in both orders
    have there : y ∈ filterThenCut own items passes k :=
      (mem_filterThenCut increasing).mpr ⟨other, best'⟩
    have own_ : (filterThenCut own items passes k).Pairwise (Precedes own pos) :=
      pairwise_filterThenCut increasing
    have whole_ : (cutThenFilter whole items passes k).Pairwise (Precedes whole pos) :=
      pairwise_cutThenFilter increasing
    obtain ⟨front, back, split⟩ := List.append_of_mem here
    rw [same, split] at whole_
    rw [split] at own_ there
    rw [List.pairwise_append, List.pairwise_cons] at own_ whole_
    rcases List.mem_append.mp there with earlier | later
    · exact absurd xy (own_.2.2 y earlier x List.mem_cons_self).asymm
    · rcases List.mem_cons.mp later with rfl | later
      · exact absurd xy (Precedes.irrefl _)
      · exact whole_.2.1.1 y later
  · have apart : x ≠ y := by
      rintro rfl
      exact best' best
    have gone : ¬ ahead whole pos items y < k := by
      intro lt
      have there := (mem_cutThenFilter increasing).mpr ⟨other, lt⟩
      rw [same, mem_filterThenCut increasing] at there
      exact best' there.2
    rcases Precedes.total whole increasing (List.mem_of_mem_filter member)
      (List.mem_of_mem_filter other) apart with before | after
    · exact before
    · exact absurd (ahead_lt_of_precedes after (kept x member best)) gone

omit increasing in
theorem eq_of_map_eq {γ : Type} {content : ι → γ} {one two : List ι} (perm : one.Perm two)
    (same : one.map content = two.map content)
    (one_ordered : one.Pairwise fun a b => content a = content b → pos a < pos b)
    (two_ordered : two.Pairwise fun a b => content a = content b → pos a < pos b) : one = two := by
  induction one generalizing two with
  | nil => exact perm.nil_eq
  | cons a one ih =>
    cases two with
    | nil => cases same
    | cons b two =>
      rw [List.map_cons, List.map_cons, List.cons.injEq] at same
      rw [List.pairwise_cons] at one_ordered two_ordered
      have heads : a = b := by
        by_contra other
        have a_later := (List.mem_cons.mp (perm.mem_iff.mp List.mem_cons_self)).resolve_left other
        have b_later :=
          (List.mem_cons.mp (perm.mem_iff.mpr List.mem_cons_self)).resolve_left (Ne.symm other)
        have lt := one_ordered.1 b b_later same.1
        have gt := two_ordered.1 a a_later same.1.symm
        omega
      subst heads
      rw [ih (List.perm_cons a |>.mp perm) same.2 one_ordered.2 two_ordered.2]

section Content

variable {γ : Type} {content : ι → γ}
  (whole_content : ∀ x y, content x = content y → whole x = whole y)
  (own_content : ∀ x y, content x = content y → own x = own y)

include whole_content own_content

theorem subset_of_map_eq
    (same : (cutThenFilter whole items passes k).map content =
      (filterThenCut own items passes k).map content) :
    filterThenCut own items passes k ⊆ cutThenFilter whole items passes k := by
  classical
  intro x best
  by_contra lost
  have x_best := (mem_filterThenCut increasing).mp best
  -- of the items that show the same as the lost one, fewer are kept than there should be
  have fewer : x :: (cutThenFilter whole items passes k).filter (fun y => content y = content x) ⊆
      (filterThenCut own items passes k).filter fun y => content y = content x := by
    intro y
    simp only [List.mem_cons, List.mem_filter, decide_eq_true_iff]
    rintro (rfl | ⟨kept, shows⟩)
    · exact ⟨best, rfl⟩
    · refine ⟨?_, shows⟩
      rw [mem_cutThenFilter increasing] at kept
      have earlier : pos y < pos x := by
        rcases Nat.lt_trichotomy (pos y) (pos x) with before | same | after
        · exact before
        · have equal := pos_inj increasing (List.mem_of_mem_filter kept.1)
            (List.mem_of_mem_filter x_best.1) same
          subst equal
          exact absurd ((mem_cutThenFilter increasing).mpr kept) lost
        · have xy : Precedes whole pos x y :=
            .of_pos_lt (whole_content x y shows.symm) after
          exact absurd ((mem_cutThenFilter increasing).mpr
            ⟨x_best.1, ahead_lt_of_precedes xy kept.2⟩) lost
      exact (mem_filterThenCut increasing).mpr ⟨kept.1,
        ahead_lt_of_precedes (.of_pos_lt (own_content y x shows) earlier) x_best.2⟩
  have once : (x :: (cutThenFilter whole items passes k).filter
      fun y => content y = content x).Nodup := by
    rw [List.nodup_cons]
    exact ⟨fun member => lost (List.mem_of_mem_filter member),
      (nodup_cutThenFilter increasing).filter _⟩
  have counts := congrArg (List.countP fun c => c = content x) same
  rw [List.countP_map, List.countP_map, List.countP_eq_length_filter,
    List.countP_eq_length_filter] at counts
  have le := (List.subperm_of_subset once fewer).length_le
  rw [List.length_cons] at le
  simp only [Function.comp_def] at counts
  omega

theorem cut_eq_iff :
    (cutThenFilter whole items passes k).map content =
      (filterThenCut own items passes k).map content ↔
    Unskewed whole own pos items passes k := by
  constructor
  · intro same
    have kept := subset_of_map_eq increasing whole_content own_content same
    apply Unskewed.of_eq increasing
    apply eq_of_map_eq (perm_of_subset increasing kept).symm same
    · exact (pairwise_cutThenFilter increasing).imp fun before shows =>
        before.pos_lt (whole_content _ _ shows)
    · exact (pairwise_filterThenCut increasing).imp fun before shows =>
        before.pos_lt (own_content _ _ shows)
  · intro unskewed
    rw [unskewed.eq increasing]

end Content

end Cut

end Shared

namespace Shared

variable {ι β : Type} [LinearOrder β] {score : ι → β} {items others : List ι} {x : ι} {k : Nat}

def above (score : ι → β) (items : List ι) (x : ι) : Nat := items.countP fun y => score x < score y

def Apart (score : ι → β) (items : List ι) (k : Nat) : Prop :=
  ∀ x ∈ items, above score items x < k → ∀ y ∈ items, score y = score x → y = x

theorem exists_pos (nodup : items.Nodup) : ∃ pos : ι → Nat, items.Pairwise fun a b => pos a < pos b := by
  classical
  refine ⟨items.idxOf, List.pairwise_iff_getElem.mpr fun i j inside within less => ?_⟩
  simpa only [nodup.idxOf_getElem i inside, nodup.idxOf_getElem j within] using less

theorem above_le_ahead (score : ι → β) (pos : ι → Nat) (items : List ι) (x : ι) :
    above score items x ≤ ahead score pos items x := by
  apply List.countP_mono_left
  intro y _ better
  simp only [decide_eq_true_iff] at better ⊢
  exact .inl better

theorem above_lt_of_mem_take (nodup : items.Nodup) (taken : x ∈ (ranking score items).take k) :
    above score items x < k := by
  obtain ⟨pos, increasing⟩ := exists_pos nodup
  have member := (ranking_perm score items).mem_iff.mp (List.mem_of_mem_take taken)
  exact (above_le_ahead score pos items x).trans_lt ((mem_take_ranking increasing member).mp taken)

theorem mem_take_of_above (nodup : items.Nodup) (member : x ∈ items)
    (alone : ∀ y ∈ items, score y = score x → y = x) (few : above score items x < k) :
    x ∈ (ranking score items).take k := by
  obtain ⟨pos, increasing⟩ := exists_pos nodup
  have same : ahead score pos items x = above score items x := by
    apply List.countP_congr
    intro y there
    simp only [decide_eq_true_iff]
    constructor
    · rintro (better | ⟨tie, earlier⟩)
      · exact better
      · rw [alone y there tie] at earlier
        exact absurd earlier (Nat.lt_irrefl _)
    · exact .inl
  exact (mem_take_ranking increasing member).mpr (same ▸ few)

theorem getElem?_ranking_cons (nodup : (x :: items).Nodup) :
    (ranking score (x :: items))[above score (x :: items) x]? = some x := by
  obtain ⟨pos, increasing⟩ := exists_pos nodup
  have first := (List.pairwise_cons.mp increasing).1
  have same : ahead score pos (x :: items) x = above score (x :: items) x := by
    apply List.countP_congr
    intro y there
    simp only [decide_eq_true_iff]
    constructor
    · rintro (better | ⟨-, earlier⟩)
      · exact better
      · cases List.mem_cons.mp there with
        | inl here => simp [here] at earlier
        | inr later =>
          have := first y later
          omega
    · exact .inl
  have within : x ∈ (ranking score (x :: items)).take (above score (x :: items) x + 1) :=
    (mem_take_ranking increasing List.mem_cons_self).mpr (by omega)
  have before : x ∉ (ranking score (x :: items)).take (above score (x :: items) x) := by
    rw [mem_take_ranking increasing List.mem_cons_self]
    omega
  rw [List.take_add_one, List.mem_append] at within
  simpa using within.resolve_left before

theorem take_ranking_eq (nodup : items.Nodup) (nodup' : others.Nodup)
    (same : ∀ x, (x ∈ items ∧ above score items x < k) ↔ (x ∈ others ∧ above score others x < k))
    (apart : Apart score items k) (apart' : Apart score others k) :
    (ranking score items).take k = (ranking score others).take k := by
  have members : ∀ {items : List ι}, items.Nodup → Apart score items k →
      ∀ x, x ∈ (ranking score items).take k ↔ x ∈ items ∧ above score items x < k := by
    intro items nodup apart x
    constructor
    · intro taken
      have member := (ranking_perm score items).mem_iff.mp (List.mem_of_mem_take taken)
      exact ⟨member, above_lt_of_mem_take nodup taken⟩
    · rintro ⟨member, few⟩
      exact mem_take_of_above nodup member (apart x member few) few
  have sorted : ∀ items : List ι, ((ranking score items).take k).Pairwise fun a b => score b ≤ score a := by
    intro items
    have all := List.pairwise_mergeSort (descending_trans score) (descending_total score) items
    exact (all.imp fun le => by simpa using le).take
  have once : ∀ {items : List ι}, items.Nodup → ((ranking score items).take k).Nodup := fun nodup =>
    ((ranking_perm score _).nodup_iff.mpr nodup).sublist (List.take_sublist _ _)
  have perm : ((ranking score items).take k).Perm ((ranking score others).take k) := by
    rw [List.perm_ext_iff_of_nodup (once nodup) (once nodup')]
    intro x
    rw [members nodup apart, members nodup' apart', same]
  apply perm.eq_of_pairwise _ (sorted items) (sorted others)
  intro a b here there le ge
  obtain ⟨member, few⟩ := (members nodup apart a).mp here
  obtain ⟨member', -⟩ := (members nodup apart b).mp (perm.mem_iff.mpr there)
  exact (apart a member few b member' (le_antisymm le ge)).symm

end Shared
