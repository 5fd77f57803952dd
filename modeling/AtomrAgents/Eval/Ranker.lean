import AtomrAgents.Core.Value
import Mathlib.Algebra.Order.Field.Basic
import Mathlib.Data.List.Nodup
import Mathlib.Data.Rat.Cast.Order

set_option autoImplicit false

/-! A candidate's scores are put together to one composite, and a batch is sorted by it. Candidates that tie
are told apart by where they stood in the input. Scores and weights are exact numbers of an ordered field. -/

namespace AtomrAgents

structure ScorerContribution (K : Type) where
  name : String
  raw : K
  weighted : K

inductive Aggregation (K : Type) where
  | weightedSum
  | weightedMean
  | min
  | custom (f : List (ScorerContribution K) → K)

structure TriageResult (K : Type) where
  composite : K
  breakdown : List (ScorerContribution K)

-- A scorer is given as the score of its outcome, and comes with its weight.
structure CompositeScorer (K : Type) where
  components : List ((Value → Value → K) × K)
  aggregation : Aggregation K

structure RankedItem (T K : Type) where
  item : T
  triage : TriageResult K
  rank : Nat
  percentile : K

section Definitions

variable {T K : Type} [Field K] [LinearOrder K]

namespace CompositeScorer

variable (scorer : CompositeScorer K)

def contributions (expected actual : Value) : List (ScorerContribution K) :=
  scorer.components.mapIdx fun i component =>
    let raw := component.1 expected actual
    { name := "component[" ++ toString i ++ "]", raw, weighted := raw * component.2 }

def triage (expected actual : Value) : TriageResult K :=
  let breakdown := scorer.contributions expected actual
  let composite := match scorer.aggregation with
    | .weightedSum => (breakdown.map ScorerContribution.weighted).sum
    | .weightedMean =>
      let totalW := (scorer.components.map Prod.snd).sum
      if totalW = 0 then 0 else (breakdown.map ScorerContribution.weighted).sum / totalW
    | .min =>
      match breakdown with
      | [] => 0
      | first :: others => others.foldl (fun worst c => Min.min worst c.raw) first.raw
    | .custom f => f breakdown
  { composite, breakdown }

end CompositeScorer

namespace Ranker

-- `a` does not come after `b`: by the composite, the best first, and then by the place in the input.
def notAfter (a b : Nat × T × TriageResult K) : Bool :=
  b.2.2.composite < a.2.2.composite || (b.2.2.composite = a.2.2.composite && a.1 ≤ b.1)

def percentile (n rank : Nat) : K := if n ≤ 1 then 100 else ((n - rank : Nat) : K) / ((n - 1 : Nat) : K) * 100

def scored (items : List (T × Value)) (scorer : CompositeScorer K) : List (Nat × T × TriageResult K) :=
  items.mapIdx fun i entry => (i, entry.1, scorer.triage .null entry.2)

def rank (items : List (T × Value)) (scorer : CompositeScorer K) : List (RankedItem T K) :=
  let scored := scored items scorer
  let n := scored.length
  (scored.mergeSort notAfter).mapIdx fun pos entry =>
    { item := entry.2.1, triage := entry.2.2, rank := pos + 1, percentile := percentile n (pos + 1) }

end Ranker

end Definitions

namespace Ranker

variable {T K : Type} [Field K] [LinearOrder K] {items others : List (T × Value)} {scorer : CompositeScorer K}

def composites (items : List (T × Value)) (scorer : CompositeScorer K) : List K :=
  items.map fun entry => (scorer.triage .null entry.2).composite

def standing (r : RankedItem T K) : T × TriageResult K × K := (r.item, r.triage, r.percentile)

structure Fair (items : List (T × Value)) (scorer : CompositeScorer K) : Prop where
  tied : ∀ a ∈ rank items scorer, ∀ b ∈ rank items scorer,
    a.triage.composite = b.triage.composite → a.percentile = b.percentile
  better : ∀ a ∈ rank items scorer, ∀ b ∈ rank items scorer,
    a.triage.composite < b.triage.composite → a.percentile < b.percentile
  unordered : ∀ others, List.Perm others items →
    ((rank others scorer).map standing).Perm ((rank items scorer).map standing)

def sorted (items : List (T × Value)) (scorer : CompositeScorer K) : List (T × TriageResult K) :=
  ((scored items scorer).mergeSort notAfter).map Prod.snd

theorem sorted_perm (items : List (T × Value)) (scorer : CompositeScorer K) :
    (sorted items scorer).Perm (items.map fun entry => (entry.1, scorer.triage .null entry.2)) := by
  have perm := (List.mergeSort_perm (scored items scorer) notAfter).map Prod.snd
  have same : (scored items scorer).map Prod.snd = items.map fun entry => (entry.1, scorer.triage .null entry.2) := by
    apply List.ext_getElem
    · simp [scored]
    · intro i _ _
      simp [scored]
  rw [same] at perm
  exact perm

theorem sorted_descending (items : List (T × Value)) (scorer : CompositeScorer K) :
    (sorted items scorer).Pairwise fun a b => b.2.composite ≤ a.2.composite := by
  have pairwise : ((scored items scorer).mergeSort notAfter).Pairwise fun a b => notAfter a b := by
    apply List.pairwise_mergeSort
    · intro a b c
      simp only [notAfter, Bool.or_eq_true, Bool.and_eq_true, decide_eq_true_eq]
      grind
    · intro a b
      simp only [notAfter, Bool.or_eq_true, Bool.and_eq_true, decide_eq_true_eq]
      grind
  rw [sorted, List.pairwise_map]
  refine pairwise.imp fun ordered => ?_
  simp only [notAfter, Bool.or_eq_true, Bool.and_eq_true, decide_eq_true_eq] at ordered
  rcases ordered with better | ⟨tied, -⟩
  · exact le_of_lt better
  · exact le_of_eq tied

theorem length_sorted (items : List (T × Value)) (scorer : CompositeScorer K) :
    (sorted items scorer).length = items.length := by
  rw [(sorted_perm items scorer).length_eq, List.length_map]

theorem rank_eq (items : List (T × Value)) (scorer : CompositeScorer K) :
    rank items scorer = (sorted items scorer).mapIdx fun pos entry =>
      { item := entry.1, triage := entry.2, rank := pos + 1, percentile := percentile items.length (pos + 1) } := by
  apply List.ext_getElem
  · simp [rank, sorted]
  · intro i _ _
    simp [rank, sorted, scored]

theorem mem_rank_iff {r : RankedItem T K} : r ∈ rank items scorer ↔
    ∃ pos, ∃ inside : pos < (sorted items scorer).length, r = {
      item := (sorted items scorer)[pos].1
      triage := (sorted items scorer)[pos].2
      rank := pos + 1
      percentile := percentile items.length (pos + 1) } := by
  rw [rank_eq, List.mem_mapIdx]
  simp only [eq_comm]

theorem composites_perm (items : List (T × Value)) (scorer : CompositeScorer K) :
    ((sorted items scorer).map fun entry => entry.2.composite).Perm (composites items scorer) := by
  have perm := (sorted_perm items scorer).map fun entry => entry.2.composite
  rw [List.map_map] at perm
  exact perm

theorem rank_congr (apart : (composites items scorer).Nodup) (perm : others.Perm items) :
    rank others scorer = rank items scorer := by
  have same : (sorted others scorer).Perm (sorted items scorer) :=
    (sorted_perm others scorer).trans ((perm.map _).trans (sorted_perm items scorer).symm)
  have distinct := (composites_perm items scorer).nodup_iff.mpr apart
  have equal : sorted others scorer = sorted items scorer := by
    refine same.eq_of_pairwise ?_ (sorted_descending others scorer) (sorted_descending items scorer)
    intro a b here there ba ab
    exact List.inj_on_of_nodup_map distinct (same.mem_iff.mp here) there (le_antisymm ab ba)
  rw [rank_eq, rank_eq, equal, perm.length_eq]

theorem percentile_eq_of_tied (apart : (composites items scorer).Nodup) {a b : RankedItem T K}
    (here : a ∈ rank items scorer) (there : b ∈ rank items scorer)
    (tied : a.triage.composite = b.triage.composite) : a.percentile = b.percentile := by
  obtain ⟨p, inside, rfl⟩ := mem_rank_iff.mp here
  obtain ⟨q, within, rfl⟩ := mem_rank_iff.mp there
  have distinct := (composites_perm items scorer).nodup_iff.mpr apart
  have same : p = q := by
    have equal : ((sorted items scorer).map fun entry => entry.2.composite)[p]? =
        ((sorted items scorer).map fun entry => entry.2.composite)[q]? := by
      simpa [inside, within] using tied
    exact (List.getElem?_inj (by simpa using inside) distinct).mp equal
  exact congrArg (fun pos => percentile items.length (pos + 1)) same

section Percentiles

variable [IsStrictOrderedRing K]

theorem percentile_lt {n p q : Nat} (before : p < q) (inside : q < n) :
    (percentile n (q + 1) : K) < percentile n (p + 1) := by
  have several : ¬ n ≤ 1 := by omega
  have positive : (0 : K) < ((n - 1 : Nat) : K) := by
    rw [Nat.cast_pos]
    omega
  have less : ((n - (q + 1) : Nat) : K) < ((n - (p + 1) : Nat) : K) := by
    rw [Nat.cast_lt]
    omega
  rw [percentile, percentile, if_neg several, if_neg several]
  exact mul_lt_mul_of_pos_right (div_lt_div_of_pos_right less positive) (by norm_num)

theorem nodup_of_fair (fair : Fair items scorer) : (composites items scorer).Nodup := by
  rw [← (composites_perm items scorer).nodup_iff, List.nodup_iff_getElem?_ne_getElem?]
  intro p q before inside tie
  rw [List.length_map] at inside
  have same : (sorted items scorer)[p].2.composite = (sorted items scorer)[q].2.composite := by
    simpa [List.getElem?_eq_getElem, inside, before.trans inside] using tie
  have equal := fair.tied _ (mem_rank_iff.mpr ⟨p, before.trans inside, rfl⟩) _
    (mem_rank_iff.mpr ⟨q, inside, rfl⟩) same
  rw [length_sorted] at inside
  exact ne_of_gt (percentile_lt before inside) equal

theorem percentile_lt_of_better {a b : RankedItem T K} (here : a ∈ rank items scorer) (there : b ∈ rank items scorer)
    (better : a.triage.composite < b.triage.composite) : a.percentile < b.percentile := by
  obtain ⟨p, inside, rfl⟩ := mem_rank_iff.mp here
  obtain ⟨q, within, rfl⟩ := mem_rank_iff.mp there
  have descending := List.pairwise_iff_getElem.mp (sorted_descending items scorer)
  have before : q < p := by
    rcases Nat.lt_trichotomy p q with earlier | same | later
    · exact absurd better (not_lt_of_ge (descending p q inside within earlier))
    · subst same
      exact absurd better (lt_irrefl _)
    · exact later
  rw [length_sorted] at inside
  exact percentile_lt before inside

/-- The percentiles are fair exactly where no two candidates tie. -/
theorem fair_iff (items : List (T × Value)) (scorer : CompositeScorer K) :
    Fair items scorer ↔ (composites items scorer).Nodup := by
  constructor
  · exact nodup_of_fair
  · intro apart
    constructor
    · intro a here b there
      exact percentile_eq_of_tied apart here there
    · intro a here b there
      exact percentile_lt_of_better here there
    · intro others perm
      rw [rank_congr apart perm]

-- A candidate that is true has the score one, every other one zero.
def truths : CompositeScorer ℚ where
  components := [(fun _ actual => match actual with
    | .bool true => 1
    | _ => 0, 1)]
  aggregation := .weightedSum

theorem truths_fair : Fair [("first", Value.bool false), ("second", Value.bool true)] truths := by
  apply (fair_iff _ _).mpr
  simp [composites, CompositeScorer.triage, CompositeScorer.contributions, truths]

def level : CompositeScorer ℚ where
  components := [(fun _ _ => 1 / 2, 1)]
  aggregation := .weightedSum

theorem level_unfair : ¬ Fair [("first", Value.null), ("second", Value.null)] level := by
  intro fair
  have apart := nodup_of_fair fair
  simp [composites] at apart

end Percentiles

end Ranker

end AtomrAgents
