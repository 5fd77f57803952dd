import AtomrAgents.Core.Context
import AtomrAgents.Shared.Greedy
import AtomrAgents.Shared.Table
import Mathlib.Algebra.GroupWithZero.Nat

set_option autoImplicit false

namespace AtomrAgents

structure ContextFragment where
  source : String
  priority : Nat
  estimatedTokens : Nat
  text : String
  deriving DecidableEq

structure RenderedContext where
  fragments : List ContextFragment
  totalTokens : Nat
  deriving DecidableEq

def RenderedContext.join (rendered : RenderedContext) (sep : String) : String :=
  sep.intercalate (rendered.fragments.map ContextFragment.text)

namespace ContextAssembler

def estimatedTokens (fragments : List ContextFragment) : Nat :=
  (fragments.map ContextFragment.estimatedTokens).sum

def rank (x y : ContextFragment × Nat) : Bool :=
  y.1.priority < x.1.priority ∨ x.1.priority = y.1.priority ∧ x.2 ≤ y.2

-- Whatever still fits is kept.
def pack (remaining : Nat) : Nat → List (ContextFragment × Nat) → List (ContextFragment × Nat)
  | _, [] => []
  | acc, entry :: rest =>
    if acc + entry.1.estimatedTokens ≤ remaining then
      entry :: pack remaining (acc + entry.1.estimatedTokens) rest
    else pack remaining acc rest

def select (fragments : List ContextFragment) (budget : TokenBudget) : List ContextFragment :=
  if estimatedTokens fragments ≤ budget.remaining then fragments
  else
    let kept := pack budget.remaining 0 (fragments.zipIdx.mergeSort rank)
    (kept.mergeSort fun x y => x.2 ≤ y.2).map Prod.fst

def assemble (fragments : List ContextFragment) (budget : TokenBudget) :
    Except AgentError (RenderedContext × TokenBudget) := do
  let out := select fragments budget
  let totalTokens := estimatedTokens out
  let budget ← budget.consume totalTokens
  return ({ fragments := out, totalTokens }, budget)

end ContextAssembler

end AtomrAgents

namespace AtomrAgents

open Shared

namespace ContextAssembler

def cost (entry : ContextFragment × Nat) : Nat := entry.1.estimatedTokens

def before (x y : ContextFragment × Nat) : Bool :=
  y.1.priority < x.1.priority ∨ x.1.priority = y.1.priority ∧ x.2 < y.2

theorem pack_eq_greedy (remaining acc : Nat) (entries : List (ContextFragment × Nat)) :
    pack remaining acc entries = greedy cost remaining acc entries := by
  induction entries generalizing acc with
  | nil => rfl
  | cons entry rest ih =>
    rw [pack, greedy, ih, ih]
    rfl

theorem estimatedTokens_eq_total (entries : List (ContextFragment × Nat)) :
    estimatedTokens (entries.map Prod.fst) = total cost entries := by
  rw [estimatedTokens, List.map_map]
  rfl

theorem positions_increase (fragments : List ContextFragment) :
    fragments.zipIdx.Pairwise fun x y => x.2 < y.2 := by
  rw [← List.pairwise_map, List.zipIdx_map_snd]
  exact List.pairwise_lt_range'

theorem pairwise_rank (fragments : List ContextFragment) :
    (fragments.zipIdx.mergeSort rank).Pairwise fun x y => before x y := by
  have sorted : (fragments.zipIdx.mergeSort rank).Pairwise fun x y => rank x y := by
    apply List.pairwise_mergeSort
    · intro x y z
      simp only [rank, decide_eq_true_eq]
      omega
    · intro x y
      simp only [rank, Bool.or_eq_true, decide_eq_true_eq]
      omega
  have apart : (fragments.zipIdx.mergeSort rank).Pairwise fun x y => x.2 ≠ y.2 :=
    ((positions_increase fragments).imp Nat.ne_of_lt).perm (List.mergeSort_perm _ rank).symm Ne.symm
  refine (sorted.and apart).imp fun {x y} both => ?_
  have ranked := both.1
  have differ := both.2
  simp only [rank, before, decide_eq_true_eq] at ranked ⊢
  omega

def kept (fragments : List ContextFragment) (budget : TokenBudget) : List (ContextFragment × Nat) :=
  if estimatedTokens fragments ≤ budget.remaining then fragments.zipIdx
  else fragments.zipIdx.filter (· ∈ pack budget.remaining 0 (fragments.zipIdx.mergeSort rank))

variable (fragments : List ContextFragment) (budget : TokenBudget)

theorem packed_perm :
    (pack budget.remaining 0 (fragments.zipIdx.mergeSort rank)).Perm
      (fragments.zipIdx.filter (· ∈ pack budget.remaining 0 (fragments.zipIdx.mergeSort rank))) := by
  have nodup : fragments.zipIdx.Nodup :=
    (positions_increase fragments).imp fun less same => Nat.ne_of_lt less (congrArg Prod.snd same)
  have sub : (pack budget.remaining 0 (fragments.zipIdx.mergeSort rank)).Sublist
      (fragments.zipIdx.mergeSort rank) := by
    rw [pack_eq_greedy]
    exact greedy_sublist 0 _
  have sorted := List.mergeSort_perm fragments.zipIdx rank
  rw [List.perm_ext_iff_of_nodup (sub.nodup (sorted.nodup_iff.mpr nodup)) (nodup.filter _)]
  intro entry
  simp only [List.mem_filter, decide_eq_true_eq]
  exact ⟨fun member => ⟨sorted.mem_iff.mp (sub.mem member), member⟩, And.right⟩

theorem select_eq_kept : select fragments budget = (kept fragments budget).map Prod.fst := by
  unfold select kept
  split
  · exact (List.zipIdx_map_fst 0 fragments).symm
  · have ordered := orderBy_eq (packed_perm fragments budget) ((positions_increase fragments).filter _)
    exact congrArg (List.map Prod.fst) ordered

theorem kept_sublist : (kept fragments budget).Sublist fragments.zipIdx := by
  unfold kept
  split
  · exact .refl _
  · exact List.filter_sublist

theorem kept_fits : total cost (kept fragments budget) ≤ budget.remaining := by
  unfold kept
  split
  · next fits =>
    rw [← estimatedTokens_eq_total, List.zipIdx_map_fst]
    exact fits
  · rw [← total_perm (packed_perm fragments budget), pack_eq_greedy]
    have room : 0 + total cost (greedy cost budget.remaining 0 (fragments.zipIdx.mergeSort rank)) ≤
        budget.remaining := greedy_fits (Nat.zero_le budget.remaining) _
    omega

theorem kept_maximal {entry : ContextFragment × Nat} (member : entry ∈ fragments.zipIdx)
    (out : entry ∉ kept fragments budget) :
    budget.remaining < total cost ((kept fragments budget).filter (before · entry)) + cost entry := by
  unfold kept at out ⊢
  split
  · next fits =>
    rw [if_pos fits] at out
    exact absurd member out
  · next full =>
    rw [if_neg full, List.mem_filter, decide_eq_true_eq, not_and] at out
    rw [← total_perm ((packed_perm fragments budget).filter _)]
    have packed_out := out member
    rw [pack_eq_greedy] at packed_out ⊢
    have sorted := List.mergeSort_perm fragments.zipIdx rank
    have room := greedy_maximal (pairwise_rank fragments) (sorted.mem_iff.mpr member) packed_out
    rwa [Nat.zero_add] at room

/-- The assembler always answers, and a fragment is left out only for those that rank before it. -/
theorem assemble_exact :
    ∃ kept : List (ContextFragment × Nat), ∃ rest : TokenBudget,
      assemble fragments budget =
        .ok ({ fragments := kept.map Prod.fst, totalTokens := total cost kept }, rest) ∧
      total cost kept ≤ budget.remaining ∧
      rest = { budget with remaining := budget.remaining - total cost kept } ∧
      kept.Sublist fragments.zipIdx ∧
      ∀ entry ∈ fragments.zipIdx, entry ∉ kept →
        budget.remaining < total cost (kept.filter (before · entry)) + cost entry := by
  refine ⟨kept fragments budget, _, ?_, kept_fits fragments budget, rfl, kept_sublist fragments budget,
    fun entry => kept_maximal fragments budget⟩
  have fits := kept_fits fragments budget
  simp only [assemble, select_eq_kept, estimatedTokens_eq_total, TokenBudget.consume, if_neg (Nat.not_lt.mpr fits)]
  rfl

theorem assemble_first {first : ContextFragment} {rest : List ContextFragment}
    (fits : first.estimatedTokens ≤ budget.remaining)
    (below : ∀ fragment ∈ rest, fragment.priority < first.priority) :
    ∃ rendered left, assemble (first :: rest) budget = .ok (rendered, left) ∧
      rendered.fragments.head? = some first := by
  obtain ⟨kept, left, assembled, -, -, sub, maximal⟩ := assemble_exact (first :: rest) budget
  rw [List.zipIdx_cons] at sub maximal
  have others : ∀ entry ∈ rest.zipIdx (0 + 1), entry.1.priority < first.priority := fun entry member =>
    below entry.1 (List.fst_mem_of_mem_zipIdx member)
  have leads : (first, 0) ∈ kept := by
    by_contra out
    have full := maximal (first, 0) List.mem_cons_self out
    have none : kept.filter (before · (first, 0)) = [] := by
      rw [List.filter_eq_nil_iff]
      intro entry member
      rcases List.mem_cons.mp (sub.mem member) with rfl | later
      · simp [before]
      · have lower := others entry later
        simp only [before, decide_eq_true_eq]
        omega
    rw [none, total_nil, Nat.zero_add] at full
    exact absurd fits (Nat.not_le.mpr full)
  refine ⟨_, left, assembled, ?_⟩
  cases sub with
  | cons _ sub => exact absurd (others _ (sub.mem leads)) (Nat.lt_irrefl _)
  | cons_cons _ sub => rfl

end ContextAssembler

end AtomrAgents
