import AtomrAgents.Shared.DependencyOrder
import AtomrAgents.Workflow.Dag

set_option autoImplicit false

namespace AtomrAgents.Dag

open Shared

variable {S : Type} {dag : Dag S} {order : List StepId}

def Edge (dag : Dag S) (a b : StepId) : Prop := b ∈ dag.edges[a]?.getD []

def StepEdge (dag : Dag S) (a b : StepId) : Prop := a ∈ dag.steps ∧ b ∈ dag.steps ∧ dag.Edge a b

-- An undeclared source is counted in the indegree of its target, and never put out.
def SourcesDeclared (dag : Dag S) : Prop := ∀ a b, dag.Edge a b → b ∈ dag.steps → a ∈ dag.steps

theorem edge_iff (a b : StepId) : dag.Edge a b ↔ ∃ targets, (a, targets) ∈ dag.edges.toList ∧ b ∈ targets := by
  simp only [Edge, Std.ExtTreeMap.mem_toList_iff_getElem?_eq_some]
  cases dag.edges[a]? <;> simp

theorem pending_eq_zero {out : List StepId} {s : StepId} :
    dag.pending out s = 0 ↔ ∀ a, dag.Edge a s → a ∈ out := by
  rw [pending, List.count_eq_zero, List.mem_flatMap]
  constructor
  · intro settled a edge
    obtain ⟨targets, entry, member⟩ := (edge_iff a s).mp edge
    by_contra missing
    exact settled ⟨(a, targets), List.mem_filter.mpr ⟨entry, by simpa using missing⟩, member⟩
  · rintro sources ⟨⟨a, targets⟩, entry, member⟩
    obtain ⟨entry, missing⟩ := List.mem_filter.mp entry
    have edge := (edge_iff a s).mpr ⟨targets, entry, member⟩
    simp [sources a edge] at missing

theorem topoLoop_dependenciesFirst (dag : Dag S) (fuel : Nat) (indeg : Indegrees) (queue out : List StepId)
    (sorting : dag.Sorting indeg queue out) (first : DependenciesFirst dag.Edge out) :
    DependenciesFirst dag.Edge (dag.topoLoop fuel indeg queue out) := by
  induction fuel generalizing indeg queue out with
  | zero => exact first
  | succ fuel ih =>
    cases last : queue.getLast? with
    | none => simpa [topoLoop, last] using first
    | some n =>
      have ready : dag.pending out n = 0 :=
        ((sorting.ready n).mp (List.mem_append_right _ (List.mem_of_getLast? last))).2
      have next := ih _ _ _ (dag.sorting_step sorting last) (first.snoc (pending_eq_zero.mp ready))
      simpa [topoLoop, last] using next

theorem topoSort_dependenciesFirst (sorted : dag.topoSort = .ok order) : DependenciesFirst dag.Edge order := by
  have first := dag.topoLoop_dependenciesFirst dag.steps.size _ _ _ dag.sorting_initial dependenciesFirst_nil
  unfold topoSort at sorted
  dsimp only at sorted
  split at sorted
  · cases sorted
  · cases sorted
    exact first

theorem topoSort_forward (sorted : dag.topoSort = .ok order) {a b : StepId} (edge : dag.StepEdge a b) :
    order.idxOf a < order.idxOf b :=
  (topoSort_dependenciesFirst sorted).idxOf_lt ((mem_topoSort sorted b).mpr edge.2.1) edge.2.2

theorem topoSort_full (dag : Dag S) (acyclic : Acyclic dag.StepEdge) (sources : dag.SourcesDeclared) :
    ∃ order, dag.topoSort = .ok order := by
  obtain ⟨final, sorting⟩ := dag.topoLoop_drained dag.steps.size _ _ _ dag.sorting_initial (by simp)
  unfold topoSort
  dsimp only
  generalize dag.topoLoop dag.steps.size dag.indegrees (roots dag.indegrees) [] = out at sorting ⊢
  have put : ∀ s ∈ dag.steps, s ∈ out := by
    by_contra left
    push Not at left
    obtain ⟨s, declared, missing⟩ := left
    have waiting : s ∈ dag.steps.keys.filter (· ∉ out) := by simp [declared, missing]
    obtain ⟨first, leftover, least⟩ := acyclic.exists_first waiting
    simp only [List.mem_filter, Std.ExtTreeMap.mem_keys, decide_eq_true_eq] at leftover least
    have ready : dag.pending out first = 0 := by
      apply pending_eq_zero.mpr
      intro a edge
      by_contra unput
      have source := sources a first edge leftover.1
      exact least a ⟨source, unput⟩ ⟨source, leftover.1, edge⟩
    have done := (sorting.ready first).mpr ⟨leftover.1, ready⟩
    exact leftover.2 (by simpa using done)
  have full : out.length = dag.steps.size := by
    have bound := sorting.length_le
    have subset : dag.steps.keys ⊆ out := fun s member => put s (Std.ExtTreeMap.mem_keys.mp member)
    have enough := (List.subperm_of_subset Std.ExtTreeMap.nodup_keys subset).length_le
    rw [Std.ExtTreeMap.length_keys] at enough
    rw [List.length_nil] at bound
    omega
  exact ⟨out, by simp [full]⟩

theorem topoSort_ok_iff (dag : Dag S) :
    (∃ order, dag.topoSort = .ok order) ↔ Acyclic dag.StepEdge ∧ dag.SourcesDeclared := by
  constructor
  · rintro ⟨order, sorted⟩
    constructor
    · exact acyclic_of_rank order.idxOf fun a b edge => topoSort_forward sorted edge
    · intro a b edge declared
      rw [← mem_topoSort sorted] at declared ⊢
      exact (topoSort_dependenciesFirst sorted).mem declared edge
  · rintro ⟨acyclic, sources⟩
    exact dag.topoSort_full acyclic sources

def SortsExactly (dag : Dag S) : Prop :=
  ((∃ order, dag.topoSort = .ok order) ↔ Acyclic dag.StepEdge) ∧
    ∀ order, dag.topoSort = .ok order →
      order.Perm dag.steps.keys ∧ ∀ a b, dag.StepEdge a b → order.idxOf a < order.idxOf b

theorem sortsExactly_iff (dag : Dag S) :
    dag.SortsExactly ↔ (Acyclic dag.StepEdge → dag.SourcesDeclared) := by
  constructor
  · intro exact acyclic
    exact (dag.topoSort_ok_iff.mp (exact.1.mpr acyclic)).2
  · intro sources
    refine ⟨?_, fun order sorted => ⟨topoSort_perm sorted, fun a b edge => topoSort_forward sorted edge⟩⟩
    rw [topoSort_ok_iff]
    exact ⟨And.left, fun acyclic => ⟨acyclic, sources acyclic⟩⟩

-- One step, and an edge into it from an id that names no step.
def strayEdge : Dag Unit := ((Dag.builder "a").step "a" ()).edge "ghost" "a"

theorem strayEdge_refused : ¬ strayEdge.SortsExactly := by
  have declared (s : StepId) : s ∈ strayEdge.steps ↔ s = "a" := by
    simp [strayEdge, builder, step, edge]
    exact eq_comm
  have edges (a b : StepId) : strayEdge.Edge a b ↔ a = "ghost" ∧ b = "a" := by
    by_cases ghost : "ghost" = a
    · simp [Edge, strayEdge, builder, step, edge, ← ghost]
    · simp [Edge, strayEdge, builder, step, edge, ghost, Ne.symm ghost]
  have acyclic : Acyclic strayEdge.StepEdge := by
    apply acyclic_of_rank fun _ => 0
    rintro a b ⟨source, -, edge⟩
    rw [declared] at source
    rw [source] at edge
    simp [edges] at edge
  intro exact
  have sources := (strayEdge.topoSort_ok_iff.mp (exact.1.mpr acyclic)).2
  have ghost := sources "ghost" "a" ((edges _ _).mpr ⟨rfl, rfl⟩) ((declared _).mpr rfl)
  simp [declared] at ghost

end AtomrAgents.Dag
