import AtomrAgents.Workflow.Interrupt
import AtomrAgents.Workflow.Layering
import AtomrAgents.Workflow.SortExactness
import AtomrAgents.Workflow.StateRunner

set_option autoImplicit false

namespace AtomrAgents

open Shared

namespace Dag

variable {S : Type} {dag : Dag S} {order front rest : List StepId} {depth : Depths} {s x : StepId}

-- The indexing of the source: `none` where `depth[s]` or `layers[depth[s]]` panics.
def deepenIndexed (dag : Dag S) (depth : Depths) (s : StepId) : Option Depths :=
  match dag.edges[s]? with
  | some succs => do
    let cur ← depth[s]?
    return succs.foldl (fun depth n => depth.insert n (max (cur + 1) (depth[n]?.getD 0))) depth
  | none => some depth

def placeIndexed (depth : Depths) (layers : List (List StepId)) (s : StepId) :
    Option (List (List StepId)) := do
  let d ← depth[s]?
  if d < layers.length then some (layers.modify d (· ++ [s])) else none

def layeredIndexed (dag : Dag S) (order : List StepId) : Option (List (List StepId)) := do
  let depth ← order.foldlM dag.deepenIndexed (order.foldl (fun depth s => depth.insert s 0) ∅)
  let maxD := (depth.toList.map Prod.snd).max?.getD 0
  order.foldlM (placeIndexed depth) (List.replicate (maxD + 1) [])

theorem deepenIndexed_eq (dag : Dag S) (known : s ∈ depth) :
    dag.deepenIndexed depth s = some (dag.deepen depth s) := by
  rw [Std.ExtTreeMap.mem_iff_isSome_getElem?, Option.isSome_iff_exists] at known
  obtain ⟨cur, found⟩ := known
  unfold deepenIndexed deepen
  cases dag.edges[s]? <;> simp [found]

theorem foldlM_deepenIndexed (dag : Dag S) (order : List StepId) (depth : Depths)
    (known : ∀ s ∈ order, s ∈ depth) :
    order.foldlM dag.deepenIndexed depth = some (order.foldl dag.deepen depth) := by
  induction order generalizing depth with
  | nil => rfl
  | cons s rest ih =>
    rw [List.foldlM_cons, deepenIndexed_eq dag (known s List.mem_cons_self)]
    exact ih _ fun t member => dag.deepen_keeps depth s t (known t (List.mem_cons_of_mem s member))

theorem foldlM_placeIndexed (depth : Depths) (order : List StepId) (layers : List (List StepId))
    (known : ∀ s ∈ order, s ∈ depth) (inside : ∀ s ∈ order, depth[s]?.getD 0 < layers.length) :
    order.foldlM (placeIndexed depth) layers =
      some (order.foldl (fun layers s => layers.modify (depth[s]?.getD 0) (· ++ [s])) layers) := by
  induction order generalizing layers with
  | nil => rfl
  | cons s rest ih =>
    have here := known s List.mem_cons_self
    rw [Std.ExtTreeMap.mem_iff_isSome_getElem?, Option.isSome_iff_exists] at here
    obtain ⟨d, found⟩ := here
    have within := inside s List.mem_cons_self
    rw [found, Option.getD_some] at within
    have placed : placeIndexed depth layers s = some (layers.modify d (· ++ [s])) := by
      simp [placeIndexed, found, within]
    rw [List.foldlM_cons, List.foldl_cons, placed, found, Option.getD_some]
    apply ih
    · exact fun t member => known t (List.mem_cons_of_mem s member)
    · intro t member
      rw [List.length_modify]
      exact inside t (List.mem_cons_of_mem s member)

theorem layeredIndexed_eq (dag : Dag S) (order : List StepId) :
    dag.layeredIndexed order = some (dag.layered order) := by
  have deepened := dag.foldlM_deepenIndexed order (order.foldl (fun depth s => depth.insert s 0) ∅)
    fun s member => mem_zeros order ∅ (.inl member)
  rw [layeredIndexed, deepened]
  apply foldlM_placeIndexed (dag.depths order)
  · exact fun s member => dag.depths_get order s member
  · intro s _
    rw [List.length_replicate]
    exact Nat.lt_succ_of_le (depth_le (dag.depths order) s)

theorem deepen_get (dag : Dag S) (depth : Depths) (s n : StepId) :
    (dag.deepen depth s)[n]?.getD 0 =
      if n ∈ dag.edges[s]?.getD [] then max (depth[s]?.getD 0 + 1) (depth[n]?.getD 0)
      else depth[n]?.getD 0 := by
  have raised (cur : Nat) (succs : List StepId) (depth : Depths) :
      (succs.foldl (fun depth n => depth.insert n (max (cur + 1) (depth[n]?.getD 0))) depth)[n]?.getD 0 =
        if n ∈ succs then max (cur + 1) (depth[n]?.getD 0) else depth[n]?.getD 0 := by
    induction succs generalizing depth with
    | nil => simp
    | cons t succs ih =>
      rw [List.foldl_cons, ih]
      by_cases same : t = n
      · simp [same]
      · simp [Std.ExtTreeMap.getElem?_insert, same, Ne.symm same]
  unfold deepen
  cases dag.edges[s]? with
  | none => simp
  | some succs => exact raised _ succs depth

theorem deepen_edge {n : StepId} (edge : dag.Edge s n) :
    (dag.deepen depth s)[n]?.getD 0 = max (depth[s]?.getD 0 + 1) (depth[n]?.getD 0) :=
  (dag.deepen_get depth s n).trans (if_pos edge)

theorem deepen_other {n : StepId} (other : ¬ dag.Edge s n) :
    (dag.deepen depth s)[n]?.getD 0 = depth[n]?.getD 0 :=
  (dag.deepen_get depth s n).trans (if_neg other)

theorem zeros_get (order : List StepId) (depth : Depths) (zero : depth[s]?.getD 0 = 0) :
    (order.foldl (fun depth s => depth.insert s 0) depth)[s]?.getD 0 = 0 := by
  induction order generalizing depth with
  | nil => exact zero
  | cons t rest ih =>
    apply ih
    rw [Std.ExtTreeMap.getElem?_insert]
    split
    · rfl
    · exact zero

structure Deepened (dag : Dag S) (front : List StepId) (depth : StepId → Nat) : Prop where
  increases : ∀ a ∈ front, ∀ s, dag.Edge a s → depth a < depth s
  reached : ∀ s, depth s ≠ 0 → ∃ a ∈ front, dag.Edge a s ∧ depth s = depth a + 1

theorem Deepened.step (deepened : dag.Deepened front (depth[·]?.getD 0))
    (first : DependenciesFirst dag.Edge (front ++ x :: rest)) (fresh : x ∉ front) :
    dag.Deepened (front ++ [x]) ((dag.deepen depth x)[·]?.getD 0) := by
  have final (a : StepId) (member : a = x ∨ a ∈ front) :
      (dag.deepen depth x)[a]?.getD 0 = depth[a]?.getD 0 := deepen_other (first.not_back fresh member)
  constructor
  · intro a member s edge
    rw [List.mem_append, List.mem_singleton, or_comm] at member
    rw [final a member]
    rcases member with rfl | before
    · rw [deepen_edge edge]
      omega
    · have less := deepened.increases a before s edge
      by_cases again : dag.Edge x s
      · rw [deepen_edge again]
        omega
      · rwa [deepen_other again]
  · intro s positive
    have earlier (same : (dag.deepen depth x)[s]?.getD 0 = depth[s]?.getD 0) :
        ∃ a ∈ front ++ [x], dag.Edge a s ∧
          (dag.deepen depth x)[s]?.getD 0 = (dag.deepen depth x)[a]?.getD 0 + 1 := by
      rw [same] at positive
      obtain ⟨a, before, edge, next⟩ := deepened.reached s positive
      refine ⟨a, List.mem_append_left _ before, edge, ?_⟩
      rw [same, final a (.inr before), next]
    by_cases edge : dag.Edge x s
    · have value : (dag.deepen depth x)[s]?.getD 0 = _ := deepen_edge edge
      rcases Nat.le_total (depth[s]?.getD 0) (depth[x]?.getD 0 + 1) with low | high
      · refine ⟨x, by simp, edge, ?_⟩
        rw [value, final x (.inl rfl), Nat.max_eq_left low]
      · rw [Nat.max_eq_right high] at value
        exact earlier value
    · exact earlier (deepen_other edge)

theorem depths_deepened (sorted : dag.topoSort = .ok order) :
    dag.Deepened order ((dag.depths order)[·]?.getD 0) := by
  have fold (front rest : List StepId) (depth : Depths) (deepened : dag.Deepened front (depth[·]?.getD 0))
      (split : order = front ++ rest) : dag.Deepened order ((rest.foldl dag.deepen depth)[·]?.getD 0) := by
    induction rest generalizing front depth with
    | nil =>
      rw [List.append_nil] at split
      rwa [split]
    | cons x rest ih =>
      have fresh : x ∉ front := by
        have nodup := topoSort_nodup sorted
        rw [split] at nodup
        exact fun member => (List.nodup_append'.mp nodup).2.2 member List.mem_cons_self
      apply ih (front ++ [x])
      · exact deepened.step (split ▸ topoSort_dependenciesFirst sorted) fresh
      · rw [split, List.append_assoc, List.singleton_append]
  apply fold [] order _ _ rfl
  constructor
  · rintro a ⟨⟩
  · intro s positive
    exact absurd (zeros_get order ∅ rfl) positive

theorem longestPath_depths (sorted : dag.topoSort = .ok order)
    (declared : ∀ a b, dag.Edge a b → a ∈ dag.steps ∧ b ∈ dag.steps) (s : StepId) :
    LongestPath dag.Edge s ((dag.depths order)[s]?.getD 0) := by
  have deepened := depths_deepened sorted
  apply longestPath_of_depth
  · intro a x edge
    exact deepened.increases a ((mem_topoSort sorted a).mpr (declared a x edge).1) x edge
  · intro x positive
    obtain ⟨a, -, edge, next⟩ := deepened.reached x positive
    exact ⟨a, edge, next⟩

theorem layered_getElem (dag : Dag S) (order : List StepId) (i : Nat) :
    (dag.layered order)[i]? =
      if i ≤ ((dag.depths order).toList.map Prod.snd).max?.getD 0 then
        some (order.filter fun s => (dag.depths order)[s]?.getD 0 = i)
      else none := by
  have fold (place : StepId → Nat) (order : List StepId) (layers : List (List StepId)) :
      (order.foldl (fun layers s => layers.modify (place s) (· ++ [s])) layers)[i]? =
        layers[i]?.map (· ++ order.filter (place · = i)) := by
    induction order generalizing layers with
    | nil => simp
    | cons s rest ih =>
      rw [List.foldl_cons, ih, List.getElem?_modify]
      by_cases here : place s = i <;> cases layers[i]? <;> simp [here]
  rw [layered, fold fun s => (dag.depths order)[s]?.getD 0, List.getElem?_replicate]
  split <;> split <;> first | rfl | omega

theorem mem_layer {layer : List StepId} {i : Nat} (found : (dag.layered order)[i]? = some layer) :
    s ∈ layer ↔ s ∈ order ∧ (dag.depths order)[s]?.getD 0 = i := by
  rw [layered_getElem] at found
  split at found
  · cases found
    rw [List.mem_filter, decide_eq_true_eq]
  · cases found

theorem exists_of_layer (sorted : dag.topoSort = .ok order) (some : s ∈ dag.steps)
    (declared : ∀ a b, dag.Edge a b → a ∈ dag.steps ∧ b ∈ dag.steps) {layer : List StepId} {i : Nat}
    (found : (dag.layered order)[i]? = .some layer) : layer ≠ [] := by
  have reached (x : StepId) (positive : (dag.depths order)[x]?.getD 0 ≠ 0) :
      ∃ a, dag.Edge a x ∧ (dag.depths order)[x]?.getD 0 = (dag.depths order)[a]?.getD 0 + 1 := by
    obtain ⟨a, -, edge, next⟩ := (depths_deepened sorted).reached x positive
    exact ⟨a, edge, next⟩
  have deepest : ∃ x ∈ dag.steps, i ≤ (dag.depths order)[x]?.getD 0 := by
    rw [layered_getElem] at found
    split at found
    · next below =>
      cases top : ((dag.depths order).toList.map Prod.snd).max? with
      | none =>
        rw [top] at below
        exact ⟨s, some, Nat.le_trans below (Nat.zero_le _)⟩
      | some m =>
        rw [top, Option.getD_some] at below
        obtain ⟨⟨x, _⟩, entry, rfl⟩ := List.mem_map.mp (List.max?_mem top)
        rw [Std.ExtTreeMap.mem_toList_iff_getElem?_eq_some] at entry
        by_cases zero : i = 0
        · exact ⟨s, some, by omega⟩
        · have value : (dag.depths order)[x]?.getD 0 = _ := congrArg (Option.getD · 0) entry
          rw [Option.getD_some] at value
          obtain ⟨a, edge, -⟩ := reached x (by omega)
          exact ⟨x, (declared a x edge).2, by omega⟩
    · cases found
  obtain ⟨x, known, below⟩ := deepest
  obtain ⟨y, here, source⟩ := exists_depth reached below
  have step : y ∈ dag.steps := by
    rcases source with rfl | ⟨z, edge⟩
    · exact known
    · exact (declared y z edge).1
  exact List.ne_nil_of_mem ((mem_layer found).mpr ⟨(mem_topoSort sorted y).mpr step, here⟩)

-- What the layers are for: a step's layer is how long the longest path to it is.
structure LayersByDepth (dag : Dag S) (layers : List (List StepId)) : Prop where
  once : layers.flatten.Perm dag.steps.keys
  longest : ∀ (i : Nat) layer, layers[i]? = some layer → ∀ s ∈ layer, LongestPath dag.Edge s i
  upward : ∀ (i j : Nat) layer layer' a b, layers[i]? = some layer → layers[j]? = some layer' →
    a ∈ layer → b ∈ layer' → dag.Edge a b → i < j
  filled : ∀ layer ∈ layers, layer ≠ []

theorem layered_byDepth (sorted : dag.topoSort = .ok order) (some : ∃ s, s ∈ dag.steps)
    (declared : ∀ a b, dag.Edge a b → a ∈ dag.steps ∧ b ∈ dag.steps) :
    dag.LayersByDepth (dag.layered order) where
  once := (dag.layered_perm order).trans (topoSort_perm sorted)
  longest := by
    intro i layer found s member
    rw [← ((mem_layer found).mp member).2]
    exact longestPath_depths sorted declared s
  upward := by
    intro i j layer layer' a b found found' member member' edge
    obtain ⟨put, low⟩ := (mem_layer found).mp member
    obtain ⟨-, high⟩ := (mem_layer found').mp member'
    rw [← low, ← high]
    exact (depths_deepened sorted).increases a put b edge
  filled := by
    intro layer member
    obtain ⟨s, some⟩ := some
    obtain ⟨i, found⟩ := List.mem_iff_getElem?.mp member
    exact exists_of_layer sorted some declared found

end Dag

def StatefulRunner.layeredIndexed {W : Type} (r : StatefulRunner W) (order : List StepId) :
    Option (List (List StepId)) := r.dag.layeredIndexed order

def Interruptible.layeredIndexed {W : Type} (r : Interruptible W) (order : List StepId) :
    Option (List (List StepId)) := r.dag.layeredIndexed order

theorem Dag.layering_exact {S : Type} (dag : Dag S) :
    ((∃ s, s ∈ dag.steps) → (∀ a b, dag.Edge a b → a ∈ dag.steps ∧ b ∈ dag.steps) → Acyclic dag.Edge →
      ∃ order layers, dag.topoSort = .ok order ∧ dag.layeredIndexed order = some layers ∧
        dag.LayersByDepth layers) ∧
    ∀ {W W' : Type} (runner : StatefulRunner W) (interruptible : Interruptible W'),
      (∀ s, s ∈ runner.dag.steps ↔ s ∈ interruptible.dag.steps) →
      runner.dag.edges = interruptible.dag.edges →
        runner.dag.topoSort = interruptible.dag.topoSort ∧
        ∀ order, runner.layeredIndexed order = interruptible.layeredIndexed order := by
  constructor
  · intro some declared acyclic
    have steps : Acyclic dag.StepEdge := acyclic.mono fun _ _ edge => edge.2.2
    obtain ⟨order, sorted⟩ := dag.topoSort_full steps fun a b edge _ => (declared a b edge).1
    exact ⟨order, dag.layered order, sorted, dag.layeredIndexed_eq order, layered_byDepth sorted some declared⟩
  · intro W W' runner interruptible steps edges
    refine ⟨topoSort_congr steps edges, fun order => ?_⟩
    rw [StatefulRunner.layeredIndexed, Interruptible.layeredIndexed, layeredIndexed_eq, layeredIndexed_eq]
    unfold layered depths deepen
    rw [edges]

def Dag.oneEdge : Dag Unit := (((Dag.builder "a").step "a" ()).step "b" ()).edge "a" "b"

theorem Dag.oneEdge_layering : ∃ order layers, oneEdge.topoSort = .ok order ∧
    oneEdge.layeredIndexed order = some layers ∧ oneEdge.LayersByDepth layers := by
  have steps (s : StepId) : s ∈ oneEdge.steps ↔ "b" = s ∨ "a" = s := by
    simp [oneEdge, builder, step, edge]
  have edges (a b : StepId) : oneEdge.Edge a b ↔ "a" = a ∧ b = "b" := by
    by_cases source : "a" = a
    · simp [Edge, oneEdge, builder, step, edge, ← source]
    · simp [Edge, oneEdge, builder, step, edge, source]
  apply (layering_exact oneEdge).1
  · exact ⟨"a", (steps "a").mpr (.inr rfl)⟩
  · intro a b edge
    obtain ⟨source, target⟩ := (edges a b).mp edge
    exact ⟨(steps a).mpr (.inr source), (steps b).mpr (.inl target.symm)⟩
  · apply acyclic_of_rank fun s => if s = "b" then 1 else 0
    intro a b edge
    obtain ⟨rfl, rfl⟩ := (edges a b).mp edge
    decide

end AtomrAgents
