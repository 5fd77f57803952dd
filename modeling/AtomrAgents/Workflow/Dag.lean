import AtomrAgents.Core.Value
import Mathlib.Data.List.Sort
import Mathlib.Order.Basic

set_option autoImplicit false

namespace AtomrAgents

abbrev StepId := String

-- `BTreeMap<StepId, S>` and `HashMap<StepId, Vec<StepId>>`; the order in which the edges are
-- listed has no bearing on the indegrees counted from them.
structure Dag (S : Type) where
  steps : Std.ExtTreeMap StepId S compare
  edges : Std.ExtTreeMap StepId (List StepId) compare
  entry : StepId

abbrev Indegrees := Std.ExtTreeMap StepId Nat compare

namespace Dag

variable {S : Type}

def builder (entry : StepId) : Dag S := { steps := ∅, edges := ∅, entry }

def step (dag : Dag S) (id : StepId) (step : S) : Dag S :=
  { dag with steps := dag.steps.insert id step }

def edge (dag : Dag S) (source target : StepId) : Dag S :=
  { dag with edges := dag.edges.insert source ((dag.edges[source]?.getD []) ++ [target]) }

theorem exists_step (dag : Dag S) {id : StepId} (member : id ∈ dag.steps) :
    ∃ step, dag.steps[id]? = some step := by
  rwa [Std.ExtTreeMap.mem_iff_isSome_getElem?, Option.isSome_iff_exists] at member

-- `if let Some(d) = indeg.get_mut(to) { *d += 1 }`
def countEdge (indeg : Indegrees) (target : StepId) : Indegrees :=
  match indeg[target]? with
  | some d => indeg.insert target (d + 1)
  | none => indeg

def indegrees (dag : Dag S) : Indegrees :=
  dag.edges.toList.foldl (fun indeg entry => entry.2.foldl countEdge indeg)
    (dag.steps.map (fun _ _ => 0))

def release (work : Indegrees × List StepId) (s : StepId) : Indegrees × List StepId :=
  match work.1[s]? with
  | some d => (work.1.insert s (d - 1), if d - 1 = 0 then work.2 ++ [s] else work.2)
  | none => work

-- The `while let Some(n) = queue.pop()` loop. `fuel` bounds the number of pops; the steps
-- of the graph are enough of it (`topoLoop_drained`).
def topoLoop (dag : Dag S) : Nat → Indegrees → List StepId → List StepId → List StepId
  | 0, _, _, out => out
  | fuel + 1, indeg, queue, out =>
    match queue.getLast? with
    | none => out
    | some n =>
      let (indeg, queue) := (dag.edges[n]?.getD []).foldl release (indeg, queue.dropLast)
      dag.topoLoop fuel indeg (queue.insertionSort (· ≤ ·)) (out ++ [n])

def roots (indeg : Indegrees) : List StepId :=
  ((indeg.toList.filter (fun entry => entry.2 = 0)).map Prod.fst).insertionSort (· ≤ ·)

def topoSort (dag : Dag S) : Except AgentError (List StepId) :=
  let indeg := dag.indegrees
  let out := dag.topoLoop dag.steps.size indeg (roots indeg) []
  if out.length ≠ dag.steps.size then .error (.workflow "dag has a cycle") else .ok out

end Dag

end AtomrAgents

namespace AtomrAgents.Dag

variable {S : Type}

theorem countEdge_get (indeg : Indegrees) (target s : StepId) :
    (countEdge indeg target)[s]? = indeg[s]?.map (· + if target = s then 1 else 0) := by
  unfold countEdge
  by_cases same : target = s
  · subst same
    cases found : indeg[target]? <;> simp [found]
  · cases found : indeg[target]? <;>
      simp [Std.ExtTreeMap.getElem?_insert, same]

theorem countEdges_get (indeg : Indegrees) (targets : List StepId) (s : StepId) :
    (targets.foldl countEdge indeg)[s]? = indeg[s]?.map (· + targets.count s) := by
  induction targets generalizing indeg with
  | nil => simp
  | cons target rest ih =>
    rw [List.foldl_cons, ih, countEdge_get, Option.map_map]
    congr 1
    funext d
    by_cases same : target = s
    · simp [same, Nat.add_comm, Nat.add_left_comm]
    · simp [same]

def pending (dag : Dag S) (out : List StepId) (s : StepId) : Nat :=
  ((dag.edges.toList.filter (fun entry => entry.1 ∉ out)).flatMap Prod.snd).count s

theorem indegrees_get (dag : Dag S) (s : StepId) :
    dag.indegrees[s]? = if s ∈ dag.steps then some (dag.pending [] s) else none := by
  have fold (entries : List (StepId × List StepId)) (indeg : Indegrees) :
      (entries.foldl (fun indeg entry => entry.2.foldl countEdge indeg) indeg)[s]? =
        indeg[s]?.map (· + (entries.flatMap Prod.snd).count s) := by
    induction entries generalizing indeg with
    | nil => simp
    | cons entry rest ih =>
      rw [List.foldl_cons, ih, countEdges_get, Option.map_map]
      congr 1
      funext d
      simp [Nat.add_assoc]
  rw [indegrees, fold, Std.ExtTreeMap.getElem?_map]
  by_cases member : s ∈ dag.steps
  · simp [pending, member]
  · simp [member]

theorem filter_snoc (entries : List (StepId × List StepId)) (out : List StepId) (n s : StepId)
    (fresh : n ∉ out) (targets : List StepId)
    (distinct : (entries.map Prod.fst).Nodup)
    (found : ∀ ts, (n, ts) ∈ entries → ts = targets)
    (absent : n ∉ entries.map Prod.fst → targets = []) :
    ((entries.filter (fun entry => entry.1 ∉ out)).flatMap Prod.snd).count s =
      ((entries.filter (fun entry => entry.1 ∉ out ++ [n])).flatMap Prod.snd).count s +
        targets.count s := by
  induction entries with
  | nil => simp [absent (by simp)]
  | cons entry rest ih =>
    obtain ⟨source, ts⟩ := entry
    rw [List.map_cons, List.nodup_cons] at distinct
    by_cases same : source = n
    · subst same
      obtain rfl : ts = targets := found ts (by simp)
      have untouched : rest.filter (fun entry => entry.1 ∉ out) =
          rest.filter (fun entry => entry.1 ∉ out ++ [source]) := by
        apply List.filter_congr
        intro entry member
        have other : entry.1 ≠ source := by
          intro equal
          exact distinct.1 (List.mem_map.mpr ⟨entry, member, equal⟩)
        simp [other]
      rw [List.filter_cons_of_pos (by simpa using fresh), List.filter_cons_of_neg (by simp),
        untouched, List.flatMap_cons, List.count_append, Nat.add_comm]
    · have tail := ih distinct.2 (fun ts member => found ts (by simp [member]))
        (fun missing => absent (by simp [Ne.symm same, missing]))
      by_cases gone : source ∈ out
      · simpa [gone] using tail
      · simp [gone, same] at tail ⊢
        omega

theorem pending_snoc (dag : Dag S) (out : List StepId) (n s : StepId) (fresh : n ∉ out) :
    dag.pending out s = dag.pending (out ++ [n]) s + (dag.edges[n]?.getD []).count s := by
  apply filter_snoc _ _ _ _ fresh
  · rw [Std.ExtTreeMap.map_fst_toList_eq_keys]
    exact Std.ExtTreeMap.nodup_keys
  · intro ts member
    rw [Std.ExtTreeMap.mem_toList_iff_getElem?_eq_some] at member
    simp [member]
  · intro missing
    rw [Std.ExtTreeMap.map_fst_toList_eq_keys, Std.ExtTreeMap.mem_keys] at missing
    simp [missing]

structure Released (succ : List StepId) (indeg : Indegrees) (queue : List StepId)
    (work : Indegrees × List StepId) : Prop where
  degrees : ∀ s, work.1[s]? = indeg[s]?.map (· - succ.count s)
  queued : ∃ added, work.2 = queue ++ added ∧ added.Nodup ∧
    ∀ s, s ∈ added ↔ s ∈ succ ∧ indeg[s]? = some (succ.count s)

section Release

variable {t : StepId} {rest queue : List StepId} {indeg : Indegrees} {work : Indegrees × List StepId}

theorem count_cons_of_unknown (found : indeg[t]? = none) {s : StepId} {d : Nat}
    (known : indeg[s]? = some d) : (t :: rest).count s = rest.count s := by
  rw [List.count_cons_of_ne]
  rintro rfl
  simp [found] at known

theorem Released.cons_unknown (released : Released rest indeg queue work) (found : indeg[t]? = none) :
    Released (t :: rest) indeg queue work := by
  obtain ⟨degrees, added, queued, distinct, exact⟩ := released
  refine ⟨fun s => ?_, added, queued, distinct, fun s => ?_⟩
  · rw [degrees s]
    cases known : indeg[s]? with
    | none => rfl
    | some d => simp [count_cons_of_unknown found known]
  · rw [exact s]
    constructor
    · rintro ⟨member, known⟩
      rw [count_cons_of_unknown found known]
      exact ⟨List.mem_cons_of_mem _ member, known⟩
    · rintro ⟨member, known⟩
      have other : s ≠ t := by
        rintro rfl
        simp [found] at known
      rw [count_cons_of_unknown found known] at known
      exact ⟨(List.mem_cons.mp member).resolve_left other, known⟩

theorem degree_insert (indeg : Indegrees) (t s : StepId) (d : Nat) :
    (indeg.insert t d)[s]? = if t = s then some d else indeg[s]? := by
  simp [Std.ExtTreeMap.getElem?_insert]

theorem Released.cons_known {d : Nat} (found : indeg[t]? = some d) (positive : rest.count t + 1 ≤ d)
    (released : Released rest (indeg.insert t (d - 1)) (if d - 1 = 0 then queue ++ [t] else queue) work) :
    Released (t :: rest) indeg queue work := by
  obtain ⟨degrees, added, queued, distinct, exact⟩ := released
  have others (s : StepId) (other : t ≠ s) : s ∈ added ↔
      s ∈ t :: rest ∧ indeg[s]? = some ((t :: rest).count s) := by
    rw [exact s, degree_insert, if_neg other, List.count_cons_of_ne other]
    simp [Ne.symm other]
  constructor
  · intro s
    rw [degrees s, degree_insert]
    by_cases same : t = s
    · subst same
      simp [found]
      omega
    · simp [same]
  by_cases last : d - 1 = 0
  · have done : rest.count t = 0 := by omega
    have notAdded : t ∉ added := fun member => List.count_eq_zero.mp done ((exact t).mp member).1
    refine ⟨t :: added, by rw [queued]; simp [last], List.nodup_cons.mpr ⟨notAdded, distinct⟩, ?_⟩
    intro s
    by_cases same : t = s
    · subst same
      simp [found]
      omega
    · rw [List.mem_cons, others s same]
      simp [Ne.symm same]
  · refine ⟨added, by rw [queued, if_neg last], distinct, fun s => ?_⟩
    by_cases same : t = s
    · subst same
      rw [exact t, degree_insert]
      simp [found]
      constructor
      · rintro ⟨member, _⟩
        have := List.count_pos_iff.mpr member
        omega
      · intro known
        have : rest.count t ≠ 0 := by omega
        exact ⟨by simpa [List.count_eq_zero] using this, by omega⟩
    · exact others s same

end Release

theorem release_spec (succ : List StepId) (indeg : Indegrees) (queue : List StepId)
    (enough : ∀ s d, indeg[s]? = some d → succ.count s ≤ d) :
    Released succ indeg queue (succ.foldl release (indeg, queue)) := by
  induction succ generalizing indeg queue with
  | nil => exact ⟨by simp, by simp⟩
  | cons t rest ih =>
    rw [List.foldl_cons]
    cases found : indeg[t]? with
    | none =>
      have same : release (indeg, queue) t = (indeg, queue) := by simp [release, found]
      rw [same]
      apply (ih indeg queue ?_).cons_unknown found
      intro s d known
      rw [← count_cons_of_unknown found known]
      exact enough s d known
    | some d =>
      have turn : release (indeg, queue) t =
          (indeg.insert t (d - 1), if d - 1 = 0 then queue ++ [t] else queue) := by
        simp [release, found]
      have positive := enough t d found
      rw [List.count_cons_self] at positive
      rw [turn]
      apply Released.cons_known found positive (ih _ _ ?_)
      intro s d' known
      rw [degree_insert] at known
      by_cases same : t = s
      · subst same
        simp at known
        omega
      · rw [if_neg same] at known
        have le := enough s d' known
        rwa [List.count_cons_of_ne same] at le

structure Sorting (dag : Dag S) (indeg : Indegrees) (queue out : List StepId) : Prop where
  nodup : (out ++ queue).Nodup
  degrees : ∀ s, indeg[s]? = if s ∈ dag.steps then some (dag.pending out s) else none
  ready : ∀ s, s ∈ out ++ queue ↔ s ∈ dag.steps ∧ dag.pending out s = 0

theorem sorting_initial (dag : Dag S) : dag.Sorting dag.indegrees (roots dag.indegrees) [] where
  nodup := by
    have keys : (dag.indegrees.toList.map Prod.fst).Nodup := by
      rw [Std.ExtTreeMap.map_fst_toList_eq_keys]
      exact Std.ExtTreeMap.nodup_keys
    rw [List.nil_append, roots, (List.perm_insertionSort _ _).nodup_iff]
    exact keys.sublist (List.filter_sublist.map _)
  degrees := dag.indegrees_get
  ready := by
    intro s
    rw [List.nil_append, roots, List.mem_insertionSort]
    have known := dag.indegrees_get s
    by_cases member : s ∈ dag.steps
    · rw [if_pos member] at known
      simp [known, member, eq_comm]
    · rw [if_neg member] at known
      simp [known, member]

theorem sorting_step (dag : Dag S) {indeg : Indegrees} {queue out : List StepId} {n : StepId}
    (sorting : dag.Sorting indeg queue out) (last : queue.getLast? = some n) :
    let work := (dag.edges[n]?.getD []).foldl release (indeg, queue.dropLast)
    dag.Sorting work.1 (work.2.insertionSort (· ≤ ·)) (out ++ [n]) := by
  obtain ⟨nodup, degrees, ready⟩ := sorting
  have split : queue = queue.dropLast ++ [n] := by
    obtain ⟨front, rfl⟩ := List.getLast?_eq_some_iff.mp last
    simp
  have fresh : n ∉ out := by
    intro member
    rw [split, ← List.append_assoc] at nodup
    have front : n ∈ out ++ queue.dropLast := by simp [member]
    exact (List.nodup_append'.mp nodup).2.2 front (by simp)
  have drop := fun s => dag.pending_snoc out n s fresh
  obtain ⟨counts, added, queued, distinct, exact⟩ :=
    release_spec (dag.edges[n]?.getD []) indeg queue.dropLast (by
      intro s d known
      rw [degrees] at known
      split at known
      · have := drop s
        simp only [Option.some.injEq] at known
        omega
      · simp at known)
  have addedIff (s : StepId) : s ∈ added ↔
      s ∈ dag.steps ∧ dag.pending (out ++ [n]) s = 0 ∧ dag.pending out s ≠ 0 := by
    rw [exact s, degrees s, drop s, ← List.count_pos_iff]
    by_cases member : s ∈ dag.steps
    · simp only [member, if_true, Option.some.injEq, true_and]
      omega
    · simp [member]
  have perm : ((out ++ [n]) ++ (queue.dropLast ++ added)).Perm ((out ++ queue) ++ added) := by
    conv_rhs => rw [split]
    simp only [List.append_assoc, List.perm_append_left_iff]
    exact (List.perm_append_comm_assoc [n] queue.dropLast added)
  have sorted : ((out ++ [n]) ++ (queue.dropLast ++ added).insertionSort (· ≤ ·)).Perm
      ((out ++ queue) ++ added) :=
    ((List.perm_insertionSort _ _).append_left _).trans perm
  dsimp only
  rw [queued]
  refine ⟨?_, ?_, ?_⟩
  · rw [sorted.nodup_iff, List.nodup_append']
    refine ⟨nodup, distinct, ?_⟩
    intro s old new
    exact ((addedIff s).mp new).2.2 ((ready s).mp old).2
  · intro s
    rw [counts, degrees]
    split
    · have := drop s
      simp
      omega
    · rfl
  · intro s
    rw [sorted.mem_iff, List.mem_append, ready, addedIff]
    have := drop s
    constructor
    · rintro (⟨member, zero⟩ | ⟨member, zero, _⟩)
      · exact ⟨member, by omega⟩
      · exact ⟨member, zero⟩
    · rintro ⟨member, zero⟩
      by_cases before : dag.pending out s = 0
      · exact .inl ⟨member, before⟩
      · exact .inr ⟨member, zero, before⟩

theorem Sorting.length_le {dag : Dag S} {indeg : Indegrees} {queue out : List StepId}
    (sorting : dag.Sorting indeg queue out) : out.length + queue.length ≤ dag.steps.size := by
  rw [← List.length_append, ← Std.ExtTreeMap.length_keys]
  refine (List.subperm_of_subset sorting.nodup ?_).length_le
  intro s member
  rw [Std.ExtTreeMap.mem_keys]
  exact ((sorting.ready s).mp member).1

-- The loop stops with an empty queue: its fuel never runs out first.
theorem topoLoop_drained (dag : Dag S) (fuel : Nat) (indeg : Indegrees)
    (queue out : List StepId) (sorting : dag.Sorting indeg queue out)
    (enough : dag.steps.size ≤ fuel + out.length) :
    ∃ final, dag.Sorting final [] (dag.topoLoop fuel indeg queue out) := by
  induction fuel generalizing indeg queue out with
  | zero =>
    have bound := sorting.length_le
    obtain rfl : queue = [] := List.length_eq_zero_iff.mp (by omega)
    exact ⟨indeg, sorting⟩
  | succ fuel ih =>
    cases last : queue.getLast? with
    | none =>
      obtain rfl : queue = [] := List.getLast?_eq_none_iff.mp last
      exact ⟨indeg, by simpa [topoLoop] using sorting⟩
    | some n =>
      have next := ih _ _ _ (dag.sorting_step sorting last) (by simp; omega)
      simpa [topoLoop, last] using next

theorem topoSort_sorting {dag : Dag S} {order : List StepId} (sorted : dag.topoSort = .ok order) :
    (∃ final, dag.Sorting final [] order) ∧ order.length = dag.steps.size := by
  obtain ⟨final, sorting⟩ := dag.topoLoop_drained dag.steps.size _ _ _ dag.sorting_initial (by simp)
  unfold topoSort at sorted
  dsimp only at sorted
  split at sorted
  · cases sorted
  · next full =>
    cases sorted
    exact ⟨⟨final, sorting⟩, not_not.mp full⟩

theorem topoSort_perm {dag : Dag S} {order : List StepId} (sorted : dag.topoSort = .ok order) :
    order.Perm dag.steps.keys := by
  obtain ⟨⟨final, sorting⟩, full⟩ := topoSort_sorting sorted
  have nodup : order.Nodup := by simpa using sorting.nodup
  refine (List.subperm_of_subset nodup fun s member => ?_).perm_of_length_le ?_
  · rw [Std.ExtTreeMap.mem_keys]
    exact ((sorting.ready s).mp (by simpa using member)).1
  · rw [Std.ExtTreeMap.length_keys, full]

theorem topoSort_nodup {dag : Dag S} {order : List StepId} (sorted : dag.topoSort = .ok order) :
    order.Nodup :=
  (topoSort_perm sorted).nodup_iff.mpr Std.ExtTreeMap.nodup_keys

theorem mem_topoSort {dag : Dag S} {order : List StepId} (sorted : dag.topoSort = .ok order)
    (s : StepId) : s ∈ order ↔ s ∈ dag.steps := by
  rw [(topoSort_perm sorted).mem_iff, Std.ExtTreeMap.mem_keys]

theorem topoSort_congr {T : Type} {dag : Dag S} {dag' : Dag T} (steps : ∀ s, s ∈ dag.steps ↔ s ∈ dag'.steps)
    (edges : dag.edges = dag'.edges) : dag.topoSort = dag'.topoSort := by
  have zeros : dag.steps.map (fun _ _ => 0) = dag'.steps.map (fun _ _ => 0) := by
    apply Std.ExtTreeMap.ext_getElem?
    intro s
    by_cases known : s ∈ dag.steps
    · simp [known, (steps s).mp known]
    · simp [known, mt (steps s).mpr known]
  have indegrees : dag.indegrees = dag'.indegrees := by rw [Dag.indegrees, Dag.indegrees, zeros, edges]
  have size : dag.steps.size = dag'.steps.size := by
    have mapped := congrArg Std.ExtTreeMap.size zeros
    rwa [Std.ExtTreeMap.size_map, Std.ExtTreeMap.size_map] at mapped
  have loop (fuel : Nat) (indeg : Indegrees) (queue out : List StepId) :
      dag.topoLoop fuel indeg queue out = dag'.topoLoop fuel indeg queue out := by
    induction fuel generalizing indeg queue out with
    | zero => rfl
    | succ fuel ih =>
      rw [topoLoop, topoLoop, edges]
      cases queue.getLast? with
      | none => rfl
      | some n => exact ih _ _ _
  rw [topoSort, topoSort, indegrees, size, loop]

end AtomrAgents.Dag
