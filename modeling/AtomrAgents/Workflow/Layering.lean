import AtomrAgents.Workflow.Dag

set_option autoImplicit false

namespace AtomrAgents.Dag

variable {S : Type}

abbrev Depths := Std.ExtTreeMap StepId Nat compare

def deepen (dag : Dag S) (depth : Depths) (s : StepId) : Depths :=
  match dag.edges[s]? with
  | some succs =>
    let cur := depth[s]?.getD 0
    succs.foldl (fun depth n => depth.insert n (max (cur + 1) (depth[n]?.getD 0))) depth
  | none => depth

def depths (dag : Dag S) (order : List StepId) : Depths :=
  order.foldl dag.deepen (order.foldl (fun depth s => depth.insert s 0) ∅)

-- A missing depth or layer would panic; `depths_get` and `depth_le` rule both out.
def layered (dag : Dag S) (order : List StepId) : List (List StepId) :=
  let depth := dag.depths order
  let maxD := (depth.toList.map Prod.snd).max?.getD 0
  order.foldl (fun layers s => layers.modify (depth[s]?.getD 0) (· ++ [s]))
    (List.replicate (maxD + 1) [])

theorem deepen_keeps (dag : Dag S) (depth : Depths) (s t : StepId) (known : t ∈ depth) :
    t ∈ dag.deepen depth s := by
  have inserted (cur : Nat) (succs : List StepId) (depth : Depths) (known : t ∈ depth) :
      t ∈ succs.foldl (fun depth n => depth.insert n (max (cur + 1) (depth[n]?.getD 0))) depth := by
    induction succs generalizing depth with
    | nil => exact known
    | cons n rest ih =>
      apply ih
      rw [Std.ExtTreeMap.mem_insert]
      exact .inr known
  unfold deepen
  split
  · exact inserted _ _ depth known
  · exact known

theorem mem_zeros {s : StepId} (order : List StepId) (depth : Depths) (known : s ∈ order ∨ s ∈ depth) :
    s ∈ order.foldl (fun depth s => depth.insert s 0) depth := by
  induction order generalizing depth with
  | nil => simpa using known
  | cons t rest ih =>
    apply ih
    rw [Std.ExtTreeMap.mem_insert]
    rcases known with known | known
    · rcases List.mem_cons.mp known with rfl | tail
      · exact .inr (.inl (by simp))
      · exact .inl tail
    · exact .inr (.inr known)

theorem depths_get (dag : Dag S) (order : List StepId) (s : StepId) (member : s ∈ order) :
    s ∈ dag.depths order := by
  have deepened (order : List StepId) (depth : Depths) (known : s ∈ depth) :
      s ∈ order.foldl dag.deepen depth := by
    induction order generalizing depth with
    | nil => exact known
    | cons t rest ih => exact ih _ (dag.deepen_keeps depth t s known)
  exact deepened order _ (mem_zeros order ∅ (.inl member))

theorem depth_le (depth : Depths) (s : StepId) :
    depth[s]?.getD 0 ≤ (depth.toList.map Prod.snd).max?.getD 0 := by
  cases found : depth[s]? with
  | none => exact Nat.zero_le _
  | some d =>
    rw [← Std.ExtTreeMap.mem_toList_iff_getElem?_eq_some] at found
    have member : d ∈ depth.toList.map Prod.snd := List.mem_map_of_mem found
    cases top : (depth.toList.map Prod.snd).max? with
    | none => simp [List.max?_eq_none_iff.mp top] at member
    | some m => exact (List.max?_eq_some_iff.mp top).2 d member

theorem modify_flatten_perm (layers : List (List StepId)) (i : Nat) (s : StepId)
    (inside : i < layers.length) :
    (layers.modify i (· ++ [s])).flatten.Perm (layers.flatten ++ [s]) := by
  induction layers generalizing i with
  | nil => simp at inside
  | cons layer rest ih =>
    cases i with
    | zero =>
      have swap : ([s] ++ rest.flatten).Perm (rest.flatten ++ [s]) := List.perm_append_comm
      simpa using swap.append_left layer
    | succ i => simpa using (ih i (by simpa using inside)).append_left layer

theorem layered_spec (dag : Dag S) (order : List StepId) :
    (dag.layered order).flatten.Perm order ∧ dag.layered order ≠ [] := by
  have fold (place : StepId → Nat) (order : List StepId) (layers : List (List StepId))
      (inside : ∀ s ∈ order, place s < layers.length) :
      (order.foldl (fun layers s => layers.modify (place s) (· ++ [s])) layers).flatten.Perm
          (layers.flatten ++ order) ∧
        (order.foldl (fun layers s => layers.modify (place s) (· ++ [s])) layers).length =
          layers.length := by
    induction order generalizing layers with
    | nil => simp
    | cons s rest ih =>
      obtain ⟨perm, length⟩ := ih (layers.modify (place s) (· ++ [s]))
        (fun t member => by simpa using inside t (List.mem_cons_of_mem _ member))
      refine ⟨perm.trans ?_, by simpa using length⟩
      simpa using (modify_flatten_perm layers _ s (inside s (by simp))).append_right rest
  let depth := dag.depths order
  obtain ⟨perm, length⟩ := fold (fun s => depth[s]?.getD 0) order
    (List.replicate ((depth.toList.map Prod.snd).max?.getD 0 + 1) [])
    (fun s _ => by simpa using Nat.lt_succ_of_le (depth_le depth s))
  refine ⟨perm.trans (by simp), ?_⟩
  intro empty
  have none : (dag.layered order).length = 0 := by simp [empty]
  rw [show (dag.layered order).length = _ from length] at none
  simp at none

theorem layered_perm (dag : Dag S) (order : List StepId) : (dag.layered order).flatten.Perm order :=
  (dag.layered_spec order).1

theorem layered_nodup {dag : Dag S} {order : List StepId} (sorted : dag.topoSort = .ok order) :
    (dag.layered order).flatten.Nodup :=
  (dag.layered_perm order).nodup_iff.mpr (topoSort_nodup sorted)

theorem mem_layered {dag : Dag S} {order : List StepId} (sorted : dag.topoSort = .ok order)
    (s : StepId) : s ∈ (dag.layered order).flatten ↔ s ∈ dag.steps := by
  rw [(dag.layered_perm order).mem_iff, mem_topoSort sorted]

theorem layer_declared {dag : Dag S} {order : List StepId} (sorted : dag.topoSort = .ok order)
    {layer : List StepId} (member : layer ∈ dag.layered order) : ∀ s ∈ layer, s ∈ dag.steps :=
  fun s inside => (mem_layered sorted s).mp (List.mem_flatten.mpr ⟨layer, member, inside⟩)

theorem layer_unique {layers : List (List StepId)} (distinct : layers.flatten.Nodup) {i j : Nat}
    {layer layer' : List StepId} (first : layers[i]? = some layer) (second : layers[j]? = some layer')
    (different : i ≠ j) {s : StepId} (member : s ∈ layer) : s ∉ layer' := by
  obtain ⟨inside, rfl⟩ := List.getElem?_eq_some_iff.mp first
  obtain ⟨inside', rfl⟩ := List.getElem?_eq_some_iff.mp second
  have disjoint := List.pairwise_iff_getElem.mp (List.nodup_flatten.mp distinct).2
  rcases Nat.lt_or_gt_of_ne different with before | after
  · exact fun member' => disjoint i j inside inside' before member member'
  · exact fun member' => disjoint j i inside' inside after member' member

end AtomrAgents.Dag
