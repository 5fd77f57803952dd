import AtomrAgents.Observability.RunTreeNodes
import AtomrAgents.Shared.Forest

set_option autoImplicit false

namespace AtomrAgents.Observability

open Shared RunTreeBuilder JsonlTracer

def Names (envs : List EventEnvelope) (parent child : RunId) : Prop :=
  ∃ env ∈ envs, env.runId = some child ∧ env.parentRunId = some parent

-- Each run names at most one parent, no run is above itself, and the events of a run are of one kind.
structure Lawful (envs : List EventEnvelope) : Prop where
  one_parent : ∀ child p p', Names envs p child → Names envs p' child → p = p'
  acyclic : ∀ run, ¬ Relation.TransGen (Names envs) run run
  one_kind : ∀ env ∈ envs, ∀ env' ∈ envs, env.runId.isSome → env.runId = env'.runId →
    classify env.event = classify env'.event

variable {envs : List EventEnvelope} {run parent child : RunId} {node : RunNode}
  {runs : List RunId} {fuel : Nat}

theorem mem_children : child ∈ firsts id [] (childIds envs parent) ↔ Names envs parent child := by
  rw [mem_firsts, and_iff_left List.not_mem_nil, childIds, List.mem_filterMap, Names]
  refine exists_congr fun env => ?_
  rw [List.mem_filter, decide_eq_true_eq, and_assoc, and_comm (a := env.parentRunId = some parent)]

theorem mem_own {env : EventEnvelope} : env ∈ own envs run ↔ env ∈ envs ∧ env.runId = some run := by
  simp [own]

theorem mentioned_iff : ((build envs).nodes run).isSome ↔ ∃ env ∈ envs, mentions run env := by
  rw [build_nodes, Option.isSome_map, List.find?_isSome]

theorem node_eq (here : (build envs).nodes run = some node) : ∃ first, node = nodeOf envs run first := by
  rw [build_nodes, Option.map_eq_some_iff] at here
  obtain ⟨first, -, rfl⟩ := here
  exact ⟨first, rfl⟩

theorem node_runId (here : (build envs).nodes run = some node) : node.runId = run := by
  obtain ⟨first, rfl⟩ := node_eq here
  rfl

theorem node_children (here : (build envs).nodes run = some node) :
    node.children = firsts id [] (childIds envs run) := by
  obtain ⟨first, rfl⟩ := node_eq here
  rfl

theorem Names.child_known (names : Names envs parent child) : ((build envs).nodes child).isSome := by
  obtain ⟨env, member, owned, -⟩ := names
  exact mentioned_iff.mpr ⟨env, member, by simp [mentions, owned]⟩

theorem Names.parent_known (names : Names envs parent child) : ((build envs).nodes parent).isSome := by
  obtain ⟨env, member, owned, under⟩ := names
  exact mentioned_iff.mpr ⟨env, member, by simp [mentions, owned, under]⟩

theorem parent_iff (lawful : Lawful envs) (here : (build envs).nodes child = some node) :
    node.parentRunId = some parent ↔ Names envs parent child := by
  obtain ⟨first, rfl⟩ := node_eq here
  change (own envs child).findSome? EventEnvelope.parentRunId = some parent ↔ _
  constructor
  · intro found
    obtain ⟨env, member, under⟩ := List.exists_of_findSome?_eq_some found
    exact ⟨env, (mem_own.mp member).1, (mem_own.mp member).2, under⟩
  · rintro ⟨env, member, owned, under⟩
    have some : ((own envs child).findSome? EventEnvelope.parentRunId).isSome := by
      rw [List.findSome?_isSome_iff]
      exact ⟨env, mem_own.mpr ⟨member, owned⟩, by rw [under]; rfl⟩
    obtain ⟨p, found⟩ := Option.isSome_iff_exists.mp some
    obtain ⟨env', member', under'⟩ := List.exists_of_findSome?_eq_some found
    have owned' := mem_own.mp member'
    rw [found, lawful.one_parent child p parent ⟨env', owned'.1, owned'.2, under'⟩ ⟨env, member, owned, under⟩]

def forest (lawful : Lawful envs) : Forest RunId where
  nodes := (build envs).order
  children run := firsts id [] (childIds envs run)
  nodup := (build_indexed envs).nodup
  nodup_children run := nodup_firsts [] (childIds envs run)
  child_mem _ _ below := ((build_indexed envs).mem _).mpr (mem_children.mp below).child_known
  parent_mem _ _ below := ((build_indexed envs).mem _).mpr (mem_children.mp below).parent_known
  one_parent child p p' below below' := lawful.one_parent child p p' (mem_children.mp below) (mem_children.mp below')
  acyclic run := by
    simp only [mem_children]
    exact lawful.acyclic run

def Held (builder : RunTreeBuilder) (nodes : List RunNode) : Prop := ∀ n ∈ nodes, builder.nodes n.runId = some n

variable {builder : RunTreeBuilder} {n : RunNode} {nodes more : List RunNode}

theorem Held.cons (here : builder.nodes n.runId = some n) (held : Held builder nodes) : Held builder (n :: nodes) := by
  intro m member
  rcases List.mem_cons.mp member with rfl | later
  · exact here
  · exact held m later

theorem Held.append (held : Held builder nodes) (held' : Held builder more) : Held builder (nodes ++ more) :=
  fun m member => (List.mem_append.mp member).elim (held m) (held' m)

theorem Held.reverse (held : Held builder nodes) : Held builder nodes.reverse :=
  fun m member => held m (List.mem_reverse.mp member)

theorem Held.tail (held : Held builder (n :: nodes)) : Held builder nodes :=
  fun m member => held m (List.mem_cons_of_mem n member)

theorem childNodes_held (envs : List EventEnvelope) (node : RunNode) :
    Held (build envs) (childNodes (build envs) node) := by
  intro n member
  obtain ⟨child, -, here⟩ := List.mem_filterMap.mp member
  rwa [node_runId here]

theorem map_runId_filter (p : RunNode → Bool) (known : ∀ run ∈ runs, ((build envs).nodes run).isSome) :
    ((runs.filterMap (build envs).nodes).filter p).map RunNode.runId =
      runs.filter fun run => ((build envs).nodes run).any p := by
  induction runs with
  | nil => rfl
  | cons run rest ih =>
    obtain ⟨node, here⟩ := Option.isSome_iff_exists.mp (known run List.mem_cons_self)
    have later := ih fun later member => known later (List.mem_cons_of_mem run member)
    rw [List.filterMap_cons_some here, List.filter_cons, List.filter_cons, here, Option.any_some]
    split
    · rw [List.map_cons, node_runId here, later]
    · exact later

theorem map_runId_held (known : ∀ run ∈ runs, ((build envs).nodes run).isSome) :
    (runs.filterMap (build envs).nodes).map RunNode.runId = runs := by
  have all := map_runId_filter (fun _ => true) known
  rw [List.filter_true] at all
  rw [all, List.filter_eq_self]
  intro run member
  rw [Option.any_true]
  exact known run member

theorem map_runId_childNodes (here : (build envs).nodes node.runId = some node) :
    (childNodes (build envs) node).map RunNode.runId = firsts id [] (childIds envs node.runId) := by
  rw [childNodes, node_children here]
  exact map_runId_held fun run below => (mem_children.mp below).child_known

theorem emitStack_search (lawful : Lawful envs) {stack : List RunNode} (held : Held (build envs) stack)
    {out : List RunId}
    (searched : Forest.search (forest lawful).children fuel (stack.map RunNode.runId) = some out) :
    ∃ given, emitStack (build envs) fuel stack = some given ∧ Held (build envs) given ∧
      given.map RunNode.runId = out := by
  induction fuel generalizing stack out with
  | zero =>
    cases stack with
    | nil =>
      cases searched
      exact ⟨[], rfl, held, rfl⟩
    | cons n stack => cases searched
  | succ fuel ih =>
    cases stack with
    | nil =>
      cases searched
      exact ⟨[], rfl, held, rfl⟩
    | cons n stack =>
      have here := held n List.mem_cons_self
      rw [List.map_cons, Forest.search, Option.map_eq_some_iff] at searched
      obtain ⟨rest, searched, rfl⟩ := searched
      have next : Held (build envs) ((childNodes (build envs) n).reverse ++ stack) :=
        (childNodes_held envs n).reverse.append held.tail
      have ids : ((childNodes (build envs) n).reverse ++ stack).map RunNode.runId =
          ((forest lawful).children n.runId).reverse ++ stack.map RunNode.runId := by
        rw [List.map_append, List.map_reverse, map_runId_childNodes here]
        rfl
      obtain ⟨given, emitted, held', same⟩ := ih next (ids ▸ searched)
      exact ⟨n :: given, by rw [emitStack, emitted]; rfl, held'.cons here, by rw [List.map_cons, same]⟩

open Forest

theorem emitDescendants_frontier (lawful : Lawful envs) {children : List RunNode}
    (held : Held (build envs) children) {visited pending : List RunId}
    (frontier : Frontier (forest lawful) visited (children.map RunNode.runId ++ pending))
    (enough : (build envs).order.length ≤ fuel) :
    ∃ given, emitDescendants (build envs) fuel children = some given ∧ Held (build envs) given ∧
      Frontier (forest lawful) (visited ++ given.map RunNode.runId) pending := by
  induction children generalizing visited with
  | nil => exact ⟨[], rfl, held, by simpa using frontier⟩
  | cons child rest ih =>
    have here := held child List.mem_cons_self
    have ids : ((childNodes (build envs) child).reverse).map RunNode.runId =
        ((forest lawful).children child.runId).reverse := by
      rw [List.map_reverse, map_runId_childNodes here]
      rfl
    have next : Frontier (forest lawful) (visited ++ [child.runId])
        (((childNodes (build envs) child).reverse).map RunNode.runId ++
          (rest.map RunNode.runId ++ pending)) := by
      rw [ids]
      exact frontier.visit.perm ((List.reverse_perm _).symm.append_right _)
    have enough' : (forest lawful).nodes.length ≤ fuel + (visited ++ [child.runId]).length :=
      enough.trans (Nat.le_add_right _ _)
    obtain ⟨out, searched, done⟩ := next.search enough'
    obtain ⟨below, emitted, heldBelow, rfl⟩ :=
      emitStack_search lawful (childNodes_held envs child).reverse searched
    obtain ⟨more, emitted', heldMore, done⟩ := ih held.tail done
    refine ⟨child :: below ++ more, by rw [emitDescendants, emitted, emitted']; rfl, ?_, by simpa using done⟩
    exact (heldBelow.cons here).append heldMore

theorem lines_frontier (lawful : Lawful envs) {roots : List RunNode} (held : Held (build envs) roots)
    {visited : List RunId} (frontier : Frontier (forest lawful) visited (roots.map RunNode.runId))
    (enough : (build envs).order.length ≤ fuel) :
    ∃ given, lines (build envs) fuel roots = some given ∧ Held (build envs) given ∧
      Frontier (forest lawful) (visited ++ given.map RunNode.runId) [] := by
  induction roots generalizing visited with
  | nil => exact ⟨[], rfl, held, by simpa using frontier⟩
  | cons root rest ih =>
    have here := held root List.mem_cons_self
    have next : Frontier (forest lawful) (visited ++ [root.runId])
        ((childNodes (build envs) root).map RunNode.runId ++ rest.map RunNode.runId) := by
      rw [map_runId_childNodes here]
      exact frontier.visit
    obtain ⟨below, emitted, heldBelow, done⟩ :=
      emitDescendants_frontier lawful (childNodes_held envs root) next enough
    obtain ⟨more, emitted', heldMore, done⟩ := ih held.tail done
    refine ⟨root :: below ++ more, by rw [lines, emitted, emitted']; rfl, ?_, by simpa using done⟩
    exact (heldBelow.cons here).append heldMore

theorem roots_held (envs : List EventEnvelope) : Held (build envs) (build envs).roots := by
  intro n member
  obtain ⟨run, -, here⟩ := List.mem_filterMap.mp (List.mem_filter.mp member).1
  rwa [node_runId here]

theorem roots_frontier (lawful : Lawful envs) :
    Frontier (forest lawful) [] ((build envs).roots.map RunNode.runId) := by
  have indexed := build_indexed envs
  rw [roots, map_runId_filter _ fun run => (indexed.mem run).mp]
  refine frontier_roots (indexed.nodup.filter _) fun run => ?_
  rw [List.mem_filter]
  refine and_congr_right fun member => ?_
  obtain ⟨node, here⟩ := Option.isSome_iff_exists.mp ((indexed.mem run).mp member)
  rw [here, Option.any_some, Option.isNone_iff_eq_none, Option.eq_none_iff_forall_ne_some]
  refine forall_congr' fun p => not_congr ?_
  rw [parent_iff lawful here]
  exact mem_children.symm

theorem emit_cases (sink : RunNode → Except String Unit) (nodes : List RunNode) :
    (emit sink nodes).1 <+: nodes ∧ ((emit sink nodes).2 = .ok () → (emit sink nodes).1 = nodes) := by
  induction nodes with
  | nil => exact ⟨List.prefix_rfl, fun _ => rfl⟩
  | cons n rest ih =>
    rw [emit]
    cases sink n with
    | error e => exact ⟨⟨rest, rfl⟩, nofun⟩
    | ok _ => exact ⟨List.prefix_cons_inj n |>.mpr ih.1, fun returned => congrArg (n :: ·) (ih.2 returned)⟩

theorem flush_once (lawful : Lawful envs) (sink : RunNode → Except String Unit)
    (enough : (build envs).order.length ≤ fuel) :
    ∃ given returned, flush (build envs) fuel sink = some (given, returned) ∧ Held (build envs) given ∧
      (given.map RunNode.runId).Nodup ∧
      (returned = .ok () → ∀ run, run ∈ given.map RunNode.runId ↔ ∃ env ∈ envs, mentions run env) := by
  obtain ⟨nodes, written, held, done⟩ := lines_frontier lawful (roots_held envs) (roots_frontier lawful) enough
  obtain ⟨front, whole⟩ := emit_cases sink nodes
  rw [List.nil_append] at done
  refine ⟨(emit sink nodes).1, (emit sink nodes).2, by rw [flush, written]; rfl,
    fun n member => held n (front.subset member), ?_, fun returned run => ?_⟩
  · have nodup := done.nodup
    rw [List.append_nil] at nodup
    exact nodup.sublist (front.sublist.map _)
  · rw [whole returned, done.all, ← mentioned_iff]
    exact (build_indexed envs).mem run

end AtomrAgents.Observability
