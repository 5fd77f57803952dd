import AtomrAgents.Observability.RunTreeFlush
import Mathlib.Data.List.Perm.Basic

set_option autoImplicit false

namespace AtomrAgents.Observability

open Shared RunTreeBuilder JsonlTracer

-- The tree shows what the events say of their runs, and is written out run by run.
structure Reconstructs (envs : List EventEnvelope) : Prop where
  own_events : ∀ run node, (build envs).nodes run = some node → ∀ env ∈ own envs run,
    node.kind = classify env.event ∧ node.name = nameOf env.event ∧ node.startedAtMs ≤ env.timestampMs
  started : ∀ run node, (build envs).nodes run = some node → own envs run ≠ [] →
    ∃ env ∈ own envs run, node.startedAtMs = env.timestampMs
  known : ∀ run, own envs run ≠ [] → ((build envs).nodes run).isSome
  parents : ∀ parent child, (∃ node, (build envs).nodes child = some node ∧ node.parentRunId = some parent) ↔
    Names envs parent child
  children : ∀ parent child, (∃ node, (build envs).nodes parent = some node ∧ child ∈ node.children) ↔
    Names envs parent child
  siblings : ∀ run node, (build envs).nodes run = some node → node.children.Nodup
  flushed : ∀ fuel sink, (build envs).order.length ≤ fuel → ∃ given returned,
    flush (build envs) fuel sink = some (given, returned) ∧ Held (build envs) given ∧
      (given.map RunNode.runId).Nodup ∧
      (returned = .ok () → ∀ run, run ∈ given.map RunNode.runId ↔ ∃ env ∈ envs, mentions run env)

structure SameNode (n n' : RunNode) : Prop where
  runId : n.runId = n'.runId
  parentRunId : n.parentRunId = n'.parentRunId
  kind : n.kind = n'.kind
  name : n.name = n'.name
  startedAtMs : n.startedAtMs = n'.startedAtMs
  children : n.children.Perm n'.children

-- Up to the order of siblings.
def SameTree (builder builder' : RunTreeBuilder) : Prop :=
  ∀ run, Option.Rel SameNode (builder.nodes run) (builder'.nodes run)

-- Of a run with events of its own, none is mentioned before the earliest of them, and they have one name.
def OwnFirst (envs : List EventEnvelope) : Prop :=
  ∀ run, own envs run ≠ [] → ∃ first ∈ envs.find? (mentions run), first.runId = some run ∧
    ∀ env ∈ own envs run, nameOf first.event = nameOf env.event ∧ first.timestampMs ≤ env.timestampMs

variable {envs envs' : List EventEnvelope} {run : RunId} {node : RunNode} {first : EventEnvelope}

theorem nameOf_ne (event : Event) : nameOf event ≠ "(parent)" := by
  intro same
  have letters := congrArg String.toList same
  unfold nameOf at letters
  split at letters <;> simp at letters

theorem nodeOf_own (mine : first.runId = some run) :
    (nodeOf envs run first).kind = classify first.event ∧ (nodeOf envs run first).name = nameOf first.event := by
  rw [nodeOf, assemble]
  simp [mine]

theorem nodeOf_other (other : first.runId ≠ some run) :
    (nodeOf envs run first).kind = .other ∧ (nodeOf envs run first).name = "(parent)" := by
  rw [nodeOf, assemble]
  simp [other]

theorem mentions_of_own {env : EventEnvelope} (mine : env ∈ own envs run) : mentions run env := by
  simp [mentions, (mem_own.mp mine).2]

theorem find_own (some : own envs run ≠ []) : ∃ first, envs.find? (mentions run) = .some first := by
  obtain ⟨env, mine⟩ := List.exists_mem_of_ne_nil _ some
  exact Option.isSome_iff_exists.mp (List.find?_isSome.mpr ⟨env, (mem_own.mp mine).1, mentions_of_own mine⟩)

theorem node_of_find (found : envs.find? (mentions run) = some first) :
    (build envs).nodes run = some (nodeOf envs run first) := by
  rw [build_nodes, found, Option.map_some]

theorem ownFirst_of_reconstructs (reconstructs : Reconstructs envs) : OwnFirst envs := by
  intro run some
  obtain ⟨first, found⟩ := find_own some
  have right := reconstructs.own_events run _ (node_of_find found)
  by_cases mine : first.runId = .some run
  · refine ⟨first, found, mine, fun env member => ?_⟩
    obtain ⟨-, name, start⟩ := right env member
    exact ⟨(nodeOf_own mine).2.symm.trans name, start⟩
  · obtain ⟨env, member⟩ := List.exists_mem_of_ne_nil _ some
    obtain ⟨-, name, -⟩ := right env member
    exact absurd (name.symm.trans (nodeOf_other mine).2) (nameOf_ne env.event)

theorem reconstructs_of_ownFirst (lawful : Lawful envs) (ownFirst : OwnFirst envs) : Reconstructs envs where
  own_events run node here env member := by
    obtain ⟨first, found, mine, earliest⟩ := ownFirst run (List.ne_nil_of_mem member)
    rw [node_of_find found, Option.some_inj] at here
    subst here
    have one_kind := lawful.one_kind first (List.mem_of_find?_eq_some found) env (mem_own.mp member).1
      (by rw [mine]; rfl) (mine.trans (mem_own.mp member).2.symm)
    exact ⟨(nodeOf_own mine).1.trans one_kind, (nodeOf_own mine).2.trans (earliest env member).1,
      (earliest env member).2⟩
  started run node here some := by
    obtain ⟨first, found, mine, -⟩ := ownFirst run some
    rw [node_of_find found, Option.some_inj] at here
    subst here
    exact ⟨first, mem_own.mpr ⟨List.mem_of_find?_eq_some found, mine⟩, rfl⟩
  known run some := by
    obtain ⟨first, found⟩ := find_own some
    rw [node_of_find found]
    rfl
  parents parent child := by
    constructor
    · rintro ⟨node, here, under⟩
      exact (parent_iff lawful here).mp under
    · intro names
      obtain ⟨node, here⟩ := Option.isSome_iff_exists.mp names.child_known
      exact ⟨node, here, (parent_iff lawful here).mpr names⟩
  children parent child := by
    constructor
    · rintro ⟨node, here, below⟩
      rw [node_children here] at below
      exact mem_children.mp below
    · intro names
      obtain ⟨node, here⟩ := Option.isSome_iff_exists.mp names.parent_known
      refine ⟨node, here, ?_⟩
      rw [node_children here]
      exact mem_children.mpr names
  siblings run node here := by
    rw [node_children here]
    exact nodup_firsts [] (childIds envs run)
  flushed fuel sink enough := flush_once lawful sink enough

section Permuted

variable (perm : envs.Perm envs')

include perm

theorem names_perm {parent child : RunId} : Names envs parent child ↔ Names envs' parent child := by
  simp only [Names, perm.mem_iff]

theorem lawful_perm (lawful : Lawful envs) : Lawful envs' := by
  have names : Names envs' = Names envs := by
    funext parent child
    exact propext (names_perm perm).symm
  constructor
  · rw [names]
    exact lawful.one_parent
  · rw [names]
    exact lawful.acyclic
  · simp only [← perm.mem_iff]
    exact lawful.one_kind

theorem own_perm (run : RunId) : (own envs run).Perm (own envs' run) := perm.filter _

theorem sameNode_of (lawful : Lawful envs) {first first' : EventEnvelope}
    (found : envs.find? (mentions run) = some first) (found' : envs'.find? (mentions run) = some first')
    (kind : (nodeOf envs run first).kind = (nodeOf envs' run first').kind)
    (name : (nodeOf envs run first).name = (nodeOf envs' run first').name)
    (start : first.timestampMs = first'.timestampMs) :
    SameNode (nodeOf envs run first) (nodeOf envs' run first') where
  runId := rfl
  parentRunId := by
    refine Option.ext fun p => ?_
    rw [parent_iff lawful (node_of_find found), parent_iff (lawful_perm perm lawful) (node_of_find found'),
      names_perm perm]
  kind := kind
  name := name
  startedAtMs := start
  children := by
    refine (List.perm_ext_iff_of_nodup (nodup_firsts _ _) (nodup_firsts _ _)).mpr fun child => ?_
    rw [mem_children, mem_children, names_perm perm]

theorem find_perm (found : envs.find? (mentions run) = some first) :
    ∃ first', envs'.find? (mentions run) = some first' := by
  refine Option.isSome_iff_exists.mp (List.find?_isSome.mpr ⟨first, ?_, List.find?_some found⟩)
  exact perm.mem_iff.mp (List.mem_of_find?_eq_some found)

theorem sameNode_placeholder (lawful : Lawful envs) {first first' : EventEnvelope}
    (found : envs.find? (mentions run) = some first) (found' : envs'.find? (mentions run) = some first')
    (none : own envs run = []) (start : first.timestampMs = first'.timestampMs) :
    SameNode (nodeOf envs run first) (nodeOf envs' run first') := by
  have none' : own envs' run = [] := ((own_perm perm run).symm.trans (.of_eq none)).eq_nil
  have other : first.runId ≠ some run := fun mine =>
    List.ne_nil_of_mem (mem_own.mpr ⟨List.mem_of_find?_eq_some found, mine⟩) none
  have other' : first'.runId ≠ some run := fun mine =>
    List.ne_nil_of_mem (mem_own.mpr ⟨List.mem_of_find?_eq_some found', mine⟩) none'
  have kind : (nodeOf envs run first).kind = (nodeOf envs' run first').kind :=
    (nodeOf_other other).1.trans (nodeOf_other other').1.symm
  have name : (nodeOf envs run first).name = (nodeOf envs' run first').name :=
    (nodeOf_other other).2.trans (nodeOf_other other').2.symm
  exact sameNode_of perm lawful found found' kind name start

theorem sameNode_own (lawful : Lawful envs) (ownFirst : OwnFirst envs) (ownFirst' : OwnFirst envs')
    {first first' : EventEnvelope} (found : envs.find? (mentions run) = some first)
    (found' : envs'.find? (mentions run) = some first') (owned : own envs run ≠ []) :
    SameNode (nodeOf envs run first) (nodeOf envs' run first') := by
  have owned' : own envs' run ≠ [] := fun none =>
    owned (((own_perm perm run).trans (.of_eq none)).eq_nil)
  obtain ⟨_, same, mine, earliest⟩ := ownFirst run owned
  obtain ⟨_, same', mine', earliest'⟩ := ownFirst' run owned'
  cases found.symm.trans same
  cases found'.symm.trans same'
  have member := mem_own.mpr ⟨List.mem_of_find?_eq_some found, mine⟩
  have member' := (own_perm perm run).mem_iff.mpr (mem_own.mpr ⟨List.mem_of_find?_eq_some found', mine'⟩)
  obtain ⟨name, before⟩ := earliest first' member'
  have after := (earliest' first ((own_perm perm run).mem_iff.mp member)).2
  have kind := lawful.one_kind first (mem_own.mp member).1 first' (mem_own.mp member').1 (by rw [mine]; rfl)
    (mine.trans mine'.symm)
  exact sameNode_of perm lawful found found' (((nodeOf_own mine).1.trans kind).trans (nodeOf_own mine').1.symm)
    (((nodeOf_own mine).2.trans name).trans (nodeOf_own mine').2.symm) (Int.le_antisymm before after)

theorem sameTree_of_ownFirst (lawful : Lawful envs) (ownFirst : OwnFirst envs) (ownFirst' : OwnFirst envs')
    (starts : ∀ run, own envs run = [] → (envs.find? (mentions run)).map EventEnvelope.timestampMs =
      (envs'.find? (mentions run)).map EventEnvelope.timestampMs) :
    SameTree (build envs) (build envs') := by
  intro run
  cases found : envs.find? (mentions run) with
  | none =>
    cases found' : envs'.find? (mentions run) with
    | none =>
      rw [build_nodes, build_nodes, found, found']
      exact .none
    | some first' =>
      obtain ⟨first, again⟩ := find_perm perm.symm found'
      cases found.symm.trans again
  | some first =>
    obtain ⟨first', found'⟩ := find_perm perm found
    rw [node_of_find found, node_of_find found']
    refine .some ?_
    by_cases none : own envs run = []
    · have start := starts run none
      rw [found, found', Option.map_some, Option.map_some, Option.some_inj] at start
      exact sameNode_placeholder perm lawful found found' none start
    · exact sameNode_own perm lawful ownFirst ownFirst' found found' none

end Permuted

/-- Two orders give the same tree, and the right one, exactly when in both of them every run with events of its own
is first mentioned by the earliest of these, which have one name, and every other run is first mentioned at one time. -/
theorem run_tree_iff (envs envs' : List EventEnvelope) (lawful : Lawful envs) (perm : envs.Perm envs') :
    Reconstructs envs ∧ Reconstructs envs' ∧ SameTree (build envs) (build envs') ↔
      OwnFirst envs ∧ OwnFirst envs' ∧ ∀ run, own envs run = [] →
        (envs.find? (mentions run)).map EventEnvelope.timestampMs =
          (envs'.find? (mentions run)).map EventEnvelope.timestampMs := by
  constructor
  · rintro ⟨reconstructs, reconstructs', same⟩
    refine ⟨ownFirst_of_reconstructs reconstructs, ownFirst_of_reconstructs reconstructs', fun run _ => ?_⟩
    have node := same run
    rw [build_nodes, build_nodes] at node
    cases found : envs.find? (mentions run) with
    | none =>
      rw [found] at node
      cases found' : envs'.find? (mentions run) with
      | none => rfl
      | some first' =>
        rw [found'] at node
        cases node
    | some first =>
      rw [found] at node
      cases found' : envs'.find? (mentions run) with
      | none =>
        rw [found'] at node
        cases node
      | some first' =>
        rw [found'] at node
        cases node with
        | some same => exact congrArg some same.startedAtMs
  · rintro ⟨ownFirst, ownFirst', starts⟩
    exact ⟨reconstructs_of_ownFirst lawful ownFirst, reconstructs_of_ownFirst (lawful_perm perm lawful) ownFirst',
      sameTree_of_ownFirst perm lawful ownFirst ownFirst' starts⟩

def parentTurn : EventEnvelope where
  timestampMs := 1
  runId := some "r-parent"
  parentRunId := none
  tags := []
  event := .agentTurn "a"

def childCall (run : RunId) : EventEnvelope where
  timestampMs := 2
  runId := some run
  parentRunId := some "r-parent"
  tags := []
  event := .toolInvoked "t"

theorem names_calls {parent child : RunId}
    (names : Names [parentTurn, childCall "r-1", childCall "r-2"] parent child) :
    parent = "r-parent" ∧ child ≠ "r-parent" := by
  obtain ⟨env, member, mine, under⟩ := names
  simp only [List.mem_cons, List.not_mem_nil, or_false] at member
  rcases member with rfl | rfl | rfl
  · cases under
  · cases mine
    cases under
    exact ⟨rfl, by decide⟩
  · cases mine
    cases under
    exact ⟨rfl, by decide⟩

theorem calls_lawful : Lawful [parentTurn, childCall "r-1", childCall "r-2"] where
  one_parent child p p' names names' := (names_calls names).1.trans (names_calls names').1.symm
  acyclic run cycle := by
    have ends {p c : RunId} (path : Relation.TransGen (Names [parentTurn, childCall "r-1", childCall "r-2"]) p c) :
        p = "r-parent" ∧ c ≠ "r-parent" := by
      induction path with
      | single names => exact names_calls names
      | tail _ names ih => exact ⟨ih.1, (names_calls names).2⟩
    exact (ends cycle).2 (ends cycle).1
  one_kind env member env' member' := by
    simp only [List.mem_cons, List.not_mem_nil, or_false] at member member'
    rcases member with rfl | rfl | rfl <;> rcases member' with rfl | rfl | rfl <;> decide

theorem calls_ownFirst {child child' : RunId} (different : child ≠ child') (below : child ≠ "r-parent")
    (below' : child' ≠ "r-parent") : OwnFirst [parentTurn, childCall child, childCall child'] := by
  intro run some
  obtain ⟨env, mine⟩ := List.exists_mem_of_ne_nil _ some
  obtain ⟨member, mine⟩ := mem_own.mp mine
  simp only [List.mem_cons, List.not_mem_nil, or_false] at member
  rcases member with rfl | rfl | rfl
  · cases mine
    refine ⟨parentTurn, rfl, rfl, ?_⟩
    simp [own, parentTurn, childCall, below, below']
  · cases mine
    refine ⟨childCall child, ?_, rfl, ?_⟩
    · simp [mentions, parentTurn, childCall, Ne.symm below]
    · simp [own, parentTurn, childCall, Ne.symm below, Ne.symm different]
  · cases mine
    refine ⟨childCall child', ?_, rfl, ?_⟩
    · simp [mentions, parentTurn, childCall, Ne.symm below', different]
    · simp [own, parentTurn, childCall, Ne.symm below', different]

theorem siblings_same_tree :
    Reconstructs [parentTurn, childCall "r-1", childCall "r-2"] ∧
      Reconstructs [parentTurn, childCall "r-2", childCall "r-1"] ∧
      SameTree (build [parentTurn, childCall "r-1", childCall "r-2"])
        (build [parentTurn, childCall "r-2", childCall "r-1"]) := by
  refine (run_tree_iff [parentTurn, childCall "r-1", childCall "r-2"] [parentTurn, childCall "r-2", childCall "r-1"]
    calls_lawful ((List.Perm.swap _ _ _).cons _)).mpr ⟨calls_ownFirst (by decide) (by decide) (by decide),
    calls_ownFirst (by decide) (by decide) (by decide), fun run none => ?_⟩
  have others : run ≠ "r-parent" ∧ run ≠ "r-1" ∧ run ≠ "r-2" := by
    refine ⟨?_, ?_, ?_⟩ <;>
      · rintro rfl
        cases none
  simp [mentions, parentTurn, childCall, Ne.symm others.1, Ne.symm others.2.1, Ne.symm others.2.2]

/-- The calls of a turn come in before the turn is complete, and its run stays a placeholder. -/
theorem child_first_placeholder :
    Lawful [childCall "r-1", parentTurn, childCall "r-2"] ∧
      (∃ node, (build [childCall "r-1", parentTurn, childCall "r-2"]).nodes "r-parent" = some node ∧
        node.kind = .other ∧ node.name = "(parent)" ∧ node.startedAtMs = 2) ∧
      ¬ Reconstructs [childCall "r-1", parentTurn, childCall "r-2"] := by
  refine ⟨lawful_perm (List.Perm.swap _ _ _) calls_lawful, ⟨_, rfl, rfl, rfl, rfl⟩, fun reconstructs => ?_⟩
  obtain ⟨kind, -, -⟩ := reconstructs.own_events "r-parent" _ rfl parentTurn (.head _)
  cases kind

end AtomrAgents.Observability
