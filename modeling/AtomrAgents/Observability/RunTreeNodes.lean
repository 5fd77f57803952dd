import AtomrAgents.Observability.RunTree
import AtomrAgents.Shared.FirstMatch
import Mathlib.Data.List.Induction

set_option autoImplicit false

namespace AtomrAgents.Observability

open Shared RunTreeBuilder

def mentions (run : RunId) (env : EventEnvelope) : Bool :=
  env.runId.isSome && (env.runId = some run || env.parentRunId = some run)

def own (envs : List EventEnvelope) (run : RunId) : List EventEnvelope :=
  envs.filter fun env => env.runId = some run

def childIds (envs : List EventEnvelope) (run : RunId) : List RunId :=
  (envs.filter fun env => env.parentRunId = some run).filterMap EventEnvelope.runId

def addTags (tags : List String) (env : EventEnvelope) : List String := env.tags.foldl addTag tags

def assemble (run : RunId) (first : EventEnvelope) (owned : List EventEnvelope) (children : List RunId) : RunNode :=
  let isOwn := first.runId = some run
  { runId := run
    parentRunId := owned.findSome? EventEnvelope.parentRunId
    kind := if isOwn then classify first.event else .other
    name := if isOwn then nameOf first.event else "(parent)"
    startedAtMs := first.timestampMs
    endedAtMs := owned.reverse.findSome? endTimestampFor
    tags := owned.foldl addTags (if isOwn then first.tags else [])
    events := owned
    children := firsts id [] children
    error := none }

def nodeOf (envs : List EventEnvelope) (run : RunId) (first : EventEnvelope) : RunNode :=
  assemble run first (own envs run) (childIds envs run)

variable {builder : RunTreeBuilder} {envs : List EventEnvelope} {env first : EventEnvelope} {run rid k : RunId}

theorem entry_nodes (builder : RunTreeBuilder) (k : RunId) (node : RunNode) (change : RunNode → RunNode)
    (run : RunId) :
    ((builder.orInsert k node).modify k change).nodes run =
      if run = k then some (change ((builder.nodes k).getD node)) else builder.nodes run := by
  unfold RunTreeBuilder.modify RunTreeBuilder.orInsert
  by_cases same : run = k
  · subst same
    cases here : builder.nodes run <;> simp [here]
  · cases builder.nodes k <;> simp [same]

theorem ingest_nodes (builder : RunTreeBuilder) (env : EventEnvelope) (run : RunId) :
    (builder.ingest env).nodes run =
      match env.runId with
      | none => builder.nodes run
      | some rid =>
        let mine := if run = rid then some (record env ((builder.nodes rid).getD (ownNode rid env)))
          else builder.nodes run
        if env.parentRunId = some run then some (addChild rid (mine.getD (placeholder run env))) else mine := by
  rw [ingest]
  cases env.runId with
  | none => rfl
  | some rid =>
    cases env.parentRunId with
    | none => simp [entry_nodes]
    | some parent =>
      by_cases same : run = parent
      · subst same
        simp [entry_nodes]
      · simp [entry_nodes, same, Ne.symm same]

def updated (env : EventEnvelope) (run : RunId) (node : RunNode) : RunNode :=
  match env.runId with
  | none => node
  | some rid =>
    let node := if run = rid then record env node else node
    if env.parentRunId = some run then addChild rid node else node

theorem ingest_known {node : RunNode} (known : builder.nodes run = some node) :
    (builder.ingest env).nodes run = some (updated env run node) := by
  rw [ingest_nodes, updated]
  cases env.runId with
  | none => exact known
  | some rid =>
    by_cases mine : run = rid
    · subst mine
      by_cases child : env.parentRunId = some run <;> simp [child, known]
    · by_cases child : env.parentRunId = some run <;> simp [child, known, mine]

theorem ingest_new (new : builder.nodes run = none) :
    (builder.ingest env).nodes run =
      if mentions run env then
        some (updated env run (if env.runId = some run then ownNode run env else placeholder run env))
      else none := by
  rw [ingest_nodes, updated, mentions]
  cases env.runId with
  | none => exact new
  | some rid =>
    by_cases mine : run = rid
    · subst mine
      by_cases child : env.parentRunId = some run <;> simp [child, new]
    · by_cases child : env.parentRunId = some run <;> simp [child, new, mine, Ne.symm mine]

theorem own_concat (envs : List EventEnvelope) (env : EventEnvelope) (run : RunId) :
    own (envs ++ [env]) run = if env.runId = some run then own envs run ++ [env] else own envs run := by
  rw [own, List.filter_append]
  by_cases mine : env.runId = some run <;> simp [own, mine]

theorem childIds_concat (envs : List EventEnvelope) (env : EventEnvelope) (run : RunId) :
    childIds (envs ++ [env]) run =
      if env.parentRunId = some run then childIds envs run ++ env.runId.toList else childIds envs run := by
  rw [childIds, List.filter_append, List.filterMap_append]
  by_cases child : env.parentRunId = some run
  · cases own : env.runId <;> simp [childIds, child, own]
  · simp [childIds, child]

theorem assemble_record (run : RunId) (first env : EventEnvelope) (owned : List EventEnvelope)
    (children : List RunId) :
    assemble run first (owned ++ [env]) children = record env (assemble run first owned children) := by
  have last : (owned ++ [env]).reverse.findSome? endTimestampFor =
      (endTimestampFor env).or (owned.reverse.findSome? endTimestampFor) := by
    rw [List.reverse_append, List.findSome?_append, List.reverse_singleton, List.findSome?_singleton]
  rw [assemble, last, List.findSome?_append, List.findSome?_singleton, List.foldl_append]
  rfl

theorem assemble_child (run : RunId) (first : EventEnvelope) (owned : List EventEnvelope) (children : List RunId)
    (rid : RunId) :
    assemble run first owned (children ++ [rid]) = addChild rid (assemble run first owned children) := by
  have known : rid ∈ (assemble run first owned children).children ↔ rid ∈ [] ∨ rid ∈ children := by
    rw [assemble, mem_firsts]
    simp
  rw [addChild, assemble, firsts_concat]
  by_cases again : rid ∈ [] ∨ rid ∈ children
  · rw [if_pos again, if_pos (known.mpr again)]
    rfl
  · rw [if_neg again, if_neg (mt known.mp again)]
    rfl

theorem nodeOf_concat (envs : List EventEnvelope) (env : EventEnvelope) (run : RunId) (first : EventEnvelope) :
    nodeOf (envs ++ [env]) run first = updated env run (nodeOf envs run first) := by
  rw [nodeOf, own_concat, childIds_concat, updated, nodeOf]
  cases env.runId with
  | none => simp
  | some rid =>
    by_cases mine : rid = run
    · subst mine
      by_cases child : env.parentRunId = some rid <;> simp [child, assemble_child, assemble_record]
    · by_cases child : env.parentRunId = some run <;> simp [child, assemble_child, mine, Ne.symm mine]

theorem build_concat (envs : List EventEnvelope) (env : EventEnvelope) :
    build (envs ++ [env]) = (build envs).ingest env := by
  rw [build, List.foldl_append]
  rfl

theorem nodeOf_unmentioned (none : envs.find? (mentions run) = none) (first : EventEnvelope) :
    nodeOf envs run first = assemble run first [] [] := by
  have absent := List.find?_eq_none.mp none
  have owned : own envs run = [] := by
    refine List.filter_eq_nil_iff.mpr fun env member mine => absent env member ?_
    simp [mentions, of_decide_eq_true mine]
  have children : childIds envs run = [] := by
    rw [childIds, List.filterMap_eq_nil_iff]
    intro env member
    obtain ⟨member, child⟩ := List.mem_filter.mp member
    have silent := absent env member
    rw [mentions, of_decide_eq_true child] at silent
    simpa using silent
  rw [nodeOf, owned, children]

theorem ownNode_record (mine : env.runId = some run) :
    record env (ownNode run env) = record env (assemble run env [] []) := by
  rw [record, record, ownNode, assemble, if_pos mine, if_pos mine, if_pos mine]
  cases env.parentRunId <;> rfl

theorem placeholder_eq (other : env.runId ≠ some run) : placeholder run env = assemble run env [] [] := by
  rw [placeholder, assemble, if_neg other, if_neg other, if_neg other]
  rfl

theorem updated_first (run : RunId) (env : EventEnvelope) :
    updated env run (if env.runId = some run then ownNode run env else placeholder run env) =
      updated env run (assemble run env [] []) := by
  by_cases mine : env.runId = some run
  · rw [if_pos mine, updated, updated, mine]
    simp only [if_true, ownNode_record mine]
  · rw [if_neg mine, placeholder_eq mine]

theorem build_nodes (envs : List EventEnvelope) (run : RunId) :
    (build envs).nodes run = (envs.find? (mentions run)).map (nodeOf envs run) := by
  induction envs using List.reverseRecOn with
  | nil => rfl
  | append_singleton envs env ih =>
    have later : nodeOf (envs ++ [env]) run = fun first => updated env run (nodeOf envs run first) :=
      funext (nodeOf_concat envs env run)
    rw [build_concat, List.find?_append, later]
    cases before : envs.find? (mentions run) with
    | some first =>
      rw [before] at ih
      rw [ingest_known ih]
      rfl
    | none =>
      rw [before] at ih
      rw [ingest_new ih, Option.none_or, List.find?_singleton]
      by_cases mentioned : mentions run env
      · rw [if_pos mentioned, if_pos mentioned, updated_first run env, Option.map_some,
          nodeOf_unmentioned before]
      · rw [if_neg mentioned, if_neg mentioned]
        rfl

-- `order` lists the runs that there is a node for.
structure Indexed (builder : RunTreeBuilder) : Prop where
  nodup : builder.order.Nodup
  mem : ∀ run, run ∈ builder.order ↔ (builder.nodes run).isSome

theorem Indexed.entry (indexed : Indexed builder) (node : RunNode) (change : RunNode → RunNode) :
    Indexed ((builder.orInsert k node).modify k change) := by
  have order : ((builder.orInsert k node).modify k change).order =
      if (builder.nodes k).isSome then builder.order else builder.order ++ [k] := by
    unfold RunTreeBuilder.modify RunTreeBuilder.orInsert
    cases builder.nodes k <;> rfl
  constructor
  · rw [order]
    split
    · exact indexed.nodup
    · next fresh =>
      rw [← indexed.mem] at fresh
      refine List.nodup_append.mpr ⟨indexed.nodup, List.nodup_singleton k, fun x before y last same => fresh ?_⟩
      rwa [same, List.mem_singleton.mp last] at before
  · intro run
    rw [order, entry_nodes]
    by_cases same : run = k
    · subst same
      split
      · next known => simpa [indexed.mem] using known
      · simp
    · split <;> simp [indexed.mem, same]

theorem Indexed.ingest (indexed : Indexed builder) (env : EventEnvelope) : Indexed (builder.ingest env) := by
  rw [RunTreeBuilder.ingest]
  split
  · exact indexed
  · next rid _ =>
    have owned := indexed.entry (k := rid) (ownNode rid env) (record env)
    dsimp only
    split
    · exact owned
    · exact owned.entry _ _

theorem build_indexed (envs : List EventEnvelope) : Indexed (build envs) := by
  induction envs using List.reverseRecOn with
  | nil => exact ⟨List.nodup_nil, fun run => by simp [build, new]⟩
  | append_singleton envs env ih =>
    rw [build_concat]
    exact ih.ingest env

end AtomrAgents.Observability
