import AtomrAgents.Core.Value
import AtomrAgents.Shared.FirstMatch

set_option autoImplicit false

namespace AtomrAgents.Novelty

open Shared

inductive Merge where
  | keepFirst
  | keepLatest
  | cluster
  deriving DecidableEq

structure NoveltyPolicy (T : Type) where
  threshold : T
  merge : Merge

inductive IngestOutcome where
  | ingested (id : String)
  | merged («into» : String)

structure Hit (S : Type) where
  id : String
  score : S
  metadata : Value

-- Scores need not be comparable: there is a NaN among the floats.
structure Similarity (F S T : Type) where
  cosine : List F → List F → S
  less : S → S → Bool
  reaches : S → T → Bool

abbrev Row (F : Type) := String × List F × Value

namespace InMemoryVectorStore

variable {F S T : Type} (similarity : Similarity F S T) (rows : List (Row F))

def upsertOne (rows : List (Row F)) (item : Row F) : List (Row F) :=
  if rows.any fun row => row.1 == item.1 then
    modifyFirst (fun row => row.1 == item.1) (fun row => (row.1, item.2)) rows
  else rows ++ [item]

def upsert (items : List (Row F)) : List (Row F) := items.foldl upsertOne rows

def query (embedding : List F) (k : Nat) (filter : Value → Bool) : List (Hit S) :=
  let scored := (rows.filter fun row => filter row.2.2).map fun row =>
    { id := row.1, score := similarity.cosine embedding row.2.1, metadata := row.2.2 : Hit S }
  (scored.mergeSort fun a b => !similarity.less a.score b.score).take k

end InMemoryVectorStore

def itemMetadata (id text : String) : Value := .object [("id", .string id), ("text", .string text)]

structure IngestCall (F T : Type) where
  id : String
  item : String
  policy : NoveltyPolicy T
  embedded : Except String (List (List F))

namespace IncrementalIngest

variable {F S T : Type} (similarity : Similarity F S T) (rows : List (Row F)) (call : IngestCall F T)

def topK : Nat := 5

def duplicateOf (emb : List F) : Option (Hit S) :=
  (InMemoryVectorStore.query similarity rows emb topK fun _ => true).head?.filter fun best =>
    similarity.reaches best.score call.policy.threshold

def embedOne (vectors : List (List F)) : List F := vectors.getLast?.getD []

def ingestIfNovel : Except String IngestOutcome × List (Row F) :=
  match call.embedded with
  | .error e => (.error e, rows)
  | .ok vectors =>
    let emb := embedOne vectors
    match duplicateOf similarity rows call emb with
    | some best =>
      match call.policy.merge with
      | .keepFirst | .cluster => (.ok (.merged best.id), rows)
      | .keepLatest =>
        (.ok (.merged best.id),
          InMemoryVectorStore.upsert rows [(best.id, emb, itemMetadata call.id call.item)])
    | none =>
      (.ok (.ingested call.id), InMemoryVectorStore.upsert rows [(call.id, emb, itemMetadata call.id call.item)])

end IncrementalIngest

-- A call whose policy only ever appends.
structure AppendCall (F T : Type) extends IngestCall F T where
  appends : policy.merge ≠ .keepLatest

section Upsert

variable {F : Type} {rows : List (Row F)} {item : Row F}

theorem upsertOne_fresh (fresh : item.1 ∉ rows.map Prod.fst) :
    InMemoryVectorStore.upsertOne rows item = rows ++ [item] := by
  have absent : (rows.any fun row => row.1 == item.1) = false := by
    rw [List.any_eq_false]
    intro row member same
    exact fresh (List.mem_map.mpr ⟨row, member, eq_of_beq same⟩)
  rw [InMemoryVectorStore.upsertOne, absent, if_neg Bool.false_ne_true]

theorem length_upsertOne_stored (stored : item.1 ∈ rows.map Prod.fst) :
    (InMemoryVectorStore.upsertOne rows item).length = rows.length := by
  obtain ⟨row, member, same⟩ := List.mem_map.mp stored
  have found : (rows.any fun row => row.1 == item.1) = true :=
    List.any_eq_true.mpr ⟨row, member, beq_iff_eq.mpr same⟩
  have ids : (modifyFirst (fun row : Row F => row.1 == item.1) (fun row => (row.1, item.2)) rows).map Prod.fst =
      rows.map Prod.fst := map_modifyFirst Prod.fst fun _ => rfl
  have length := congrArg List.length ids
  rw [List.length_map, List.length_map] at length
  rw [InMemoryVectorStore.upsertOne, found, if_pos rfl, length]

end Upsert

section Calls

variable {F S T : Type} {similarity : Similarity F S T} {rows : List (Row F)} {call : IngestCall F T}

theorem mem_of_query {embedding : List F} {k : Nat} {filter : Value → Bool} {hit : Hit S}
    (member : hit ∈ InMemoryVectorStore.query similarity rows embedding k filter) :
    hit.id ∈ rows.map Prod.fst := by
  have scored := List.mem_mergeSort.mp (List.mem_of_mem_take member)
  obtain ⟨row, kept, rfl⟩ := List.mem_map.mp scored
  exact List.mem_map_of_mem (List.mem_of_mem_filter kept)

theorem duplicateOf_stored {emb : List F} {best : Hit S}
    (duplicate : IncrementalIngest.duplicateOf similarity rows call emb = some best) :
    best.id ∈ rows.map Prod.fst :=
  mem_of_query (List.mem_of_head? (Option.filter_eq_some_iff.mp duplicate).1)

end Calls

section Runs

variable {F S T : Type} (similarity : Similarity F S T) (rows : List (Row F)) (calls : List (AppendCall F T))

def stored (i : Nat) : List (Row F) :=
  (calls.take i).foldl (fun rows call => (IncrementalIngest.ingestIfNovel similarity rows call.toIngestCall).2) rows

def returned (i : Nat) (call : AppendCall F T) : Except String IngestOutcome :=
  (IncrementalIngest.ingestIfNovel similarity (stored similarity rows calls i) call.toIngestCall).1

structure RunAppendOnly : Prop where
  grows : ∀ i j, i ≤ j → stored similarity rows calls i <+: stored similarity rows calls j
  ingested : ∀ i call id, calls[i]? = some call → returned similarity rows calls i call = .ok (.ingested id) →
    (stored similarity rows calls (i + 1)).length = (stored similarity rows calls i).length + 1
  merged : ∀ i call «into», calls[i]? = some call → returned similarity rows calls i call = .ok (.merged «into») →
    «into» ∈ (stored similarity rows calls i).map Prod.fst ∧
      stored similarity rows calls (i + 1) = stored similarity rows calls i

-- An item that duplicates none is given an id that is not in use.
def FreshId (rows : List (Row F)) (call : IngestCall F T) : Prop :=
  ∀ vectors, call.embedded = .ok vectors →
    IncrementalIngest.duplicateOf similarity rows call (IncrementalIngest.embedOne vectors) = none →
      call.id ∉ rows.map Prod.fst

variable {rows}

inductive Called (rows : List (Row F)) (call : IngestCall F T) :
    Except String IngestOutcome → List (Row F) → Prop where
  | failed (e : String) (embedded : call.embedded = .error e) : Called rows call (.error e) rows
  | merged (vectors : List (List F)) (best : Hit S) (embedded : call.embedded = .ok vectors)
      (duplicate : IncrementalIngest.duplicateOf similarity rows call (IncrementalIngest.embedOne vectors) =
        some best) :
      Called rows call (.ok (.merged best.id)) rows
  | ingested (vectors : List (List F)) (embedded : call.embedded = .ok vectors)
      (novel : IncrementalIngest.duplicateOf similarity rows call (IncrementalIngest.embedOne vectors) = none) :
      Called rows call (.ok (.ingested call.id)) (InMemoryVectorStore.upsertOne rows
        (call.id, IncrementalIngest.embedOne vectors, itemMetadata call.id call.item))

variable (rows) in
theorem ingestIfNovel_called (call : AppendCall F T) :
    Called similarity rows call.toIngestCall
      (IncrementalIngest.ingestIfNovel similarity rows call.toIngestCall).1
      (IncrementalIngest.ingestIfNovel similarity rows call.toIngestCall).2 := by
  rw [IncrementalIngest.ingestIfNovel]
  cases embedded : call.embedded with
  | error e => exact .failed e embedded
  | ok vectors =>
    cases duplicate : IncrementalIngest.duplicateOf similarity rows call.toIngestCall
        (IncrementalIngest.embedOne vectors) with
    | none =>
      simp only [duplicate]
      exact .ingested vectors embedded duplicate
    | some best =>
      simp only [duplicate]
      cases merge : call.policy.merge with
      | keepFirst => exact .merged vectors best embedded duplicate
      | cluster => exact .merged vectors best embedded duplicate
      | keepLatest => exact absurd merge call.appends

theorem Called.grows {call : IngestCall F T} {outcome : Except String IngestOutcome} {after : List (Row F)}
    (called : Called similarity rows call outcome after) (fresh : FreshId similarity rows call) :
    rows <+: after := by
  cases called with
  | failed => exact List.prefix_rfl
  | merged => exact List.prefix_rfl
  | ingested vectors embedded novel =>
    rw [upsertOne_fresh (fresh vectors embedded novel)]
    exact List.prefix_append _ _

theorem Called.adds {call : IngestCall F T} {id : String} {after : List (Row F)}
    (called : Called similarity rows call (.ok (.ingested id)) after) (fresh : FreshId similarity rows call) :
    after.length = rows.length + 1 := by
  cases called with
  | ingested vectors embedded novel =>
    rw [upsertOne_fresh (fresh vectors embedded novel)]
    simp

theorem Called.keeps {call : IngestCall F T} {«into» : String} {after : List (Row F)}
    (called : Called similarity rows call (.ok (.merged «into»)) after) :
    «into» ∈ rows.map Prod.fst ∧ after = rows := by
  cases called with
  | merged vectors best embedded duplicate => exact ⟨duplicateOf_stored duplicate, rfl⟩

variable (rows)

theorem stored_succ {i : Nat} {call : AppendCall F T} (at_ : calls[i]? = some call) :
    stored similarity rows calls (i + 1) =
      (IncrementalIngest.ingestIfNovel similarity (stored similarity rows calls i) call.toIngestCall).2 := by
  rw [stored, List.take_add_one, at_, List.foldl_append]
  rfl

theorem called_at {i : Nat} {call : AppendCall F T} (at_ : calls[i]? = some call) :
    Called similarity (stored similarity rows calls i) call.toIngestCall
      (returned similarity rows calls i call) (stored similarity rows calls (i + 1)) := by
  rw [stored_succ similarity rows calls at_, returned]
  exact ingestIfNovel_called similarity _ call

theorem stored_grows
    (fresh : ∀ i call, calls[i]? = some call →
      FreshId similarity (stored similarity rows calls i) call.toIngestCall)
    {i j : Nat} (later : i ≤ j) : stored similarity rows calls i <+: stored similarity rows calls j := by
  induction later with
  | refl => exact List.prefix_rfl
  | @step j _ ih =>
    refine ih.trans ?_
    cases at_ : calls[j]? with
    | none =>
      have past := List.getElem?_eq_none_iff.mp at_
      have same : stored similarity rows calls (j + 1) = stored similarity rows calls j := by
        rw [stored, stored, List.take_of_length_le past, List.take_of_length_le (Nat.le_succ_of_le past)]
      exact same.symm ▸ List.prefix_rfl
    | some call => exact (called_at similarity rows calls at_).grows similarity (fresh j call at_)

/-- No row is lost in a run exactly if no call that is novel comes under an id that is in use. -/
theorem ingest_append_only_iff : RunAppendOnly similarity rows calls ↔
    ∀ i call, calls[i]? = some call →
      FreshId similarity (stored similarity rows calls i) call.toIngestCall := by
  constructor
  · intro appends i call at_ vectors embedded novel inUse
    have outcome : returned similarity rows calls i call = .ok (.ingested call.id) := by
      rw [returned, IncrementalIngest.ingestIfNovel, embedded]
      simp only [novel]
    have wrote : stored similarity rows calls (i + 1) =
        InMemoryVectorStore.upsertOne (stored similarity rows calls i)
          (call.id, IncrementalIngest.embedOne vectors, itemMetadata call.id call.item) := by
      rw [stored_succ similarity rows calls at_, IncrementalIngest.ingestIfNovel, embedded]
      simp only [novel]
      rfl
    have longer := appends.ingested i call call.id at_ outcome
    rw [wrote, length_upsertOne_stored inUse] at longer
    omega
  · intro fresh
    refine ⟨fun i j later => stored_grows similarity rows calls fresh later, ?_, ?_⟩
    · intro i call id at_ outcome
      have called := called_at similarity rows calls at_
      rw [outcome] at called
      exact called.adds similarity (fresh i call at_)
    · intro i call «into» at_ outcome
      have called := called_at similarity rows calls at_
      rw [outcome] at called
      exact called.keeps similarity

end Runs

def sameVector : Similarity Nat Nat Nat where
  cosine a b := if a = b then 100 else 0
  less a b := decide (a < b)
  reaches score threshold := decide (threshold ≤ score)

def desk (item : String) (vector : List Nat) : AppendCall Nat Nat where
  id := "a"
  item := item
  policy := { threshold := 99, merge := .keepFirst }
  embedded := .ok [vector]
  appends := by decide

/-- Another item under the same id replaces the first one. -/
theorem reused_id_overwrites :
    stored sameVector [] [desk "rust async runtime" [0], desk "python pandas dataframe" [1]] 1 =
        [("a", [0], itemMetadata "a" "rust async runtime")] ∧
      stored sameVector [] [desk "rust async runtime" [0], desk "python pandas dataframe" [1]] 2 =
        [("a", [1], itemMetadata "a" "python pandas dataframe")] ∧
      ¬ RunAppendOnly sameVector [] [desk "rust async runtime" [0], desk "python pandas dataframe" [1]] := by
  have first : stored sameVector [] [desk "rust async runtime" [0], desk "python pandas dataframe" [1]] 1 =
      [("a", [0], itemMetadata "a" "rust async runtime")] := by
    simp [stored, IncrementalIngest.ingestIfNovel, IncrementalIngest.duplicateOf, InMemoryVectorStore.query, desk,
      InMemoryVectorStore.upsert, InMemoryVectorStore.upsertOne, IncrementalIngest.embedOne]
  have second : stored sameVector [] [desk "rust async runtime" [0], desk "python pandas dataframe" [1]] 2 =
      [("a", [1], itemMetadata "a" "python pandas dataframe")] := by
    rw [stored_succ sameVector [] _ rfl, first]
    simp [IncrementalIngest.ingestIfNovel, IncrementalIngest.duplicateOf, InMemoryVectorStore.query, desk,
      InMemoryVectorStore.upsert, InMemoryVectorStore.upsertOne, IncrementalIngest.embedOne, modifyFirst, sameVector,
      IncrementalIngest.topK]
    rfl
  refine ⟨first, second, fun appends => ?_⟩
  have kept := appends.grows 1 2 (by decide)
  rw [first, second] at kept
  simp at kept

end AtomrAgents.Novelty
