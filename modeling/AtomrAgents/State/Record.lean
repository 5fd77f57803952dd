import AtomrAgents.Shared.Table
import AtomrAgents.State.Checkpointer

set_option autoImplicit false

namespace AtomrAgents

open Shared

structure UsageRecord where
  promptTokens : UInt32
  completionTokens : UInt32
  reasoningTokens : UInt32
  cachedTokens : UInt32

structure InferenceRecord where
  provider : String
  modelId : String
  modelVersion : String
  paramsHash : String
  promptHash : String
  rawCompletion : String
  finishReason : Option String
  usage : UsageRecord
  toolCalls : List Value

structure ToolCallRecord where
  tool : String
  argsHash : String
  ret : Value
  isSideEffecting : Bool

structure StepRecord where
  key : CheckpointKey
  inference : Option InferenceRecord
  toolCalls : List ToolCallRecord
  stateSnapshot : Values

def StepRecord.new (key : CheckpointKey) : StepRecord where
  key := key
  inference := none
  toolCalls := []
  stateSnapshot := ∅

abbrev StepRecord.superStep (record : StepRecord) : Nat := record.key.superStep

def StepRecord.OfRun (workflowId : WorkflowId) (runId : RunId) (record : StepRecord) : Prop :=
  record.key.workflowId = workflowId ∧ record.key.runId = runId

instance (workflowId : WorkflowId) (runId : RunId) (record : StepRecord) :
    Decidable (record.OfRun workflowId runId) :=
  inferInstanceAs (Decidable (_ ∧ _))

-- The vector behind the lock: `save_record` replaces the record under the key or appends a new one.
abbrev InMemoryStepRecordStore := Table StepRecord.key

namespace InMemoryStepRecordStore

def saveRecord (store : InMemoryStepRecordStore) (record : StepRecord) : InMemoryStepRecordStore :=
  store.upsert record

def listRecords (store : InMemoryStepRecordStore) (workflowId : WorkflowId) (runId : RunId) :
    List StepRecord :=
  orderBy StepRecord.superStep (store.rows.filter fun record => record.OfRun workflowId runId)

section

variable {store : InMemoryStepRecordStore} {workflowId : WorkflowId} {runId : RunId}
  {record : StepRecord}

theorem mem_listRecords :
    record ∈ store.listRecords workflowId runId ↔ record ∈ store.rows ∧ record.OfRun workflowId runId := by
  rw [listRecords, (orderBy_perm _ _).mem_iff, List.mem_filter, decide_eq_true_iff]

theorem superStep_inj {record' : StepRecord} (own : record.OfRun workflowId runId)
    (own' : record'.OfRun workflowId runId) (same : record.superStep = record'.superStep) :
    record.key = record'.key := by
  apply CheckpointKey.ext
  · rw [own.1, own'.1]
  · rw [own.2, own'.2]
  · exact same

theorem pairwise_listRecords (store : InMemoryStepRecordStore) (workflowId : WorkflowId) (runId : RunId) :
    (store.listRecords workflowId runId).Pairwise fun a b => a.superStep < b.superStep := by
  have distinct : ((store.rows.filter fun record => record.OfRun workflowId runId).map
      StepRecord.superStep).Nodup := by
    apply List.Nodup.map_on _ ((store.unique.of_map _).filter _)
    intro a here b there same
    rw [List.mem_filter, decide_eq_true_iff] at here there
    exact List.inj_on_of_nodup_map store.unique here.1 there.1 (superStep_inj here.2 there.2 same)
  exact strictly_increasing_orderBy distinct

theorem listRecords_saveRecord_other (other : ¬record.OfRun workflowId runId) :
    (store.saveRecord record).listRecords workflowId runId = store.listRecords workflowId runId := by
  have kept := store.filter_rows_upsert
    (fun key => key.workflowId = workflowId ∧ key.runId = runId) (decide_eq_false other)
  exact congrArg (orderBy StepRecord.superStep) kept

theorem listRecords_split
    (last : ∀ other ∈ store.listRecords workflowId runId, other.superStep ≤ record.superStep) :
    ∃ old : Option StepRecord, store.listRecords workflowId runId =
        (store.listRecords workflowId runId).filter (fun other => other.key ≠ record.key) ++ old.toList ∧
      ∀ other ∈ old, other.key = record.key := by
  have others : ∀ other ∈ store.listRecords workflowId runId, other.superStep < record.superStep →
      other.key ≠ record.key := by
    intro other _ less same
    rw [StepRecord.superStep, same] at less
    exact Nat.lt_irrefl _ less
  rcases List.eq_nil_or_concat (store.listRecords workflowId runId) with empty | ⟨front, old, whole⟩
  · exact ⟨none, by simp [empty], by simp⟩
  · have increasing := store.pairwise_listRecords workflowId runId
    rw [whole, List.concat_eq_append] at increasing last others ⊢
    have earlier : front.filter (fun other => other.key ≠ record.key) = front := by
      rw [List.filter_eq_self]
      intro other member
      have less := (List.pairwise_append.mp increasing).2.2 other member old (by simp)
      have le := last old (by simp)
      exact decide_eq_true (others other (by simp [member]) (lt_of_lt_of_le less le))
    rw [List.filter_append, earlier]
    by_cases same : old.key = record.key
    · exact ⟨some old, by simp [same], by simp [same]⟩
    · exact ⟨none, by simp [same], by simp⟩

theorem listRecords_saveRecord_last (own : record.OfRun workflowId runId)
    (last : ∀ other ∈ store.listRecords workflowId runId, other.superStep ≤ record.superStep) :
    (store.saveRecord record).listRecords workflowId runId =
      (store.listRecords workflowId runId).filter (fun other => other.key ≠ record.key) ++ [record] := by
  apply orderBy_eq
  · have rows := (store.rows_upsert_perm record).filter fun record => record.OfRun workflowId runId
    refine rows.trans ?_
    have self : [record].filter (fun record => record.OfRun workflowId runId) = [record] := by
      simp [own]
    rw [List.filter_append, self]
    apply List.Perm.append_right
    rw [List.filter_comm]
    exact ((orderBy_perm _ _).filter _).symm
  · rw [List.pairwise_append]
    refine ⟨(store.pairwise_listRecords workflowId runId).filter _, List.pairwise_singleton _ _, ?_⟩
    intro other member new last'
    rw [List.mem_singleton] at last'
    subst last'
    rw [List.mem_filter, decide_eq_true_iff] at member
    have le := last other member.1
    exact lt_of_le_of_ne le fun same =>
      member.2 (superStep_inj (mem_listRecords.mp member.1).2 own same)

theorem listRecords_saves (saves : List StepRecord)
    (once : ((saves.filter fun record => record.OfRun workflowId runId).map StepRecord.superStep).Nodup) :
    InMemoryStepRecordStore.listRecords (saves.foldl saveRecord Table.empty) workflowId runId =
      orderBy StepRecord.superStep (saves.filter fun record => record.OfRun workflowId runId) := by
  have written (log : List StepRecord) (store : InMemoryStepRecordStore) (front : List StepRecord)
      (before : store.Written front) : (log.foldl saveRecord store).Written (front ++ log) := by
    induction log generalizing store front with
    | nil => rw [List.append_nil]; exact before
    | cons record log ih =>
      have later := ih (store.saveRecord record) (front ++ [record]) (before.upsert record)
      rwa [List.append_assoc, List.singleton_append] at later
  apply orderBy_congr _ once
  refine (written saves Table.empty [] Table.Written.empty).filter_perm
    (fun key => key.workflowId = workflowId ∧ key.runId = runId) ?_
  apply List.Nodup.of_map CheckpointKey.superStep
  rw [List.map_map]
  exact once

end

end InMemoryStepRecordStore

end AtomrAgents
