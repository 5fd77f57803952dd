import AtomrAgents.Core.Text
import AtomrAgents.Core.Value
import AtomrAgents.Shared.Joined
import AtomrAgents.Shared.KeySpace
import AtomrAgents.State.Checkpointer
import Std.Data.String.ToNat

set_option autoImplicit false

/-! A snapshot is a text at `ckpt:{workflow}:{run}:{step}`, and a sorted set for each run at
`ckpt-idx:{workflow}:{run}` has its steps. Identifiers are put into the keys as they are. -/

namespace AtomrAgents

open Shared

-- `wrongType`, `notU64`: how the client words these errors; `asF64`: the score of a step.
structure RedisCheckpointer (S : Type) where
  keyPrefix : String
  json : SerdeJson Snapshot
  asF64 : Nat → S
  wrongType : String
  notU64 : String → String

namespace RedisCheckpointer

variable {S : Type} (ckpt : RedisCheckpointer S)

def backendErr (text : String) : AgentError := .internal ("RedisCheckpointer backend error: " ++ text)

def dataKey (k : CheckpointKey) : String :=
  ckpt.keyPrefix ++ ":" ++ k.workflowId ++ ":" ++ k.runId ++ ":" ++ toString k.superStep

def indexKey (wf : WorkflowId) (run : RunId) : String := ckpt.keyPrefix ++ "-idx:" ++ wf ++ ":" ++ run

variable (space : KeySpace S)

def save (snapshot : Snapshot) : Except AgentError Unit × KeySpace S :=
  let space := space.set (ckpt.dataKey snapshot.key) (ckpt.json.toString snapshot)
  let step := snapshot.key.superStep
  match space.zadd (ckpt.indexKey snapshot.key.workflowId snapshot.key.runId) (toString step)
      (ckpt.asF64 step) with
  | .error _ => (.error (backendErr ckpt.wrongType), space)
  | .ok space => (.ok (), space)

def load (key : CheckpointKey) : Except AgentError (Option Snapshot) :=
  match space.get (ckpt.dataKey key) with
  | .error _ => .error (backendErr ckpt.wrongType)
  | .ok none => .ok none
  | .ok (some data) => (ckpt.json.fromStr data).map some

def steps (members : Except WrongType (List String)) : Except AgentError (List Nat) :=
  match members with
  | .error _ => .error (backendErr ckpt.wrongType)
  | .ok members => members.mapM fun member =>
    match parseU64 member with
    | none => .error (backendErr (ckpt.notU64 member))
    | some step => .ok step

variable [LinearOrder S]

def latest (workflowId : WorkflowId) (runId : RunId) : Except AgentError (Option Snapshot) :=
  match ckpt.steps (space.zrevrange (ckpt.indexKey workflowId runId) 1) with
  | .error e => .error e
  | .ok [] => .ok none
  | .ok (step :: _) => ckpt.load space { workflowId, runId, superStep := step }

def list (workflowId : WorkflowId) (runId : RunId) : Except AgentError (List CheckpointMeta) :=
  match ckpt.steps (space.zrange (ckpt.indexKey workflowId runId)) with
  | .error e => .error e
  | .ok steps => do
    let loaded ← steps.mapM fun step => ckpt.load space { workflowId, runId, superStep := step }
    return (loaded.filterMap id).map Snapshot.meta

end RedisCheckpointer

end AtomrAgents

namespace AtomrAgents

open Shared

namespace RedisCheckpointer

variable {S : Type} [LinearOrder S] (ckpt : RedisCheckpointer S)

structure Separated (wf : WorkflowId) (run : RunId) (wf' : WorkflowId) (run' : RunId) : Prop where
  dataKeys : ∀ step step', (wf, run, step) ≠ (wf', run', step') →
    ckpt.dataKey ⟨wf, run, step⟩ ≠ ckpt.dataKey ⟨wf', run', step'⟩
  indexKeys : (wf, run) ≠ (wf', run') → ckpt.indexKey wf run ≠ ckpt.indexKey wf' run'
  kinds : ∀ step, ckpt.dataKey ⟨wf, run, step⟩ ≠ ckpt.indexKey wf' run'
  untouched : (wf, run) ≠ (wf', run') → ∀ (space : KeySpace S) (snapshot : Snapshot),
    snapshot.key.workflowId = wf → snapshot.key.runId = run →
      (∀ step, ckpt.load (ckpt.save space snapshot).2 ⟨wf', run', step⟩ =
        ckpt.load space ⟨wf', run', step⟩) ∧
      ckpt.latest (ckpt.save space snapshot).2 wf' run' = ckpt.latest space wf' run' ∧
      ckpt.list (ckpt.save space snapshot).2 wf' run' = ckpt.list space wf' run'

-- The one workflow identifier is the other one with a piece that the other run identifier begins with.
def Overlap (wf : WorkflowId) (run : RunId) (wf' : WorkflowId) (run' : RunId) : Prop :=
  Shifted ':' wf.toList run.toList wf'.toList run'.toList ∨
    Shifted ':' wf'.toList run'.toList wf.toList run.toList

variable {ckpt} {wf wf' : WorkflowId} {run run' : RunId} {step step' : Nat}

section Keys

omit [LinearOrder S]

theorem toList_dataKey (k : CheckpointKey) : (ckpt.dataKey k).toList =
    (ckpt.keyPrefix.toList ++ ':' :: (k.workflowId.toList ++ ':' :: k.runId.toList)) ++
      ':' :: (toString k.superStep).toList := by
  simp [dataKey, String.toList_append]

theorem toList_indexKey (wf : WorkflowId) (run : RunId) : (ckpt.indexKey wf run).toList =
    ckpt.keyPrefix.toList ++ ("-idx:".toList ++ (wf.toList ++ ':' :: run.toList)) := by
  simp [indexKey, String.toList_append]

theorem dataKey_eq_iff : ckpt.dataKey ⟨wf, run, step⟩ = ckpt.dataKey ⟨wf', run', step'⟩ ↔
    wf.toList ++ ':' :: run.toList = wf'.toList ++ ':' :: run'.toList ∧ step = step' := by
  rw [← String.toList_inj, toList_dataKey, toList_dataKey,
    joined_inj_of_not_mem_right (colon_not_mem_toString step) (colon_not_mem_toString step'),
    String.toList_inj, Nat.toString_eq_repr, Nat.toString_eq_repr, Nat.repr_inj]
  simp

theorem indexKey_eq_iff : ckpt.indexKey wf run = ckpt.indexKey wf' run' ↔
    wf.toList ++ ':' :: run.toList = wf'.toList ++ ':' :: run'.toList := by
  rw [← String.toList_inj, toList_indexKey, toList_indexKey, List.append_cancel_left_eq,
    List.append_cancel_left_eq]

theorem dataKey_ne_indexKey (k : CheckpointKey) (wf : WorkflowId) (run : RunId) :
    ckpt.dataKey k ≠ ckpt.indexKey wf run := by
  intro same
  have letters := congrArg String.toList same
  rw [toList_dataKey, toList_indexKey, List.append_assoc, List.append_cancel_left_eq] at letters
  simp at letters

theorem runs_eq_iff : wf.toList ++ ':' :: run.toList = wf'.toList ++ ':' :: run'.toList ↔
    (wf, run) = (wf', run') ∨ Overlap wf run wf' run' := by
  rw [joined_eq_iff, Prod.mk.injEq, String.toList_inj, String.toList_inj, Overlap]

theorem dataKey_ne (apart : ¬ Overlap wf run wf' run') (other : (wf, run, step) ≠ (wf', run', step')) :
    ckpt.dataKey ⟨wf, run, step⟩ ≠ ckpt.dataKey ⟨wf', run', step'⟩ := by
  intro same
  obtain ⟨joined, rfl⟩ := dataKey_eq_iff.mp same
  rcases runs_eq_iff.mp joined with equal | overlap
  · cases equal
    exact other rfl
  · exact apart overlap

theorem indexKey_ne (apart : ¬ Overlap wf run wf' run') (other : (wf, run) ≠ (wf', run')) :
    ckpt.indexKey wf run ≠ ckpt.indexKey wf' run' := by
  intro same
  rcases runs_eq_iff.mp (indexKey_eq_iff.mp same) with equal | overlap
  · exact other equal
  · exact apart overlap

theorem Overlap.ne (overlap : Overlap wf run wf' run') : (wf, run) ≠ (wf', run') := by
  intro same
  rw [Prod.mk.injEq] at same
  rcases overlap with shifted | shifted
  · exact shifted.ne (congrArg String.toList same.1)
  · exact shifted.ne (congrArg String.toList same.1.symm)

end Keys

section Frame

variable {space space' : KeySpace S} {snapshot : Snapshot} {key : String}

omit [LinearOrder S] in
theorem save_of_ne_index (index : key ≠ ckpt.indexKey snapshot.key.workflowId snapshot.key.runId) :
    (ckpt.save space snapshot).2 key =
      space.set (ckpt.dataKey snapshot.key) (ckpt.json.toString snapshot) key := by
  unfold save
  cases added : (space.set (ckpt.dataKey snapshot.key) (ckpt.json.toString snapshot)).zadd
      (ckpt.indexKey snapshot.key.workflowId snapshot.key.runId) (toString snapshot.key.superStep)
      (ckpt.asF64 snapshot.key.superStep) with
  | error e => simp only [added]
  | ok after =>
    simp only [added]
    exact KeySpace.zadd_of_ne index added

omit [LinearOrder S] in
theorem save_of_ne (data : key ≠ ckpt.dataKey snapshot.key)
    (index : key ≠ ckpt.indexKey snapshot.key.workflowId snapshot.key.runId) :
    (ckpt.save space snapshot).2 key = space key := by
  rw [save_of_ne_index index, KeySpace.set_of_ne data]

omit [LinearOrder S] in
theorem load_save {k : CheckpointKey} (same : ckpt.dataKey k = ckpt.dataKey snapshot.key) :
    ckpt.load (ckpt.save space snapshot).2 k =
      (ckpt.json.fromStr (ckpt.json.toString snapshot)).map some := by
  have saved : (ckpt.save space snapshot).2 (ckpt.dataKey snapshot.key) =
      some (.text (ckpt.json.toString snapshot)) := by
    rw [save_of_ne_index (dataKey_ne_indexKey _ _ _)]
    exact Function.update_self _ _ _
  rw [load, KeySpace.get, same, saved]

omit [LinearOrder S] in
theorem load_congr {k : CheckpointKey} (data : space' (ckpt.dataKey k) = space (ckpt.dataKey k)) :
    ckpt.load space' k = ckpt.load space k := by
  simp only [load, KeySpace.get, data]

theorem latest_congr
    (data : ∀ step, space' (ckpt.dataKey ⟨wf, run, step⟩) = space (ckpt.dataKey ⟨wf, run, step⟩))
    (index : space' (ckpt.indexKey wf run) = space (ckpt.indexKey wf run)) :
    ckpt.latest space' wf run = ckpt.latest space wf run := by
  simp only [latest, KeySpace.zrevrange, KeySpace.zrange, index, load_congr (data _)]

theorem list_congr
    (data : ∀ step, space' (ckpt.dataKey ⟨wf, run, step⟩) = space (ckpt.dataKey ⟨wf, run, step⟩))
    (index : space' (ckpt.indexKey wf run) = space (ckpt.indexKey wf run)) :
    ckpt.list space' wf run = ckpt.list space wf run := by
  simp only [list, KeySpace.zrange, index, load_congr (data _)]

end Frame

/-- Any two runs are apart just when their identifiers do not overlap. -/
theorem separated_iff (ckpt : RedisCheckpointer S) (wf : WorkflowId) (run : RunId) (wf' : WorkflowId)
    (run' : RunId) : ckpt.Separated wf run wf' run' ↔ ¬ Overlap wf run wf' run' := by
  constructor
  · intro separated overlap
    exact separated.indexKeys overlap.ne (indexKey_eq_iff.mpr (runs_eq_iff.mpr (.inr overlap)))
  · intro apart
    refine ⟨fun _ _ => dataKey_ne apart, indexKey_ne apart, fun step => dataKey_ne_indexKey _ _ _, ?_⟩
    rintro other space snapshot rfl rfl
    have kept_data : ∀ step, (ckpt.save space snapshot).2 (ckpt.dataKey ⟨wf', run', step⟩) =
        space (ckpt.dataKey ⟨wf', run', step⟩) := by
      intro step
      apply save_of_ne
      · apply (dataKey_ne apart ?_).symm
        intro same
        simp_all
      · exact dataKey_ne_indexKey _ _ _
    have kept_index : (ckpt.save space snapshot).2 (ckpt.indexKey wf' run') =
        space (ckpt.indexKey wf' run') := by
      apply save_of_ne
      · exact (dataKey_ne_indexKey _ _ _).symm
      · exact (indexKey_ne apart other).symm
    exact ⟨fun step => load_congr (kept_data step), latest_congr kept_data kept_index,
      list_congr kept_data kept_index⟩

section Example

def labels : SerdeJson Snapshot where
  toString snapshot := snapshot.label
  fromStr text := .ok { key := ⟨"a:b", "c", 0⟩, values := ∅, label := text, timestampMs := 0 }

def local_ : RedisCheckpointer Nat where
  keyPrefix := "ckpt"
  json := labels
  asF64 := id
  wrongType := "WRONGTYPE: Operation against a key holding the wrong kind of value"
  notU64 text := "Could not convert from string: " ++ text

def saved : Snapshot := { key := ⟨"a:b", "c", 0⟩, values := ∅, label := "init", timestampMs := 0 }

-- The run `c` of `a:b` saves a snapshot, and the run `b:c` of `a` loads it.
theorem separated_iff_fails : ¬ local_.Separated "a:b" "c" "a" "b:c" := by
  intro separated
  have same : local_.dataKey ⟨"a", "b:c", 0⟩ = local_.dataKey saved.key :=
    dataKey_eq_iff.mpr ⟨by decide, rfl⟩
  have loaded := (separated.untouched (by decide) (fun _ => none) saved rfl rfl).1 0
  rw [load_save same] at loaded
  cases loaded

end Example

end RedisCheckpointer

end AtomrAgents
