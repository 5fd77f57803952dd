import AtomrAgents.Shared.MaxByKey
import AtomrAgents.Shared.Stages
import AtomrAgents.State.RunState

set_option autoImplicit false

namespace AtomrAgents

open Shared

@[ext] structure CheckpointKey where
  workflowId : WorkflowId
  runId : RunId
  superStep : Nat
  deriving DecidableEq

structure Snapshot where
  key : CheckpointKey
  values : Values
  label : String
  timestampMs : Int

structure CheckpointMeta where
  workflowId : WorkflowId
  runId : RunId
  superStep : Nat
  timestampMs : Int

def Snapshot.meta (s : Snapshot) : CheckpointMeta where
  workflowId := s.key.workflowId
  runId := s.key.runId
  superStep := s.key.superStep
  timestampMs := s.timestampMs

-- What a fork saves; its run id is new, and the clock is read once.
def Snapshot.forked (snap : Snapshot) (source : CheckpointKey) (edits : List (String × Value))
    (newRun : RunId) (nowMs : Int) : Snapshot where
  key := { workflowId := snap.key.workflowId, runId := newRun, superStep := snap.key.superStep }
  values := edits.foldl (fun values edit => values.insert edit.1 edit.2) snap.values
  label := "fork-of:" ++ source.runId
  timestampMs := nowMs

def CheckpointKey.notFound (source : CheckpointKey) : AgentError :=
  .internal ("fork: source checkpoint " ++ source.runId ++ "#" ++ toString source.superStep ++
    " not found")

-- The vector behind the lock; every operation is one critical section.
abbrev InMemoryCheckpointer := List Snapshot

namespace InMemoryCheckpointer

def save (store : InMemoryCheckpointer) (snapshot : Snapshot) : InMemoryCheckpointer :=
  store ++ [snapshot]

def ofRun (store : InMemoryCheckpointer) (workflowId : WorkflowId) (runId : RunId) : List Snapshot :=
  store.filter (fun s => s.key.workflowId = workflowId ∧ s.key.runId = runId)

def latest (store : InMemoryCheckpointer) (workflowId : WorkflowId) (runId : RunId) :
    Option Snapshot :=
  maxByKey (fun s => s.key.superStep) (store.ofRun workflowId runId)

def load (store : InMemoryCheckpointer) (key : CheckpointKey) : Option Snapshot :=
  store.find? fun s => s.key = key

def list (store : InMemoryCheckpointer) (workflowId : WorkflowId) (runId : RunId) :
    List CheckpointMeta :=
  (store.ofRun workflowId runId).map Snapshot.meta

def fork (store : InMemoryCheckpointer) (source : CheckpointKey) (edits : List (String × Value))
    (newRun : RunId) (nowMs : Int) : Except AgentError RunId × InMemoryCheckpointer :=
  match store.load source with
  | none => (.error source.notFound, store)
  | some snap => (.ok newRun, store.save (snap.forked source edits newRun nowMs))

def savedStep (store : InMemoryCheckpointer) (workflowId : WorkflowId) (runId : RunId) : Nat :=
  (store.latest workflowId runId).elim 0 (fun s => s.key.superStep)

variable {workflowId : WorkflowId} {runId : RunId}

theorem latest_save_of_le (store : InMemoryCheckpointer) (snapshot : Snapshot)
    (workflow : snapshot.key.workflowId = workflowId) (run : snapshot.key.runId = runId)
    (later : store.savedStep workflowId runId ≤ snapshot.key.superStep) :
    (store.save snapshot).latest workflowId runId = some snapshot := by
  have appended : (store.save snapshot).ofRun workflowId runId =
      store.ofRun workflowId runId ++ [snapshot] := by
    simp [save, ofRun, workflow, run]
  unfold savedStep latest at later
  unfold latest
  rw [appended, maxByKey_snoc]
  cases found : maxByKey (fun s => s.key.superStep) (store.ofRun workflowId runId) with
  | none => rfl
  | some best => simp_all

theorem latest_save_of_ne (store : InMemoryCheckpointer) (snapshot : Snapshot)
    (other : ¬ (snapshot.key.workflowId = workflowId ∧ snapshot.key.runId = runId)) :
    (store.save snapshot).latest workflowId runId = store.latest workflowId runId := by
  have kept : (store.save snapshot).ofRun workflowId runId = store.ofRun workflowId runId := by
    simp [save, ofRun, other]
  rw [latest, latest, kept]

theorem latest_save_of_lt (store : InMemoryCheckpointer) (snapshot : Snapshot)
    (earlier : snapshot.key.superStep < store.savedStep workflowId runId) :
    (store.save snapshot).latest workflowId runId = store.latest workflowId runId := by
  by_cases same : snapshot.key.workflowId = workflowId ∧ snapshot.key.runId = runId
  · unfold savedStep latest at earlier
    unfold latest
    have appended : (store.save snapshot).ofRun workflowId runId =
        store.ofRun workflowId runId ++ [snapshot] := by
      simp [save, ofRun, same]
    rw [appended, maxByKey_snoc]
    cases found : maxByKey (fun s => s.key.superStep) (store.ofRun workflowId runId) with
    | none => simp [found] at earlier
    | some best =>
      simp only [found, Option.elim_some] at earlier
      simp [earlier]
  · exact store.latest_save_of_ne snapshot same

theorem le_savedStep (store : InMemoryCheckpointer) (snapshot : Snapshot)
    (member : snapshot ∈ store.ofRun workflowId runId) :
    snapshot.key.superStep ≤ store.savedStep workflowId runId := by
  unfold savedStep latest
  cases found : maxByKey (fun s => s.key.superStep) (store.ofRun workflowId runId) with
  | none => simp [(maxByKey_eq_none _ _).mp found] at member
  | some best => exact (maxByKey_max _ _ best found).2 snapshot member

theorem savedStep_of_latest {store : InMemoryCheckpointer} {snapshot : Snapshot}
    (saved : store.latest workflowId runId = some snapshot) :
    store.savedStep workflowId runId = snapshot.key.superStep := by
  simp [savedStep, saved]

structure Tracked (workflowId : WorkflowId) (runId : RunId) (store later : InMemoryCheckpointer)
    (position : Nat) : Prop where
  ahead : position < store.savedStep workflowId runId →
    later.latest workflowId runId = store.latest workflowId runId
  behind : store.savedStep workflowId runId ≤ position → later.savedStep workflowId runId ≤ position

theorem Tracked.latest_save {store later : InMemoryCheckpointer} {position : Nat}
    (tracked : Tracked workflowId runId store later position) (snapshot : Snapshot)
    (workflow : snapshot.key.workflowId = workflowId) (run : snapshot.key.runId = runId)
    (onward : position ≤ snapshot.key.superStep)
    (behind : store.savedStep workflowId runId ≤ snapshot.key.superStep) :
    (later.save snapshot).latest workflowId runId = some snapshot := by
  apply later.latest_save_of_le snapshot workflow run
  by_cases passed : store.savedStep workflowId runId ≤ position
  · exact (tracked.behind passed).trans onward
  · rw [savedStep, tracked.ahead (by omega)]
    exact behind

theorem Tracked.save {store later : InMemoryCheckpointer} {position : Nat}
    (tracked : Tracked workflowId runId store later position) (snapshot : Snapshot)
    (workflow : snapshot.key.workflowId = workflowId) (run : snapshot.key.runId = runId)
    (onward : position ≤ snapshot.key.superStep) :
    Tracked workflowId runId store (later.save snapshot) snapshot.key.superStep where
  ahead := by
    intro ahead
    have same := tracked.ahead (by omega)
    rw [← same]
    apply later.latest_save_of_lt
    rwa [savedStep, same]
  behind := by
    intro behind
    rw [savedStep_of_latest (tracked.latest_save snapshot workflow run onward behind)]

end InMemoryCheckpointer

def RunState.hydrate (schema : StateSchema) : Option Snapshot → RunState
  | some snapshot => .fromSnapshot schema snapshot.values snapshot.key.superStep
  | none => .new schema

theorem RunState.hydrate_superStep (schema : StateSchema) (store : InMemoryCheckpointer)
    (workflowId : WorkflowId) (runId : RunId) :
    (hydrate schema (store.latest workflowId runId)).superStep = store.savedStep workflowId runId := by
  unfold InMemoryCheckpointer.savedStep
  cases store.latest workflowId runId <;> rfl

structure Progress (workflowId : WorkflowId) (runId : RunId) (schema : StateSchema)
    (store : InMemoryCheckpointer) {stages : List (Stage RunState AgentError)}
    (checkpoint : Checkpoint stages (.new schema)) : Prop where
  hydrate : .hydrate schema (store.latest workflowId runId) = checkpoint.state
  schema : checkpoint.state.schema = schema
  position : checkpoint.state.superStep = checkpoint.position

namespace Progress

variable {workflowId : WorkflowId} {runId : RunId} {schema : StateSchema}
  {store : InMemoryCheckpointer} {stages : List (Stage RunState AgentError)}
  {checkpoint : Checkpoint stages (.new schema)}

theorem initial (stages : List (Stage RunState AgentError))
    (fresh : store.latest workflowId runId = none) :
    Progress workflowId runId schema store (Checkpoint.initial stages (.new schema)) where
  hydrate := by rw [fresh, RunState.hydrate, Checkpoint.initial]
  schema := rfl
  position := rfl

theorem savedStep (progress : Progress workflowId runId schema store checkpoint) :
    store.savedStep workflowId runId = checkpoint.position := by
  rw [← RunState.hydrate_superStep schema, progress.hydrate, progress.position]

theorem save (progress : Progress workflowId runId schema store checkpoint)
    (later : Checkpoint stages (.new schema)) (snapshot : Snapshot)
    (workflow : snapshot.key.workflowId = workflowId) (run : snapshot.key.runId = runId)
    (values : snapshot.values = later.state.values)
    (step : snapshot.key.superStep = later.position) (schema' : later.state.schema = schema)
    (position : later.state.superStep = later.position)
    (onward : checkpoint.position ≤ later.position) :
    Progress workflowId runId schema (store.save snapshot) later where
  hydrate := by
    have newest : (store.save snapshot).latest workflowId runId = some snapshot := by
      apply store.latest_save_of_le snapshot workflow run
      rwa [progress.savedStep, step]
    rw [newest, RunState.hydrate, values, step, ← position]
    cases state : later.state
    simp_all [RunState.fromSnapshot]
  schema := schema'
  position := position

end Progress

end AtomrAgents
