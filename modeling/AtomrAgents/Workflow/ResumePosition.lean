import AtomrAgents.Workflow.InterruptLoop

set_option autoImplicit false

namespace AtomrAgents.Interruptible

open Shared

variable {W : Type}

def pausePosition (n : Nat) : PauseReason → Nat
  | .dynamicInterrupt _ => n - 1
  | .before _ => n - 1
  | .after _ => n

def pauseValues (values : Values) : Option Value → Values
  | some p => values.insert "__interrupt_payload__" p
  | none => values

structure Persisted (r : Interruptible W) (store : InMemoryCheckpointer) (report : CallReport)
    (position : Nat) (payload : Option Value) : Prop where
  ahead : position < store.savedStep r.workflowId r.runId →
    report.checkpointer.latest r.workflowId r.runId = store.latest r.workflowId r.runId
  behind : store.savedStep r.workflowId r.runId ≤ position →
    ∃ snapshot, report.checkpointer.latest r.workflowId r.runId = some snapshot ∧
      snapshot.key.superStep = position ∧ snapshot.values = pauseValues report.state.values payload

theorem persisted_of_save (r : Interruptible W) {store later : InMemoryCheckpointer} {p : Nat}
    (tracked : store.Tracked r.workflowId r.runId later p) (snapshot : Snapshot)
    (workflow : snapshot.key.workflowId = r.workflowId) (run : snapshot.key.runId = r.runId)
    (onward : p ≤ snapshot.key.superStep) (report : CallReport) (payload : Option Value)
    (saved : report.checkpointer = later.save snapshot)
    (values : snapshot.values = pauseValues report.state.values payload) :
    r.Persisted store report snapshot.key.superStep payload where
  ahead := by
    rw [saved]
    exact (tracked.save snapshot workflow run onward).ahead
  behind := by
    intro behind
    rw [saved]
    exact ⟨snapshot, tracked.latest_save snapshot workflow run onward behind, rfl, values⟩

theorem runInner_persisted (r : Interruptible W) (w : W) (store : InMemoryCheckpointer)
    (state : RunState) (resumeValue : Option Value) (goto : Option StepId) (skip : Bool)
    {order : List StepId} (sorted : r.dag.topoSort = .ok order) :
    ∀ n reason payload, (r.runInner w store state resumeValue goto skip).result =
        .ok (.paused n reason payload) →
      r.Persisted store (r.runInner w store state resumeValue goto skip) (pausePosition n reason)
        payload := by
  refine r.runInner_post w store state resumeValue goto skip sorted
    (fun p cursor => store.Tracked r.workflowId r.runId cursor.checkpointer p)
    (fun report => ∀ n reason payload, report.result = .ok (.paused n reason payload) →
      r.Persisted store report (pausePosition n reason) payload)
    ⟨fun _ => rfl, id⟩ ?_ (fun p cursor _ _ _ n reason payload paused => nomatch paused)
  intro p layer cursor flow _ _ tracked turn
  cases turn with
  | before sid hit =>
    intro n reason payload paused
    cases paused
    exact persisted_of_save r tracked
      (r.pauseSnapshot cursor.state p (.before sid) none cursor.checkpointer)
      rfl rfl (Nat.le_refl p) _ none rfl rfl
  | failed skip clear e loop ran | rejected skip clear loop ran e state merged =>
    intro n reason payload paused
    cases paused
  | interrupted skip clear req loop ran =>
    intro n reason payload paused
    cases paused
    exact persisted_of_save r tracked
      (r.pauseSnapshot cursor.state p (.dynamicInterrupt req.stepId) req.payload cursor.checkpointer)
      rfl rfl (Nat.le_refl p) _ _ rfl rfl
  | after skip clear loop ran next committed sid hit =>
    intro n reason payload paused
    cases paused
    exact persisted_of_save r tracked (r.layerSnapshot (p + 1) next cursor.checkpointer)
      rfl rfl (Nat.le_succ p) _ none rfl rfl
  | completed skip clear loop ran next committed skip' clear' =>
    exact tracked.save (r.layerSnapshot (p + 1) next cursor.checkpointer) rfl rfl (Nat.le_succ p)

theorem call_persisted (r : Interruptible W) (w : W) (store : InMemoryCheckpointer) (call : Call)
    (n : Nat) (reason : PauseReason) (payload : Option Value)
    (paused : (r.call w store call).result = .ok (.paused n reason payload)) :
    r.Persisted store (r.call w store call) (pausePosition n reason) payload := by
  cases sorted : r.dag.topoSort with
  | error e =>
    obtain ⟨_, _, report⟩ := r.call_unsorted w store call sorted
    rw [report] at paused
    cases paused
  | ok order =>
    cases call with
    | run => exact r.runInner_persisted w store _ none none false sorted n reason payload paused
    | resume command =>
      cases saved : store.latest r.workflowId r.runId with
      | none => simp [Interruptible.call, resume, saved] at paused
      | some snap =>
        simp only [Interruptible.call, resume, saved] at paused ⊢
        exact r.runInner_persisted w store _ _ _ true sorted n reason payload paused

-- No snapshot is ahead of the pause, and its payload overwrites no channel.
def Recorded (r : Interruptible W) (store : InMemoryCheckpointer) (position : Nat) (values : Values)
    (payload : Option Value) : Prop :=
  store.savedStep r.workflowId r.runId ≤ position ∧
    ∀ p, payload = some p → "__interrupt_payload__" ∈ r.schema.channels →
      values["__interrupt_payload__"]? = some p

end AtomrAgents.Interruptible
