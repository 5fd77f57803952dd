import AtomrAgents.Workflow.InterruptLoop

set_option autoImplicit false

namespace AtomrAgents.Interruptible

open Shared

variable {W : Type}

def bypassed (r : Interruptible W) : List (List StepId) → Option StepId
  | [] => none
  | layer :: rest =>
    match layer.filter (· ∈ r.interruptBefore) with
    | [sid] => some sid
    -- the second breakpoint of the layer pauses the run before any of its steps
    | _ :: _ :: _ => none
    -- an After breakpoint uses the flag up
    | [] => if layer.any (· ∈ r.interruptAfter) then none else r.bypassed rest

theorem clear_allows (r : Interruptible W) (allowed : StepId → Prop) (layer : List StepId)
    (rest : List (List StepId)) (armed skip : Bool)
    (clear : breakpoint r.interruptBefore layer armed = (skip, none))
    (opens : armed = true → ∀ sid, r.bypassed (layer :: rest) = some sid → allowed sid) :
    (∀ sid ∈ layer, sid ∈ r.interruptBefore → allowed sid) ∧
      (skip = true → armed = true ∧ layer.filter (· ∈ r.interruptBefore) = []) := by
  have listed (sid : StepId) : sid ∈ layer → sid ∈ r.interruptBefore →
      sid ∈ layer.filter (· ∈ r.interruptBefore) :=
    fun inside gated => List.mem_filter.mpr ⟨inside, by simpa using gated⟩
  rw [breakpoint_eq] at clear
  cases gates : layer.filter (· ∈ r.interruptBefore) with
  | nil =>
    rw [gates] at clear listed
    refine ⟨fun sid inside gated => (nomatch listed sid inside gated), fun still => ⟨?_, rfl⟩⟩
    simpa [still] using clear
  | cons first others =>
    rw [gates] at clear listed
    cases armed with
    | false => simp at clear
    | true =>
      cases others with
      | cons second more => simp at clear
      | nil =>
        refine ⟨fun sid inside gated => ?_, fun still => by simp [still] at clear⟩
        have only : sid = first := by simpa using listed sid inside gated
        exact opens rfl sid (by simp [bypassed, gates, only])

theorem runInner_gated (r : Interruptible W) (w : W) (store : InMemoryCheckpointer) (state : RunState)
    (resumeValue : Option Value) (goto : Option StepId) (skip : Bool) {order : List StepId}
    (sorted : r.dag.topoSort = .ok order) (allowed : StepId → Prop)
    (opens : skip = true → ∀ sid, r.bypassed ((r.dag.layered order).drop
      (startLayer (r.dag.layered order) state.superStep goto)) = some sid → allowed sid) :
    ∀ v ∈ (r.runInner w store state resumeValue goto skip).visits,
      v.stepId ∈ r.interruptBefore → allowed v.stepId := by
  refine r.runInner_post w store state resumeValue goto skip sorted
    (fun p cursor => (∀ v ∈ cursor.visits, v.stepId ∈ r.interruptBefore → allowed v.stepId) ∧
      (cursor.skipBreakpointsOnce = true → ∀ sid,
        r.bypassed ((r.dag.layered order).drop p) = some sid → allowed sid))
    (fun report => ∀ v ∈ report.visits, v.stepId ∈ r.interruptBefore → allowed v.stepId)
    ⟨fun v member => (nomatch member), opens⟩ ?_ (fun p cursor _ _ holds => holds.1)
  intro p layer cursor flow found _ ⟨visited, opens⟩ turn
  have remaining : (r.dag.layered order).drop p = layer :: (r.dag.layered order).drop (p + 1) := by
    rw [List.drop_eq_getElem?_toList_append, found]
    rfl
  rw [remaining] at opens
  -- a visit added by this turn is of a step of the layer
  have extended {skip : Bool} {front : List StepId} {visits' new : List Visit}
      (clear : breakpoint r.interruptBefore layer cursor.skipBreakpointsOnce = (skip, none))
      (part : front ⊆ layer)
      (passed : Passed (p + 1) cursor.state front cursor.visits visits' new) :
      ∀ v ∈ visits', v.stepId ∈ r.interruptBefore → allowed v.stepId := by
    intro v member gated
    cases passed.mem part v member with
    | inl old => exact visited v old gated
    | inr inside => exact (r.clear_allows allowed layer _ _ _ clear opens).1 _ inside gated
  have pass := r.visitSteps_passed w (p + 1) cursor layer
  cases turn with
  | before sid hit => exact visited
  | failed skip clear e loop ran | interrupted skip clear req loop ran =>
    rw [ran] at pass
    obtain ⟨front, new, part, passed⟩ := pass
    exact extended clear part.subset passed
  | rejected skip clear loop ran e state merged | after skip clear loop ran next committed sid hit =>
    rw [ran] at pass
    obtain ⟨new, passed⟩ := pass
    exact extended clear (List.Subset.refl _) passed
  | completed skip clear loop ran next committed skip' clear' =>
    rw [ran] at pass
    obtain ⟨new, passed⟩ := pass
    refine ⟨extended clear (List.Subset.refl _) passed, fun still sid ahead => ?_⟩
    -- the flag is still armed, so this layer had no breakpoint of either kind
    have scanned : skip = true ∧ layer.filter (· ∈ r.interruptAfter) = [] := by
      rw [breakpoint_eq] at clear'
      dsimp only at still
      subst still
      split at clear' <;> simp_all
    obtain ⟨armed, ungated⟩ := (r.clear_allows allowed layer _ _ _ clear opens).2 scanned.1
    have unpaused : layer.any (· ∈ r.interruptAfter) = false := by
      rw [List.any_eq_false]
      exact fun s inside => by simpa using List.filter_eq_nil_iff.mp scanned.2 s inside
    exact opens armed sid (by simpa [bypassed, ungated, unpaused] using ahead)

def PausedBefore (earlier : List CallReport) (sid : StepId) : Prop :=
  ∃ report ∈ earlier, ∃ superStep, report.pause = some (superStep, .before sid)

-- If this call lets the run through a Before breakpoint, that one has paused before.
def Gated (r : Interruptible W) (earlier : List CallReport) (store : InMemoryCheckpointer) :
    Call → Prop
  | .run => True
  | .resume command => ∀ order, r.dag.topoSort = .ok order → ∀ sid,
      r.bypassed ((r.dag.layered order).drop (startLayer (r.dag.layered order)
        (store.savedStep r.workflowId r.runId) command.parts.2.2)) = some sid →
      PausedBefore earlier sid

theorem call_gated (r : Interruptible W) (w : W) (store : InMemoryCheckpointer) (call : Call)
    (earlier : List CallReport) (gated : r.Gated earlier store call) :
    ∀ v ∈ (r.call w store call).visits, v.stepId ∈ r.interruptBefore →
      PausedBefore earlier v.stepId := by
  cases sorted : r.dag.topoSort with
  | error e =>
    obtain ⟨_, _, report⟩ := r.call_unsorted w store call sorted
    rw [report]
    exact fun v member => nomatch member
  | ok order =>
    cases call with
    | run => exact r.runInner_gated w store _ none none false sorted _ (fun armed => nomatch armed)
    | resume command =>
      cases saved : store.latest r.workflowId r.runId with
      | none =>
        intro v member
        simp [Interruptible.call, resume, saved] at member
      | some snap =>
        have position : store.savedStep r.workflowId r.runId = snap.key.superStep := by
          rw [InMemoryCheckpointer.savedStep, saved]
          rfl
        have opens := gated order sorted
        rw [position] at opens
        simp only [Interruptible.call, resume, saved]
        exact r.runInner_gated w store _ _ _ true sorted _ (fun _ => opens)

/-- Over any sequence of calls, each of which opens only gates that have paused before, a step
behind a gate is executed only after its own pause. -/
theorem approval_gate (r : Interruptible W) (store : InMemoryCheckpointer) (calls : List (W × Call))
    (gated : ∀ k call, calls[k]? = some call →
      r.Gated ((r.history store calls).take k) (r.afterCalls store (calls.take k)) call.2) :
    ∀ k report, (r.history store calls)[k]? = some report → ∀ v ∈ report.visits,
      v.stepId ∈ r.interruptBefore → PausedBefore ((r.history store calls).take k) v.stepId := by
  intro k report reported v visited
  obtain ⟨call, called, rfl⟩ := history_call reported
  exact r.call_gated call.1 _ call.2 _ (gated k call called) v visited

def reviewedThenGated : Interruptible Unit where
  workflowId := "wf"
  runId := "r"
  dag := (((Dag.builder "a").step "a" ⟨fun _ _ => .done (.ok [("config", .string "a")])⟩).step "b"
    ⟨fun _ _ => .done (.ok [("config", .string "b")])⟩).edge "a" "b"
  schema := StateSchema.builder.add "config" (fun _ incoming => incoming)
  interruptBefore := {"b"}
  interruptAfter := {"a"}
  nowMs := fun _ => 0

-- Resuming from the pause after `a` executes `b`, for which no call has paused.
theorem approval_gate_fails :
    ¬ ∀ k report, (reviewedThenGated.history [] [((), .run), ((), .resume .continue)])[k]? =
        some report → ∀ v ∈ report.visits, v.stepId ∈ reviewedThenGated.interruptBefore →
      PausedBefore
        ((reviewedThenGated.history [] [((), .run), ((), .resume .continue)]).take k) v.stepId := by
  intro asked
  let first := reviewedThenGated.run () []
  let second := reviewedThenGated.resume () first.checkpointer .continue
  have executed : second.visits.map (·.stepId) = ["b"] := by decide
  obtain ⟨v, visited, step⟩ : ∃ v ∈ second.visits, v.stepId = "b" := by
    rw [← List.mem_map, executed]
    exact List.mem_singleton.mpr rfl
  obtain ⟨report, earlier, n, paused⟩ := asked 1 second rfl v visited (by rw [step]; decide)
  have only : report = first := List.mem_singleton.mp earlier
  have reason : first.pause = some (1, .after "a") := by decide
  rw [only, reason] at paused
  cases paused

def gatedOnly : Interruptible Unit := { reviewedThenGated with interruptAfter := ∅ }

theorem approval_gate_gatedOnly :
    PausedBefore ((gatedOnly.history [] [((), .run), ((), .resume .continue)]).take 1) "b" := by
  have gated : ∀ k call, [((), Call.run), ((), Call.resume .continue)][k]? = some call →
      gatedOnly.Gated ((gatedOnly.history [] [((), .run), ((), .resume .continue)]).take k)
        (gatedOnly.afterCalls [] ([((), Call.run), ((), Call.resume .continue)].take k)) call.2 := by
    intro k call called
    match k with
    | 0 =>
      cases called
      trivial
    | 1 =>
      cases called
      intro order sorted sid opens
      have known : gatedOnly.dag.topoSort = .ok ["a", "b"] := by decide
      rw [known] at sorted
      cases sorted
      have lone : gatedOnly.bypassed ((gatedOnly.dag.layered ["a", "b"]).drop
          (startLayer (gatedOnly.dag.layered ["a", "b"])
            ((gatedOnly.run () []).checkpointer.savedStep "wf" "r") none)) = some "b" := by decide
      have same : some "b" = some sid := lone.symm.trans opens
      cases same
      exact ⟨gatedOnly.run () [], List.mem_singleton.mpr rfl, 2, by decide⟩
    | k + 2 => cases called
  let second := gatedOnly.resume () (gatedOnly.run () []).checkpointer .continue
  have executed : second.visits.map (·.stepId) = ["b"] := by decide
  obtain ⟨v, visited, step⟩ : ∃ v ∈ second.visits, v.stepId = "b" := by
    rw [← List.mem_map, executed]
    exact List.mem_singleton.mpr rfl
  have paused := approval_gate gatedOnly [] [((), .run), ((), .resume .continue)] gated 1 second rfl v
    visited (by rw [step]; decide)
  rwa [step] at paused

end AtomrAgents.Interruptible
