import AtomrAgents.Workflow.Interrupt

set_option autoImplicit false

namespace AtomrAgents

open Shared

theorem breakpoint_eq (set : Finset StepId) (layer : List StepId) (skip : Bool) :
    breakpoint set layer skip =
      match layer.filter (· ∈ set), skip with
      | [], skip => (skip, none)
      | sid :: _, false => (false, some sid)
      | [_], true => (false, none)
      | _ :: sid :: _, true => (false, some sid) := by
  have unarmed (layer : List StepId) :
      breakpoint set layer false = (false, (layer.filter (· ∈ set)).head?) := by
    induction layer with
    | nil => rfl
    | cons sid rest ih => by_cases member : sid ∈ set <;> simp [breakpoint, member, ih]
  cases skip with
  | false =>
    rw [unarmed]
    cases layer.filter (· ∈ set) <;> rfl
  | true =>
    induction layer with
    | nil => rfl
    | cons sid rest ih =>
      by_cases member : sid ∈ set
      · simp only [breakpoint, member, if_true, unarmed, List.filter_cons, decide_true]
        cases rest.filter (· ∈ set) <;> rfl
      · simpa [breakpoint, member] using ih

namespace Interruptible

variable {W : Type}

structure Passed (superStep : Nat) (state : RunState) (steps : List StepId)
    (visits visits' : List Visit) (new : List Visit) : Prop where
  visits : visits' = visits ++ new
  steps : new.map (·.stepId) = steps
  placed : ∀ v ∈ new, v.superStep = superStep ∧ v.state = state

theorem visitStep_passed (r : Interruptible W) (w : W) (superStep : Nat) (state : RunState)
    (loop : StepLoop) (sid : StepId) :
    (r.visitStep w superStep state loop sid).Post
      (fun loop' => ∃ v, Passed superStep state [sid] loop.visits loop'.visits [v])
      (fun stop => stop.2.visits = loop.visits ∨
        ∃ v, Passed superStep state [sid] loop.visits stop.2.visits [v]) := by
  unfold visitStep
  cases found : r.dag.steps[sid]? with
  | none => exact .inl loop.deliver_visits
  | some step =>
    have visit (taken : List (Option Value)) :
        Passed superStep state [sid] loop.visits
          (loop.deliver.visits ++ [⟨⟨superStep, sid, state⟩, taken⟩])
          [⟨⟨superStep, sid, state⟩, taken⟩] := ⟨by simp, rfl, by simp⟩
    dsimp only
    split
    · exact .inr ⟨_, visit _⟩
    · split
      · exact .inr ⟨_, visit _⟩
      · exact ⟨_, visit _⟩

theorem Passed.append {superStep : Nat} {state : RunState} {front back : List StepId}
    {visits visits' visits'' new new' : List Visit}
    (first : Passed superStep state front visits visits' new)
    (second : Passed superStep state back visits' visits'' new') :
    Passed superStep state (front ++ back) visits visits'' (new ++ new') where
  visits := by rw [second.visits, first.visits, List.append_assoc]
  steps := by rw [List.map_append, first.steps, second.steps]
  placed := by
    intro v member
    cases List.mem_append.mp member with
    | inl old => exact first.placed v old
    | inr last => exact second.placed v last

theorem Passed.mem {superStep : Nat} {state : RunState} {steps layer : List StepId}
    {visits visits' new : List Visit} (passed : Passed superStep state steps visits visits' new)
    (part : steps ⊆ layer) (v : Visit) (member : v ∈ visits') : v ∈ visits ∨ v.stepId ∈ layer := by
  rw [passed.visits] at member
  cases List.mem_append.mp member with
  | inl old => exact .inl old
  | inr fresh =>
    refine .inr (part ?_)
    rw [← passed.steps]
    exact List.mem_map_of_mem fresh

theorem visitSteps_passed (r : Interruptible W) (w : W) (superStep : Nat) (cursor : Cursor)
    (layer : List StepId) :
    (r.visitSteps w superStep cursor layer).Post
      (fun loop => ∃ new, Passed superStep cursor.state layer cursor.visits loop.visits new)
      (fun stop => ∃ front new, front <+: layer ∧
        Passed superStep cursor.state front cursor.visits stop.2.visits new) := by
  have post := forEach_post (r.visitStep w superStep cursor.state)
    (fun rest loop => ∃ front new, front ++ rest = layer ∧
      Passed superStep cursor.state front cursor.visits loop.visits new)
    (fun stop => ∃ front new, front <+: layer ∧
      Passed superStep cursor.state front cursor.visits stop.2.visits new)
    (fun sid rest loop ⟨front, new, split, passed⟩ => by
      refine (r.visitStep_passed w superStep cursor.state loop sid).mono ?_ ?_
      · intro loop' ⟨v, visit⟩
        exact ⟨front ++ [sid], new ++ [v], by simpa using split, passed.append visit⟩
      · intro stop ended
        cases ended with
        | inl same => exact ⟨front, new, ⟨_, split⟩, by rwa [same]⟩
        | inr visited =>
          obtain ⟨v, visit⟩ := visited
          exact ⟨front ++ [sid], new ++ [v], ⟨rest, by simpa using split⟩, passed.append visit⟩)
    layer ⟨cursor.ctrl, cursor.resumeValue, cursor.visits, []⟩
    ⟨[], [], rfl, by simp, rfl, by simp⟩
  refine post.mono (fun loop ⟨front, new, split, passed⟩ => ⟨new, ?_⟩) (fun _ ended => ended)
  rw [List.append_nil] at split
  rwa [← split]

inductive LayerTurn (r : Interruptible W) (w : W) (cursor : Cursor) (layer : List StepId) (n : Nat) :
    Flow Cursor CallReport → Prop where
  | before (sid : StepId)
      (hit : (breakpoint r.interruptBefore layer cursor.skipBreakpointsOnce).2 = some sid) :
      LayerTurn r w cursor layer n (.ret ⟨.ok (.paused n (.before sid) none), cursor.state,
        r.persistPause cursor.checkpointer cursor.state (n - 1) (.before sid) none,
        cursor.entered ++ [(n, cursor.state)], cursor.visits⟩)
  | failed (skip : Bool)
      (clear : breakpoint r.interruptBefore layer cursor.skipBreakpointsOnce = (skip, none))
      (e : AgentError) (loop : StepLoop)
      (ran : r.visitSteps w n cursor layer = .ret (.failed e, loop)) :
      LayerTurn r w cursor layer n (.ret ⟨.error e, cursor.state, cursor.checkpointer,
        cursor.entered ++ [(n, cursor.state)], loop.visits⟩)
  | interrupted (skip : Bool)
      (clear : breakpoint r.interruptBefore layer cursor.skipBreakpointsOnce = (skip, none))
      (req : InterruptRequest) (loop : StepLoop)
      (ran : r.visitSteps w n cursor layer = .ret (.interrupted req, loop)) :
      LayerTurn r w cursor layer n (.ret
        ⟨.ok (.paused n (.dynamicInterrupt req.stepId) req.payload), cursor.state,
        r.persistPause cursor.checkpointer cursor.state (n - 1) (.dynamicInterrupt req.stepId)
          req.payload,
        cursor.entered ++ [(n, cursor.state)], loop.visits⟩)
  | rejected (skip : Bool)
      (clear : breakpoint r.interruptBefore layer cursor.skipBreakpointsOnce = (skip, none))
      (loop : StepLoop) (ran : r.visitSteps w n cursor layer = .next loop)
      (e : AgentError) (state : RunState)
      (merged : cursor.state.mergeWrites loop.allWrites = (.error e, state)) :
      LayerTurn r w cursor layer n (.ret ⟨.error e, state, cursor.checkpointer,
        cursor.entered ++ [(n, cursor.state)], loop.visits⟩)
  | after (skip : Bool)
      (clear : breakpoint r.interruptBefore layer cursor.skipBreakpointsOnce = (skip, none))
      (loop : StepLoop) (ran : r.visitSteps w n cursor layer = .next loop)
      (next : RunState) (committed : cursor.state.commit loop.allWrites = .ok next)
      (sid : StepId) (hit : (breakpoint r.interruptAfter layer skip).2 = some sid) :
      LayerTurn r w cursor layer n (.ret ⟨.ok (.paused n (.after sid) none), next,
        cursor.checkpointer.save (r.layerSnapshot n next cursor.checkpointer),
        cursor.entered ++ [(n, cursor.state)], loop.visits⟩)
  | completed (skip : Bool)
      (clear : breakpoint r.interruptBefore layer cursor.skipBreakpointsOnce = (skip, none))
      (loop : StepLoop) (ran : r.visitSteps w n cursor layer = .next loop)
      (next : RunState) (committed : cursor.state.commit loop.allWrites = .ok next)
      (skip' : Bool) (clear' : breakpoint r.interruptAfter layer skip = (skip', none)) :
      LayerTurn r w cursor layer n (.next
        { state := next, ctrl := loop.ctrl, resumeValue := loop.resumeValue
          skipBreakpointsOnce := skip'
          checkpointer := cursor.checkpointer.save (r.layerSnapshot n next cursor.checkpointer)
          entered := cursor.entered ++ [(n, cursor.state)], visits := loop.visits })

theorem LayerTurn.passed {r : Interruptible W} {w : W} {cursor : Cursor} {layer : List StepId} {n : Nat}
    {flow : Flow Cursor CallReport} (turn : LayerTurn r w cursor layer n flow) :
    flow.Post
      (fun last => ∃ front new, front <+: layer ∧
        Passed n cursor.state front cursor.visits last.visits new)
      (fun last => ∃ front new, front <+: layer ∧
        Passed n cursor.state front cursor.visits last.visits new) := by
  have pass := r.visitSteps_passed w n cursor layer
  cases turn with
  | before sid hit => exact ⟨[], [], List.nil_prefix, by simp, rfl, by simp⟩
  | failed skip clear e loop ran | interrupted skip clear req loop ran =>
    rw [ran] at pass
    exact pass
  | rejected skip clear loop ran e state merged | after skip clear loop ran next committed sid hit
  | completed skip clear loop ran next committed skip' clear' =>
    rw [ran] at pass
    obtain ⟨new, passed⟩ := pass
    exact ⟨layer, new, List.prefix_refl layer, passed⟩

theorem visitLayer_turn (r : Interruptible W) (w : W) (startLayer : Nat) (cursor : Cursor)
    (layer : List StepId) (layerIdx : Nat) (later : startLayer ≤ layerIdx) :
    LayerTurn r w cursor layer (layerIdx + 1) (r.visitLayer w startLayer cursor (layer, layerIdx)) := by
  have past : ¬ layerIdx + 1 ≤ startLayer := by omega
  simp only [visitLayer, past, if_false]
  cases scan : breakpoint r.interruptBefore layer cursor.skipBreakpointsOnce with
  | mk skip hit =>
    cases hit with
    | some sid => exact .before sid (by rw [scan])
    | none =>
      have same : r.visitSteps w (layerIdx + 1)
          { cursor with entered := cursor.entered ++ [(layerIdx + 1, cursor.state)] } layer =
          r.visitSteps w (layerIdx + 1) cursor layer := rfl
      dsimp only
      rw [same]
      cases ran : r.visitSteps w (layerIdx + 1) cursor layer with
      | ret stop =>
        obtain ⟨reason, loop⟩ := stop
        cases reason with
        | failed e => exact .failed skip scan e loop ran
        | interrupted req => exact .interrupted skip scan req loop ran
      | next loop =>
        dsimp only [Cursor.afterSteps]
        cases merged : cursor.state.mergeWrites loop.allWrites with
        | mk result state =>
          cases result with
          | error e => exact .rejected skip scan loop ran e state merged
          | ok _ =>
            have committed : cursor.state.commit loop.allWrites = .ok state.advance := by
              rw [RunState.commit, merged]
            dsimp only
            cases scan' : breakpoint r.interruptAfter layer skip with
            | mk skip' hit =>
              cases hit with
              | some sid => exact .after skip scan loop ran _ committed sid (by rw [scan'])
              | none => exact .completed skip scan loop ran _ committed skip' scan'

/-- The rule for a whole call: what holds before the first layer visited and is kept by every turn
holds when the call returns. -/
theorem runInner_post (r : Interruptible W) (w : W) (store : InMemoryCheckpointer) (state : RunState)
    (resumeValue : Option Value) (goto : Option StepId) (skip : Bool) {order : List StepId}
    (sorted : r.dag.topoSort = .ok order) (invariant : Nat → Cursor → Prop)
    (returns : CallReport → Prop)
    (start : invariant (startLayer (r.dag.layered order) state.superStep goto)
      ⟨state, .new, resumeValue, skip, store, [], []⟩)
    (turn : ∀ p layer cursor flow, (r.dag.layered order)[p]? = some layer →
      startLayer (r.dag.layered order) state.superStep goto ≤ p → invariant p cursor →
      LayerTurn r w cursor layer (p + 1) flow → flow.Post (invariant (p + 1)) returns)
    (finished : ∀ p cursor, (r.dag.layered order).length ≤ p →
      startLayer (r.dag.layered order) state.superStep goto ≤ p → invariant p cursor →
      returns (cursor.returns (.ok (.done cursor.state)))) :
    returns (r.runInner w store state resumeValue goto skip) := by
  have post := forEach_enumerated
    (r.visitLayer w (startLayer (r.dag.layered order) state.superStep goto)) (r.dag.layered order)
    (startLayer (r.dag.layered order) state.superStep goto)
    (fun layer i cursor early => by
      have skipped : i + 1 ≤ startLayer (r.dag.layered order) state.superStep goto := by omega
      exact if_pos skipped)
    invariant returns
    (fun p layer cursor found later holds =>
      turn p layer cursor _ found later holds (r.visitLayer_turn w _ cursor layer p later))
    ⟨state, .new, resumeValue, skip, store, [], []⟩ start
  rw [runInner, sorted]
  exact post.finish returns fun cursor ⟨p, past, later, holds⟩ => finished p cursor past later holds

theorem runInner_visited (r : Interruptible W) (w : W) (store : InMemoryCheckpointer)
    (state : RunState) (resumeValue : Option Value) (goto : Option StepId) (skip : Bool)
    {order : List StepId} (sorted : r.dag.topoSort = .ok order) :
    ∀ v ∈ (r.runInner w store state resumeValue goto skip).visits, ∃ p layer,
      startLayer (r.dag.layered order) state.superStep goto ≤ p ∧
      (r.dag.layered order)[p]? = some layer ∧ v.stepId ∈ layer := by
  refine r.runInner_post w store state resumeValue goto skip sorted
    (fun _ cursor => ∀ v ∈ cursor.visits, ∃ p layer,
      startLayer (r.dag.layered order) state.superStep goto ≤ p ∧
      (r.dag.layered order)[p]? = some layer ∧ v.stepId ∈ layer)
    (fun report => ∀ v ∈ report.visits, ∃ p layer,
      startLayer (r.dag.layered order) state.superStep goto ≤ p ∧
      (r.dag.layered order)[p]? = some layer ∧ v.stepId ∈ layer)
    (fun v member => nomatch member) ?_ (fun p cursor _ _ visited => visited)
  intro p layer cursor flow found later visited turn
  apply turn.passed.mono
  all_goals
    intro last ⟨front, new, part, passed⟩ v member
    cases passed.mem part.subset v member with
    | inl old => exact visited v old
    | inr inside => exact ⟨p, layer, later, found, inside⟩

theorem runInner_unsorted (r : Interruptible W) (w : W) (store : InMemoryCheckpointer)
    (state : RunState) (resumeValue : Option Value) (goto : Option StepId) (skip : Bool)
    {e : AgentError} (unsorted : r.dag.topoSort = .error e) :
    r.runInner w store state resumeValue goto skip = ⟨.error e, state, store, [], []⟩ := by
  rw [runInner, unsorted]
  rfl

end Interruptible

inductive Call where
  | run
  | resume (command : Command)

namespace Interruptible

variable {W : Type}

def call (r : Interruptible W) (w : W) (store : InMemoryCheckpointer) : Call → CallReport
  | .run => r.run w store
  | .resume command => r.resume w store command

theorem call_unsorted (r : Interruptible W) (w : W) (store : InMemoryCheckpointer) (call : Call)
    {e : AgentError} (unsorted : r.dag.topoSort = .error e) :
    ∃ e' state, r.call w store call = ⟨.error e', state, store, [], []⟩ := by
  cases call with
  | run => exact ⟨e, _, r.runInner_unsorted w store _ none none false unsorted⟩
  | resume command =>
    cases saved : store.latest r.workflowId r.runId with
    | none => exact ⟨_, r.hydrate store, by rw [call, resume, saved]⟩
    | some snap =>
      have report := r.runInner_unsorted w store (.fromSnapshot r.schema
        (command.parts.2.1.foldl (fun values edit => values.insert edit.1 edit.2) snap.values)
        snap.key.superStep) command.parts.1 command.parts.2.2 true unsorted
      exact ⟨e, _, by rw [call, resume, saved]; exact report⟩

def history (r : Interruptible W) : InMemoryCheckpointer → List (W × Call) → List CallReport
  | _, [] => []
  | store, (w, call) :: rest =>
    r.call w store call :: r.history (r.call w store call).checkpointer rest

def afterCalls (r : Interruptible W) (store : InMemoryCheckpointer) (calls : List (W × Call)) :
    InMemoryCheckpointer :=
  calls.foldl (fun store call => (r.call call.1 store call.2).checkpointer) store

theorem history_get (r : Interruptible W) (store : InMemoryCheckpointer) (calls : List (W × Call))
    (k : Nat) :
    (r.history store calls)[k]? =
      calls[k]?.map (fun call => r.call call.1 (r.afterCalls store (calls.take k)) call.2) := by
  induction calls generalizing store k with
  | nil => simp [history]
  | cons call rest ih =>
    cases k with
    | zero => simp [history, afterCalls]
    | succ k => simpa [history, afterCalls] using ih _ k

theorem history_call {r : Interruptible W} {store : InMemoryCheckpointer} {calls : List (W × Call)}
    {k : Nat} {report : CallReport} (reported : (r.history store calls)[k]? = some report) :
    ∃ call, calls[k]? = some call ∧
      r.call call.1 (r.afterCalls store (calls.take k)) call.2 = report := by
  rw [history_get, Option.map_eq_some_iff] at reported
  exact reported

theorem history_unsorted (r : Interruptible W) {e : AgentError} (unsorted : r.dag.topoSort = .error e)
    (store : InMemoryCheckpointer) (calls : List (W × Call)) :
    ∀ report ∈ r.history store calls, ∃ e', report.result = .error e' := by
  induction calls generalizing store with
  | nil => exact fun report member => nomatch member
  | cons call rest ih =>
    intro report member
    cases member with
    | head =>
      obtain ⟨e', state, failed⟩ := r.call_unsorted call.1 store call.2 unsorted
      exact ⟨e', by rw [failed]⟩
    | tail _ later => exact ih _ report later

end Interruptible

end AtomrAgents
