import AtomrAgents.Workflow.InterruptLoop
import AtomrAgents.Workflow.ResumePosition
import Mathlib.Data.List.ReduceOption

set_option autoImplicit false

/-! The value of a `resume` sits in one slot: first in the runner, then in the control that all steps share.
What has been taken and what is still in a slot make up the value that the call was given. -/

namespace AtomrAgents.Interruptible

open Shared

variable {W : Type}

def received (visits : List Visit) : List (StepId × Value) :=
  visits.flatMap fun v => v.taken.reduceOption.map (v.stepId, ·)

theorem received_append (visits visits' : List Visit) :
    received (visits ++ visits') = received visits ++ received visits' := by
  simp [received]

theorem Passed.received {superStep : Nat} {state : RunState} {steps : List StepId}
    {visits visits' new : List Visit} (passed : Passed superStep state steps visits visits' new)
    {answer : StepId × Value} (member : answer ∈ received visits) : answer ∈ received visits' := by
  rw [passed.visits, received_append]
  exact List.mem_append_left _ member

theorem exec_conserves (body : StepBody) (ctrl : InterruptCtrl) :
    (body.exec ctrl).2.2.reduceOption ++ (body.exec ctrl).2.1.resumeValue.toList =
      ctrl.resumeValue.toList := by
  induction body generalizing ctrl with
  | done result => rfl
  | interrupt stepId payload next ih => exact ih _
  | takeResumeValue next ih =>
    have tail := ih ctrl.resumeValue { ctrl with resumeValue := none }
    simp only [StepBody.exec, InterruptCtrl.takeResumeValue]
    cases given : ctrl.resumeValue with
    | none =>
      rw [given] at tail
      simpa using tail
    | some v =>
      rw [given] at tail
      simpa [List.append_eq_nil_iff] using tail

def Conserves (given : Option Value) (visits : List Visit) (resumeValue : Option Value)
    (ctrl : InterruptCtrl) : Prop :=
  (received visits).map Prod.snd ++ (resumeValue.toList ++ ctrl.resumeValue.toList) = given.toList

theorem Conserves.deliver {given : Option Value} {loop : StepLoop}
    (conserves : Conserves given loop.visits loop.resumeValue loop.ctrl) :
    Conserves given loop.deliver.visits none loop.deliver.ctrl ∧ loop.deliver.resumeValue = none := by
  cases held : loop.resumeValue with
  | none => simpa [StepLoop.deliver, held] using conserves
  | some v =>
    rw [held] at conserves
    have size := congrArg List.length conserves
    have bound : given.toList.length ≤ 1 := Option.length_toList_le
    have empty : loop.ctrl.resumeValue = none := by
      cases slot : loop.ctrl.resumeValue with
      | none => rfl
      | some other =>
        simp [slot] at size
        omega
    simpa [StepLoop.deliver, held, Conserves, InterruptCtrl.setResumeValue, empty] using conserves

theorem visitStep_conserves (r : Interruptible W) (w : W) (superStep : Nat) (state : RunState)
    (given : Option Value) (loop : StepLoop) (sid : StepId)
    (conserves : Conserves given loop.visits loop.resumeValue loop.ctrl) :
    (r.visitStep w superStep state loop sid).Post
      (fun loop' => Conserves given loop'.visits loop'.resumeValue loop'.ctrl)
      (fun stop => Conserves given stop.2.visits stop.2.resumeValue stop.2.ctrl) := by
  obtain ⟨delivered, empty⟩ := conserves.deliver
  cases found : r.dag.steps[sid]? with
  | none => simpa [visitStep, found, empty] using delivered
  | some step =>
    have taken := exec_conserves (step.run w state) loop.deliver.ctrl
    have visited : Conserves given (loop.deliver.visits ++ [⟨⟨superStep, sid, state⟩,
        ((step.run w state).exec loop.deliver.ctrl).2.2⟩]) none
        ((step.run w state).exec loop.deliver.ctrl).2.1 := by
      simpa [Conserves, received, ← taken] using delivered
    simp only [visitStep, found, empty]
    split
    · exact visited
    · split <;>
      · next pending =>
        rw [InterruptCtrl.pending, Prod.mk.injEq] at pending
        rw [← pending.2]
        exact visited

theorem visitSteps_conserves (r : Interruptible W) (w : W) (superStep : Nat) (cursor : Cursor)
    (layer : List StepId) (given : Option Value)
    (conserves : Conserves given cursor.visits cursor.resumeValue cursor.ctrl) :
    (r.visitSteps w superStep cursor layer).Post
      (fun loop => Conserves given loop.visits loop.resumeValue loop.ctrl)
      (fun stop => Conserves given stop.2.visits stop.2.resumeValue stop.2.ctrl) :=
  forEach_post _ (fun _ loop => Conserves given loop.visits loop.resumeValue loop.ctrl) _
    (fun sid _ loop holds => r.visitStep_conserves w superStep cursor.state given loop sid holds)
    layer _ conserves

theorem runInner_received (r : Interruptible W) (w : W) (store : InMemoryCheckpointer)
    (state : RunState) (resumeValue : Option Value) (goto : Option StepId) (skip : Bool)
    {order : List StepId} (sorted : r.dag.topoSort = .ok order) :
    (received (r.runInner w store state resumeValue goto skip).visits).map Prod.snd <+:
      resumeValue.toList := by
  refine r.runInner_post w store state resumeValue goto skip sorted
    (fun _ cursor => Conserves resumeValue cursor.visits cursor.resumeValue cursor.ctrl)
    (fun report => (received report.visits).map Prod.snd <+: resumeValue.toList)
    (by simp [Conserves, received, InterruptCtrl.new]) ?_ (fun p cursor _ _ holds => ⟨_, holds⟩)
  intro p layer cursor flow _ _ conserves turn
  have pass := r.visitSteps_conserves w (p + 1) cursor layer resumeValue conserves
  cases turn with
  | before sid hit => exact ⟨_, conserves⟩
  | failed skip clear e loop ran | interrupted skip clear req loop ran =>
    rw [ran] at pass
    exact ⟨_, pass⟩
  | rejected skip clear loop ran e state merged | after skip clear loop ran next committed sid hit =>
    rw [ran] at pass
    exact ⟨_, pass⟩
  | completed skip clear loop ran next committed skip' clear' =>
    rw [ran] at pass
    exact pass

end AtomrAgents.Interruptible

namespace AtomrAgents.Interruptible

open Shared

variable {W : Type}

-- A step that takes the value and, when there is none, pauses the run in its own name.
def asking (sid : StepId) (payload : Option Value) (unanswered : Except AgentError Writes)
    (answered : Value → Except AgentError Writes) : StepBody :=
  .takeResumeValue fun
    | none => .interrupt sid payload (.done unanswered)
    | some v => .done (answered v)

theorem exec_asking (sid : StepId) (payload : Option Value) (unanswered : Except AgentError Writes)
    (answered : Value → Except AgentError Writes) (ctrl : InterruptCtrl) :
    (asking sid payload unanswered answered).exec ctrl =
      match ctrl.resumeValue with
      | none => (unanswered, ⟨some ⟨sid, payload⟩, none⟩, [none])
      | some v => (answered v, ⟨ctrl.inner, none⟩, [some v]) := by
  cases given : ctrl.resumeValue <;>
    simp [asking, StepBody.exec, InterruptCtrl.takeResumeValue, InterruptCtrl.interrupt, given]

def Asks (r : Interruptible W) (sid : StepId) : Prop :=
  ∃ step, r.dag.steps[sid]? = some step ∧ ∀ w state, ∃ payload unanswered answered,
    step.run w state = asking sid payload unanswered answered

def Plain (r : Interruptible W) (sid : StepId) : Prop :=
  ∃ step, r.dag.steps[sid]? = some step ∧ ∀ w state, ∃ writes, step.run w state = .done (.ok writes)

def FirstAsking (r : Interruptible W) (layer : List StepId) (sid : StepId) : Prop :=
  ∃ front back, layer = front ++ sid :: back ∧ r.Asks sid ∧ ∀ t ∈ front, ¬ r.Asks t

theorem exists_firstAsking (r : Interruptible W) (layer : List StepId) (sid : StepId)
    (member : sid ∈ layer) (asks : r.Asks sid) : ∃ first, r.FirstAsking layer first := by
  induction layer with
  | nil => cases member
  | cons t rest ih =>
    by_cases head : r.Asks t
    · exact ⟨t, [], rest, rfl, head, fun _ inside => nomatch inside⟩
    · have inside : sid ∈ rest := by
        cases member with
        | head => exact absurd asks head
        | tail _ inside => exact inside
      obtain ⟨first, front, back, rfl, first_asks, none_before⟩ := ih inside
      refine ⟨first, t :: front, back, rfl, first_asks, fun u within => ?_⟩
      cases within with
      | head => exact head
      | tail _ within => exact none_before u within

structure Waiting (v : Value) (loop : StepLoop) : Prop where
  untaken : received loop.visits = []
  conserves : Conserves (some v) loop.visits loop.resumeValue loop.ctrl
  quiet : loop.ctrl.inner = none

theorem Waiting.slot {v : Value} {loop : StepLoop} (waiting : Waiting v loop) :
    loop.deliver.ctrl = ⟨none, some v⟩ := by
  have held := waiting.conserves
  rw [Conserves, waiting.untaken, List.map_nil, List.nil_append] at held
  have quiet := waiting.quiet
  cases loop with | mk ctrl resumeValue visits allWrites =>
  cases ctrl with | mk inner slot =>
  cases resumeValue <;> cases slot <;>
    simp_all [StepLoop.deliver, InterruptCtrl.setResumeValue]

theorem visitStep_plain (r : Interruptible W) (w : W) (superStep : Nat) (state : RunState) (v : Value)
    (loop : StepLoop) (sid : StepId) (waiting : Waiting v loop) (plain : r.Plain sid) :
    ∃ loop', r.visitStep w superStep state loop sid = .next loop' ∧ Waiting v loop' := by
  obtain ⟨step, found, runs⟩ := plain
  obtain ⟨writes, run⟩ := runs w state
  obtain ⟨delivered, empty⟩ := waiting.conserves.deliver
  simp only [visitStep, found, run, StepBody.exec, waiting.slot, InterruptCtrl.pending]
  refine ⟨_, rfl, ?_, ?_, rfl⟩
  · rw [received_append, StepLoop.deliver_visits, waiting.untaken]
    rfl
  · rw [waiting.slot] at delivered
    simpa [Conserves, received_append, received, empty] using delivered

theorem visitStep_answered (r : Interruptible W) (w : W) (superStep : Nat) (state : RunState)
    (v : Value) (loop : StepLoop) (sid : StepId) (waiting : Waiting v loop) (asks : r.Asks sid) :
    (r.visitStep w superStep state loop sid).Post (fun loop' => (sid, v) ∈ received loop'.visits)
      (fun stop => (sid, v) ∈ received stop.2.visits) := by
  obtain ⟨step, found, runs⟩ := asks
  obtain ⟨payload, unanswered, answered, run⟩ := runs w state
  simp only [visitStep, found, run, exec_asking, waiting.slot, InterruptCtrl.pending]
  cases answered v <;> simp [received]

theorem visitSteps_answered (r : Interruptible W) (w : W) (superStep : Nat) (cursor : Cursor)
    (layer : List StepId) (v : Value) (sid : StepId)
    (waiting : Waiting v ⟨cursor.ctrl, cursor.resumeValue, cursor.visits, []⟩)
    (first : r.FirstAsking layer sid) (known : ∀ t ∈ layer, r.Asks t ∨ r.Plain t) :
    (r.visitSteps w superStep cursor layer).Post (fun loop => (sid, v) ∈ received loop.visits)
      (fun stop => (sid, v) ∈ received stop.2.visits) := by
  obtain ⟨front, back, rfl, asks, none_before⟩ := first
  have skip (front : List StepId) (loop : StepLoop) (waiting : Waiting v loop)
      (plain : ∀ t ∈ front, r.Plain t) :
      ∃ loop', forEach (r.visitStep w superStep cursor.state) front loop = .next loop' ∧
        Waiting v loop' := by
    induction front generalizing loop with
    | nil => exact ⟨loop, rfl, waiting⟩
    | cons t rest ih =>
      obtain ⟨next, step, still⟩ := r.visitStep_plain w superStep cursor.state v loop t waiting
        (plain t (by simp))
      obtain ⟨last, steps, still⟩ := ih next still (fun u inside => plain u (by simp [inside]))
      exact ⟨last, by simp [forEach, step, steps], still⟩
  have plain : ∀ t ∈ front, r.Plain t := fun t inside =>
    (known t (by simp [inside])).resolve_left (none_before t inside)
  obtain ⟨loop, reached, waiting⟩ := skip front _ waiting plain
  rw [visitSteps, forEach_append, reached, Flow.bind_next, forEach]
  have answered := r.visitStep_answered w superStep cursor.state v loop sid waiting asks
  cases step : r.visitStep w superStep cursor.state loop sid with
  | ret stop =>
    rw [step] at answered
    exact answered
  | next loop' =>
    rw [step, Flow.post_next] at answered
    refine forEach_post _ (fun _ loop => (sid, v) ∈ received loop.visits) _ ?_ back loop' answered
    intro t _ loop member
    apply (r.visitStep_passed w superStep cursor.state loop t).mono
    · rintro loop' ⟨_, passed⟩
      exact passed.received member
    · intro stop ended
      cases ended with
      | inl same => rwa [same]
      | inr visited =>
        obtain ⟨_, passed⟩ := visited
        exact passed.received member

theorem breakpoint_armed {set : Finset StepId} {layer : List StepId} {armed skip : Bool}
    (clear : breakpoint set layer armed = (skip, none)) : (breakpoint set layer true).2 = none := by
  rw [breakpoint_eq] at clear ⊢
  cases hits : layer.filter (· ∈ set) with
  | nil => rfl
  | cons first rest =>
    cases rest with
    | nil => rfl
    | cons second rest => cases armed <;> simp [hits] at clear

theorem runInner_answered (r : Interruptible W) (w : W) (store : InMemoryCheckpointer)
    (state : RunState) (v : Value) {order : List StepId} (sorted : r.dag.topoSort = .ok order)
    {layer : List StepId} (found : (r.dag.layered order)[state.superStep]? = some layer)
    (clear : (breakpoint r.interruptBefore layer true).2 = none) {sid : StepId}
    (first : r.FirstAsking layer sid) (known : ∀ t ∈ layer, r.Asks t ∨ r.Plain t) :
    (sid, v) ∈ received (r.runInner w store state (some v) none true).visits := by
  refine r.runInner_post w store state (some v) none true sorted
    (fun p cursor => (p = state.superStep ∧ cursor = ⟨state, .new, some v, true, store, [], []⟩) ∨
      (sid, v) ∈ received cursor.visits)
    (fun report => (sid, v) ∈ received report.visits) (.inl ⟨rfl, rfl⟩) ?_ ?_
  · intro p layer' cursor flow found' _ holds turn
    cases holds with
    | inl start =>
      obtain ⟨rfl, rfl⟩ := start
      rw [found, Option.some_inj] at found'
      subst found'
      have answered := r.visitSteps_answered w (state.superStep + 1)
        ⟨state, .new, some v, true, store, [], []⟩ layer v sid ⟨rfl, rfl, rfl⟩ first known
      cases turn with
      | before sid hit => simp [clear] at hit
      | failed skip clear e loop ran | interrupted skip clear req loop ran
      | rejected skip clear loop ran e state merged | after skip clear loop ran next committed sid hit =>
        rw [ran] at answered
        exact answered
      | completed skip clear loop ran next committed skip' clear' =>
        rw [ran] at answered
        exact .inr answered
    | inr member =>
      have grows := turn.passed
      cases flow with
      | next last =>
        obtain ⟨_, _, _, passed⟩ := grows
        exact .inr (passed.received member)
      | ret last =>
        obtain ⟨_, _, _, passed⟩ := grows
        exact passed.received member
  · intro p cursor past _ holds
    cases holds with
    | inl start =>
      have inside := (List.getElem?_eq_some_iff.mp found).1
      omega
    | inr member => exact member

theorem visitStep_quiet (r : Interruptible W) (w : W) (superStep : Nat) (state : RunState)
    (loop : StepLoop) (sid : StepId) (known : r.Asks sid ∨ r.Plain sid)
    (quiet : loop.ctrl.inner = none) :
    (r.visitStep w superStep state loop sid).Post (fun loop' => loop'.ctrl.inner = none)
      (fun stop => ∀ req, stop.1 = .interrupted req → req.stepId = sid ∧ r.Asks sid) := by
  cases known with
  | inl asks =>
    have own := asks
    obtain ⟨step, found, runs⟩ := asks
    obtain ⟨payload, unanswered, answered, run⟩ := runs w state
    simp only [visitStep, found, run, exec_asking, InterruptCtrl.pending]
    cases loop.deliver.ctrl.resumeValue with
    | none =>
      cases unanswered with
      | error e =>
        intro req stopped
        cases stopped
      | ok writes =>
        intro req stopped
        cases stopped
        exact ⟨rfl, own⟩
    | some v =>
      dsimp only
      cases answered v with
      | error e =>
        intro req stopped
        cases stopped
      | ok writes => simp [quiet]
  | inr plain =>
    obtain ⟨step, found, runs⟩ := plain
    obtain ⟨writes, run⟩ := runs w state
    simp [visitStep, found, run, StepBody.exec, InterruptCtrl.pending, quiet]

theorem visitStep_pending (r : Interruptible W) (w : W) (superStep : Nat) (state : RunState)
    (loop : StepLoop) (sid : StepId) :
    (r.visitStep w superStep state loop sid).Post (fun loop' => loop'.ctrl.inner = none)
      (fun _ => True) := by
  cases found : r.dag.steps[sid]? with
  | none => simp [visitStep, found]
  | some step =>
    simp only [visitStep, found, InterruptCtrl.pending]
    split
    · trivial
    · split
      · trivial
      · next pending =>
        rw [Prod.mk.injEq] at pending
        rw [← pending.2]
        rfl

theorem visitSteps_pending (r : Interruptible W) (w : W) (superStep : Nat) (cursor : Cursor)
    (layer : List StepId) (quiet : cursor.ctrl.inner = none) :
    (r.visitSteps w superStep cursor layer).Post (fun loop => loop.ctrl.inner = none)
      (fun stop => (∀ t ∈ layer, r.Asks t ∨ r.Plain t) → ∀ req, stop.1 = .interrupted req →
        req.stepId ∈ layer ∧ r.Asks req.stepId) := by
  refine (forEach_post _ (fun rest loop => loop.ctrl.inner = none ∧ rest ⊆ layer) _ ?_ layer _
    ⟨quiet, List.Subset.refl _⟩).mono (fun loop holds => holds.1) (fun _ ended => ended)
  intro sid rest loop ⟨quiet, part⟩
  have inside : sid ∈ layer := part (by simp)
  have pending := r.visitStep_pending w superStep cursor.state loop sid
  cases step : r.visitStep w superStep cursor.state loop sid with
  | next loop' =>
    rw [step] at pending
    exact ⟨pending, fun t member => part (List.mem_cons_of_mem _ member)⟩
  | ret stop =>
    intro known req stopped
    have asked := r.visitStep_quiet w superStep cursor.state loop sid (known sid inside) quiet
    rw [step] at asked
    obtain ⟨same, asks⟩ := asked req stopped
    rw [same]
    exact ⟨inside, asks⟩

def PausedBy (r : Interruptible W) (order : List StepId) (report : CallReport) : Prop :=
  ∀ n sid payload, report.result = .ok (.paused n (.dynamicInterrupt sid) payload) →
    ∃ p layer, n = p + 1 ∧ (r.dag.layered order)[p]? = some layer ∧
      (breakpoint r.interruptBefore layer true).2 = none ∧
      ((∀ t ∈ layer, r.Asks t ∨ r.Plain t) → sid ∈ layer ∧ r.Asks sid)

theorem runInner_pausedBy (r : Interruptible W) (w : W) (store : InMemoryCheckpointer)
    (state : RunState) (resumeValue : Option Value) (goto : Option StepId) (skip : Bool)
    {order : List StepId} (sorted : r.dag.topoSort = .ok order) :
    r.PausedBy order (r.runInner w store state resumeValue goto skip) := by
  refine r.runInner_post w store state resumeValue goto skip sorted
    (fun _ cursor => cursor.ctrl.inner = none) (r.PausedBy order) rfl ?_
    (fun p cursor _ _ _ n sid payload paused => nomatch paused)
  intro p layer cursor flow found _ quiet turn
  have pass := r.visitSteps_pending w (p + 1) cursor layer quiet
  cases turn with
  | before | failed | rejected | after =>
    intro n sid payload paused
    cases paused
  | interrupted skip clear req loop ran =>
    intro n sid payload paused
    cases paused
    rw [ran] at pass
    exact ⟨p, layer, rfl, found, breakpoint_armed clear, fun known => pass known req rfl⟩
  | completed skip clear loop ran next committed skip' clear' =>
    rw [ran] at pass
    exact pass

theorem call_pausedBy (r : Interruptible W) (w : W) (store : InMemoryCheckpointer) (call : Call)
    {order : List StepId} (sorted : r.dag.topoSort = .ok order) :
    r.PausedBy order (r.call w store call) := by
  cases call with
  | run => exact r.runInner_pausedBy w store _ none none false sorted
  | resume command =>
    cases saved : store.latest r.workflowId r.runId with
    | none =>
      intro n sid payload paused
      simp [Interruptible.call, resume, saved] at paused
    | some snap =>
      simp only [Interruptible.call, resume, saved]
      exact r.runInner_pausedBy w store _ _ _ true sorted

theorem firstAsking_unique (r : Interruptible W) {layer : List StepId} {sid sid' : StepId}
    (first : r.FirstAsking layer sid) (first' : r.FirstAsking layer sid') : sid = sid' := by
  obtain ⟨front, back, split, asks, none_before⟩ := first
  obtain ⟨front', back', split', asks', none_before'⟩ := first'
  rw [split] at split'
  cases List.append_eq_append_iff.mp split' with
  | inl longer =>
    obtain ⟨extra, same, rest⟩ := longer
    cases extra with
    | nil => simpa using (List.cons.inj rest).1
    | cons t extra =>
      have early : sid ∈ front' := by
        rw [same, (List.cons.inj rest).1]
        simp
      exact absurd asks (none_before' sid early)
  | inr longer =>
    obtain ⟨extra, same, rest⟩ := longer
    cases extra with
    | nil => simpa using (List.cons.inj rest).1.symm
    | cons t extra =>
      have early : sid' ∈ front := by
        rw [same, (List.cons.inj rest).1]
        simp
      exact absurd asks' (none_before sid' early)

theorem eq_singleton_of_mem {α : Type} {items : List α} {item : α} (member : item ∈ items)
    (bound : items.length ≤ 1) : items = [item] := by
  cases items with
  | nil => cases member
  | cons first rest =>
    have empty : rest = [] := List.eq_nil_of_length_eq_zero (by simpa using bound)
    rw [empty] at member ⊢
    rw [List.mem_singleton.mp member]

theorem received_first (r : Interruptible W) (w : W) {store : InMemoryCheckpointer} {snapshot : Snapshot}
    (latest : store.latest r.workflowId r.runId = some snapshot) (v : Value) {order : List StepId}
    (sorted : r.dag.topoSort = .ok order) {layer : List StepId}
    (found : (r.dag.layered order)[snapshot.key.superStep]? = some layer)
    (clear : (breakpoint r.interruptBefore layer true).2 = none) {first : StepId}
    (firstAsking : r.FirstAsking layer first) (known : ∀ t ∈ layer, r.Asks t ∨ r.Plain t) :
    received (r.resume w store (.resume v)).visits = [(first, v)] := by
  have taken := r.runInner_answered w store
    (.fromSnapshot r.schema snapshot.values snapshot.key.superStep) v sorted found clear firstAsking known
  have once := r.runInner_received w store
    (.fromSnapshot r.schema snapshot.values snapshot.key.superStep) (some v) none true sorted
  have size := once.length_le
  rw [List.length_map] at size
  rw [resume, latest]
  exact eq_singleton_of_mem taken size

theorem not_received_of_past (r : Interruptible W) (w : W) {store : InMemoryCheckpointer}
    {snapshot : Snapshot} (latest : store.latest r.workflowId r.runId = some snapshot) (v : Value)
    {order : List StepId} (sorted : r.dag.topoSort = .ok order) {layer : List StepId} {p : Nat}
    (found : (r.dag.layered order)[p]? = some layer) (past : p < snapshot.key.superStep) {sid : StepId}
    (inside : sid ∈ layer) : (sid, v) ∉ received (r.resume w store (.resume v)).visits := by
  intro answered
  obtain ⟨visit, member, taken⟩ := List.mem_flatMap.mp answered
  obtain ⟨answer, _, same⟩ := List.mem_map.mp taken
  cases same
  rw [resume, latest] at member
  obtain ⟨q, other, later, found', within⟩ := r.runInner_visited w _ _ _ _ _ sorted visit member
  have above : snapshot.key.superStep ≤ q := later
  exact Dag.layer_unique (Dag.layered_nodup sorted) found' found (by omega) within inside

/-- A value sent to a run that a step paused reaches that step and no other exactly when the run goes
on before its layer and no other step of the layer asks before it. -/
theorem resume_value (r : Interruptible W) (store : InMemoryCheckpointer) (calls : List (W × Call))
    (k : Nat) (report : CallReport) (reported : (r.history store calls)[k]? = some report) (n : Nat)
    (sid : StepId) (paused : report.pause = some (n, .dynamicInterrupt sid)) (order : List StepId)
    (sorted : r.dag.topoSort = .ok order) (layer : List StepId)
    (found : (r.dag.layered order)[n - 1]? = some layer)
    (known : ∀ t ∈ layer, r.Asks t ∨ r.Plain t) (w : W) (v : Value) :
    received (r.resume w report.checkpointer (.resume v)).visits = [(sid, v)] ↔
      (r.afterCalls store (calls.take k)).savedStep r.workflowId r.runId ≤ n - 1 ∧
        r.FirstAsking layer sid := by
  have result := CallReport.result_of_pause paused
  obtain ⟨call, called, rfl⟩ := history_call reported
  obtain ⟨p, layer', rfl, found', clear, asked⟩ :=
    r.call_pausedBy call.1 _ call.2 sorted n sid _ result
  rw [Nat.add_sub_cancel] at found ⊢
  obtain rfl : layer' = layer := by
    rw [← Option.some_inj, ← found', found]
  obtain ⟨inside, asks⟩ := asked known
  have persisted := r.call_persisted call.1 _ call.2 _ _ _ result
  rw [pausePosition, Nat.add_sub_cancel] at persisted
  by_cases behind :
      (r.afterCalls store (calls.take k)).savedStep r.workflowId r.runId ≤ p
  · obtain ⟨snapshot, latest, step, _⟩ := persisted.behind behind
    obtain ⟨first, firstAsking⟩ := r.exists_firstAsking layer' sid inside asks
    rw [← step] at found
    have only := r.received_first w latest v sorted found clear firstAsking known
    simp only [only, behind, true_and, List.cons.injEq, Prod.mk.injEq, and_true]
    constructor
    · intro same
      rwa [← same]
    · intro own
      exact r.firstAsking_unique firstAsking own
  · simp only [behind, false_and, iff_false]
    intro only
    have latest := persisted.ahead (by omega)
    cases saved : (r.afterCalls store (calls.take k)).latest r.workflowId r.runId with
    | none => simp [InMemoryCheckpointer.savedStep, saved] at behind
    | some snapshot =>
      rw [saved] at latest
      rw [InMemoryCheckpointer.savedStep_of_latest saved] at behind
      apply r.not_received_of_past w latest v sorted found (not_le.mp behind) inside
      rw [only]
      exact List.mem_singleton.mpr rfl

def twoApprovals : Interruptible Unit where
  workflowId := "wf"
  runId := "r"
  dag := ((Dag.builder "x").step "x" ⟨fun _ _ => asking "x" none (.ok []) (fun _ => .ok [])⟩).step "y"
    ⟨fun _ _ => asking "y" none (.ok []) (fun _ => .ok [])⟩
  schema := StateSchema.builder
  interruptBefore := ∅
  interruptAfter := ∅
  nowMs := fun _ => 0

-- `x` pauses after `y` has its answer, but `y` takes the answer to `x` as well.
theorem resume_value_fails :
    ∃ report, (twoApprovals.history [] [((), .run), ((), .resume (.resume (.bool true)))])[1]? =
        some report ∧
      report.pause = some (1, .dynamicInterrupt "x") ∧
      received (twoApprovals.resume () report.checkpointer (.resume (.bool false))).visits ≠
        [("x", .bool false)] := by
  refine ⟨twoApprovals.resume () (twoApprovals.run () []).checkpointer (.resume (.bool true)), rfl,
    by decide, fun delivered => ?_⟩
  have taker : (received (twoApprovals.resume () (twoApprovals.resume () (twoApprovals.run ()
      []).checkpointer (.resume (.bool true))).checkpointer (.resume (.bool false))).visits).map
      Prod.fst = ["y"] := by decide
  rw [delivered] at taker
  exact absurd taker (by decide)

theorem twoApprovals_asks (sid : StepId) (member : sid ∈ ["y", "x"]) : twoApprovals.Asks sid := by
  have either : sid = "y" ∨ sid = "x" := by simpa using member
  cases either with
  | inl y => exact ⟨_, by rw [y]; rfl, fun _ _ => ⟨none, .ok [], fun _ => .ok [], by rw [y]⟩⟩
  | inr x => exact ⟨_, by rw [x]; rfl, fun _ _ => ⟨none, .ok [], fun _ => .ok [], by rw [x]⟩⟩

theorem resume_value_twoApprovals :
    received (twoApprovals.resume () (twoApprovals.run () []).checkpointer
        (.resume (.bool true))).visits = [("y", .bool true)] := by
  have first : twoApprovals.FirstAsking ["y", "x"] "y" :=
    ⟨[], ["x"], rfl, twoApprovals_asks "y" (by simp), fun _ inside => nomatch inside⟩
  exact (resume_value twoApprovals [] [((), .run)] 0 (twoApprovals.run () []) rfl 1 "y" (by decide)
    ["y", "x"] (by decide) ["y", "x"] (by decide) (fun t member => .inl (twoApprovals_asks t member)) ()
    (.bool true)).mpr ⟨Nat.le_refl 0, first⟩

end AtomrAgents.Interruptible
