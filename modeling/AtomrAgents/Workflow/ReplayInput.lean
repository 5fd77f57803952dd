import AtomrAgents.Workflow.ReplayThread

set_option autoImplicit false

namespace AtomrAgents.WorkflowRunner

open Shared

variable {W : Type}

/-- One call of `run`, or one that the process does not survive: it stops right after the
`extra + 1`-th `StepCompleted` of the attempt. -/
inductive Attempt (W : Type) where
  | run (w : W)
  | stop (w : W) (extra : Nat)

def Attempt.world : Attempt W → W
  | .run w => w
  | .stop w _ => w

structure Outcome where
  result : Option (Except AgentError Value)
  journal : InMemoryJournal
  calls : List (StepId × Value)

def stop (r : WorkflowRunner W) (w : W) (journal : InMemoryJournal) (input : Value) (extra : Nat) :
    Outcome :=
  let state := WorkflowState.fold (journal.replay r.id)
  let loop : WorkflowLoop := { state, currentInput := input, journal, calls := [], executed := [] }
  if state.terminated = some true then ⟨none, journal, []⟩
  else
    match r.dag.topoSort with
    | .error _ => ⟨none, journal, []⟩
    | .ok order =>
      -- completed steps are passed over, so these are the steps that the attempt gets to
      let reached := (order.filter (· ∉ state.completed)).take (extra + 1)
      match forEach (r.visit w) reached loop with
      | .next loop => ⟨none, loop.journal, loop.calls⟩
      | .ret report => ⟨some report.result, report.journal, report.calls⟩

def attempt (r : WorkflowRunner W) (journal : InMemoryJournal) (input : Value) :
    Attempt W → Outcome
  | .run w =>
    let report := r.run w journal input
    ⟨some report.result, report.journal, report.calls⟩
  | .stop w extra => r.stop w journal input extra

def Throughout (r : WorkflowRunner W) (input : Value) (P : InMemoryJournal → Attempt W → Prop) :
    InMemoryJournal → List (Attempt W) → Prop
  | _, [] => True
  | journal, a :: rest => P journal a ∧ r.Throughout input P (r.attempt journal input a).journal rest

/-- The attempt calls the steps that are left as the reference run calls them, and it returns what
the reference run returns, unless a call fails or the process stops. -/
def Faithful (r : WorkflowRunner W) (reference : WorkflowReport) (input : Value)
    (journal : InMemoryJournal) (a : Attempt W) : Prop :=
  let left := reference.calls.filter fun call =>
    call.1 ∉ (WorkflowState.fold (journal.replay r.id)).completed
  let outcome := r.attempt journal input a
  outcome.calls <+: left ∧
    ∀ result, outcome.result = some result → (∀ call ∈ outcome.calls, r.SucceedsOn a.world call) →
      outcome.calls = left ∧ result = reference.result

-- Nothing is completed, or everything is, or the last completed output is the input again.
def Carries (r : WorkflowRunner W) (input : Value) (journal : InMemoryJournal) (_ : Attempt W) : Prop :=
  let state := WorkflowState.fold (journal.replay r.id)
  state.completed = ∅ ∨ (∀ sid ∈ r.dag.steps, sid ∈ state.completed) ∨
    r.lastOutput state = some input

variable {r : WorkflowRunner W} {f : StepId → Value → Value} {order : List StepId} {input : Value}

theorem Journaled.carries_iff {journal : InMemoryJournal} {p : Nat}
    (journaled : Journaled r f order input journal p) (sorted : r.dag.topoSort = .ok order)
    (a : Attempt W) :
    r.Carries input journal a ↔ (p < order.length → input = carried f (order.take p) input) := by
  have recorded := journaled.recorded
  have distinct := Dag.topoSort_nodup sorted
  rw [Carries, recorded.lastOutput sorted]
  constructor
  · rintro (nothing | everything | last) bound
    · have found := List.getElem?_eq_getElem (Nat.zero_lt_of_lt bound)
      have none_done := recorded.not_completed distinct found
      rw [nothing] at none_done
      obtain rfl : p = 0 := by simpa using none_done
      rfl
    · have found := List.getElem?_eq_getElem bound
      have done := (recorded.not_completed distinct found).mp
        (everything _ ((Dag.mem_topoSort sorted _).mp (List.getElem_mem bound)))
      omega
    · split at last
      · cases last
      · exact (Option.some.inj last).symm
  · intro current
    by_cases zero : p = 0
    · left
      rw [Finset.eq_empty_iff_forall_notMem]
      intro sid member
      rw [recorded.completed, zero] at member
      simp at member
    · by_cases bound : p < order.length
      · right; right
        rw [if_neg zero, ← current bound]
      · right; left
        intro sid declared
        rw [recorded.completed, List.take_of_length_le (by omega)]
        exact (Dag.mem_topoSort sorted sid).mpr declared

def output (f : StepId → Value → Value) (order : List StepId) (input : Value) : Value :=
  if order.length = 0 then .null else carried f order input

theorem Recorded.output {state : WorkflowState} (sorted : r.dag.topoSort = .ok order)
    (recorded : Recorded f order input state order.length) :
    (r.lastOutput state).getD .null = WorkflowRunner.output f order input := by
  rw [recorded.lastOutput sorted, WorkflowRunner.output, List.take_length]
  split <;> rfl

variable (r f order input) in
structure Continues (a : Attempt W) (p : Nat) (outcome : Outcome) : Prop where
  journal : ∃ q, Journaled r f order input outcome.journal q
  calls : outcome.calls <+: (fed f order input).drop p
  returned : ∀ result, outcome.result = some result →
    (∀ call ∈ outcome.calls, r.SucceedsOn a.world call) →
      outcome.calls = (fed f order input).drop p ∧ result = .ok (output f order input)

theorem Journaled.fresh {journal : InMemoryJournal} (fresh : journal.replay r.id = []) :
    Journaled r f order input journal 0 where
  recorded := by
    rw [fresh]
    refine ⟨?_, ?_, Nat.zero_le _⟩
    · simp [WorkflowState.fold, WorkflowState.default]
    · simp [WorkflowState.fold, WorkflowState.default]
  whole := by simp [fresh, WorkflowState.fold, WorkflowState.default]

theorem Journaled.threaded {journal : InMemoryJournal} {p : Nat}
    (journaled : Journaled r f order input journal p)
    (live : (WorkflowState.fold (journal.replay r.id)).terminated ≠ some true)
    (current : p < order.length → input = carried f (order.take p) input) :
    Threaded r f order input p p (r.start journal input) where
  state := journaled.recorded
  journal := journaled.recorded
  live := live
  current := current
  calls := by simp [start]

theorem Journaled.skipped {journal : InMemoryJournal} {p : Nat}
    (journaled : Journaled r f order input journal p) (w : W) :
    forEach (r.visit w) order (r.start journal input) =
      forEach (r.visit w) (order.drop p) (r.start journal input) := by
  conv_lhs => rw [← List.take_append_drop p order]
  exact forEach_skip _ _ _ _ fun sid member =>
    if_pos ((journaled.recorded.completed sid).mpr member)

theorem Journaled.left {journal : InMemoryJournal} {p : Nat}
    (journaled : Journaled r f order input journal p) (sorted : r.dag.topoSort = .ok order) :
    order.filter (fun sid => sid ∉ (WorkflowState.fold (journal.replay r.id)).completed) =
      order.drop p :=
  journaled.recorded.filter (Dag.topoSort_nodup sorted) order (fun sid => sid) (List.map_id' _)

theorem fed_part (f : StepId → Value → Value) (order : List StepId) (input : Value) (p k : Nat) :
    ((fed f order input).take k).drop p <+: (fed f order input).drop p := by
  rw [List.drop_take]
  exact List.take_prefix _ _

theorem Continues.of_failure {a : Attempt W} {p q : Nat} {report : WorkflowReport}
    (journal : Journaled r f order input report.journal q)
    (calls : report.calls = ((fed f order input).take (q + 1)).drop p)
    (failed : ∃ call ∈ report.calls, ¬ r.SucceedsOn a.world call) :
    Continues r f order input a p ⟨some report.result, report.journal, report.calls⟩ where
  journal := ⟨q, journal⟩
  calls := by
    rw [calls]
    exact fed_part f order input p (q + 1)
  returned := by
    intro result _ succeeds
    obtain ⟨call, member, fails⟩ := failed
    exact absurd (succeeds call member) fails

theorem run_continues (invokes : r.InvokesOnly) (deterministic : r.Deterministic f)
    (sorted : r.dag.topoSort = .ok order) (w : W) {journal : InMemoryJournal} {p : Nat}
    (journaled : Journaled r f order input journal p)
    (current : p < order.length → input = carried f (order.take p) input) :
    Continues r f order input (.run w) p (r.attempt journal input (.run w)) := by
  have sizes := congrArg List.length (fed_steps f order input)
  rw [List.length_map] at sizes
  rw [attempt, run]
  split
  · next done =>
    have all := journaled.whole done
    subst all
    have none_left : (fed f order input).drop order.length = [] := by
      rw [List.drop_eq_nil_iff]
      omega
    refine ⟨⟨_, journaled⟩, List.nil_prefix, ?_⟩
    rintro result ⟨⟩ -
    exact ⟨none_left.symm, congrArg Except.ok (journaled.recorded.output sorted)⟩
  · next live =>
    simp only [sorted]
    -- the loop passes over the completed steps, so it really starts at step `p`
    have pass := loop_threaded invokes deterministic (Dag.topoSort_nodup sorted)
      (fun sid => (Dag.mem_topoSort sorted sid).mp) w
      (journaled.threaded live current) (List.prefix_refl _)
    have size : p + (order.drop p).length = order.length := by
      have := journaled.recorded.inside
      rw [List.length_drop]
      omega
    rw [← journaled.skipped, size] at pass
    refine Flow.Post.finish (fun report : WorkflowReport => Continues r f order input (.run w) p
      ⟨some report.result, report.journal, report.calls⟩)
      (pass.mono (fun _ threaded => threaded) ?_) ?_
    · exact fun report ⟨q, journal, calls, _, failed⟩ => .of_failure journal calls failed
    · intro last threaded
      refine ⟨⟨order.length, ?_, fun _ => rfl⟩, ?_, ?_⟩
      · apply threaded.journal.of_same <;> simp [WorkflowLoop.returns, WorkflowState.apply]
      · simp only [WorkflowLoop.returns, threaded.calls]
        exact fed_part f order input p order.length
      · rintro result ⟨⟩ -
        simp only [WorkflowLoop.returns, threaded.calls]
        rw [List.take_of_length_le (by omega)]
        exact ⟨rfl, congrArg Except.ok (threaded.state.output sorted)⟩

theorem stop_continues (invokes : r.InvokesOnly) (deterministic : r.Deterministic f)
    (sorted : r.dag.topoSort = .ok order) (w : W) (extra : Nat) {journal : InMemoryJournal} {p : Nat}
    (journaled : Journaled r f order input journal p)
    (current : p < order.length → input = carried f (order.take p) input) :
    Continues r f order input (.stop w extra) p (r.attempt journal input (.stop w extra)) := by
  rw [attempt, stop]
  split
  · exact ⟨⟨_, journaled⟩, List.nil_prefix, by simp⟩
  · next live =>
    simp only [sorted]
    have pass := loop_threaded invokes deterministic (Dag.topoSort_nodup sorted)
      (fun sid => (Dag.mem_topoSort sorted sid).mp) w
      (journaled.threaded live current) (List.take_prefix (extra + 1) (order.drop p))
    rw [← journaled.left sorted, start] at pass
    split
    · next last reached =>
      rw [reached] at pass
      refine ⟨⟨_, pass.journal, fun ended => absurd ended pass.live⟩, ?_, by simp⟩
      simp only [pass.calls]
      exact fed_part f order input p _
    · next report reached =>
      rw [reached] at pass
      obtain ⟨q, journal, calls, _, failed⟩ := pass
      exact .of_failure journal calls failed

theorem attempt_continues (invokes : r.InvokesOnly) (deterministic : r.Deterministic f)
    (sorted : r.dag.topoSort = .ok order) (a : Attempt W) {journal : InMemoryJournal} {p : Nat}
    (journaled : Journaled r f order input journal p)
    (current : p < order.length → input = carried f (order.take p) input) :
    Continues r f order input a p (r.attempt journal input a) := by
  cases a with
  | run w => exact run_continues invokes deterministic sorted w journaled current
  | stop w extra => exact stop_continues invokes deterministic sorted w extra journaled current

theorem attempt_diverges (invokes : r.InvokesOnly) (sorted : r.dag.topoSort = .ok order)
    (a : Attempt W) {journal : InMemoryJournal} {p : Nat}
    (journaled : Journaled r f order input journal p) (bound : p < order.length)
    (lost : input ≠ carried f (order.take p) input) :
    ¬ (r.attempt journal input a).calls <+: (fed f order input).drop p := by
  have rest : order.drop p = order[p] :: order.drop (p + 1) := List.drop_eq_getElem_cons bound
  have declared : order[p] ∈ r.dag.steps := (Dag.mem_topoSort sorted _).mp (List.getElem_mem bound)
  have left : order[p] ∉ (r.start journal input).state.completed := by
    rw [start, journaled.recorded.not_completed (Dag.topoSort_nodup sorted)
      (List.getElem?_eq_getElem bound)]
    omega
  have live : ¬ (WorkflowState.fold (journal.replay r.id)).terminated = some true := by
    intro done
    have := journaled.whole done
    omega
  have first (w : W) := r.loop_first invokes w declared left
  have called : [(order[p], input)] <+: (r.attempt journal input a).calls := by
    cases a with
    | run w =>
      simp only [attempt, run, if_neg live, sorted]
      have pass := first w (order.drop (p + 1))
      rw [← rest, ← journaled.skipped w] at pass
      exact Flow.Post.finish
        (fun report : WorkflowReport => [(order[p], input)] <+: report.calls) pass
        fun last called => called
    | stop w extra =>
      simp only [attempt, stop, if_neg live, sorted]
      have pass := first w ((order.drop (p + 1)).take extra)
      rw [← List.take_succ_cons, ← rest, ← journaled.left sorted, start] at pass
      split
      · next last reached =>
        rw [reached] at pass
        exact pass
      · next report reached =>
        rw [reached] at pass
        exact pass
  intro same
  have head : [(order[p], input)] <+: (fed f order input).drop p := called.trans same
  obtain ⟨tail, split⟩ := head
  have given : (fed f order input)[p]? = some (order[p], input) := by
    rw [← List.head?_drop, ← split]
    rfl
  rw [fed_get, List.getElem?_eq_getElem bound, Option.map_some, Option.some_inj] at given
  exact lost (congrArg Prod.snd given).symm

theorem run_reference (invokes : r.InvokesOnly) (deterministic : r.Deterministic f)
    (sorted : r.dag.topoSort = .ok order) (w : W) {journal : InMemoryJournal}
    (fresh : journal.replay r.id = [])
    (succeeds : ∀ call ∈ (r.run w journal input).calls, r.SucceedsOn w call) :
    (r.run w journal input).calls = fed f order input ∧
      (r.run w journal input).result = .ok (output f order input) := by
  have begins : Journaled r f order input journal 0 := .fresh fresh
  exact (run_continues invokes deterministic sorted w begins fun _ => rfl).returned _ rfl succeeds

theorem throughout_iff {P Q : InMemoryJournal → Attempt W → Prop} (invariant : InMemoryJournal → Prop)
    (same : ∀ journal a, invariant journal → (P journal a ↔ Q journal a))
    (kept : ∀ journal a, invariant journal → Q journal a →
      invariant (r.attempt journal input a).journal)
    (attempts : List (Attempt W)) (journal : InMemoryJournal) (holds : invariant journal) :
    r.Throughout input P journal attempts ↔ r.Throughout input Q journal attempts := by
  induction attempts generalizing journal with
  | nil => exact Iff.rfl
  | cons a rest ih =>
    rw [Throughout, Throughout, same journal a holds]
    exact and_congr_right fun here => ih _ (kept journal a holds here)

theorem faithful_iff (invokes : r.InvokesOnly) (deterministic : r.Deterministic f)
    (sorted : r.dag.topoSort = .ok order) {reference : WorkflowReport}
    (calls : reference.calls = fed f order input)
    (result : reference.result = .ok (output f order input)) (a : Attempt W)
    {journal : InMemoryJournal} {p : Nat} (journaled : Journaled r f order input journal p) :
    r.Faithful reference input journal a ↔ r.Carries input journal a := by
  have left := journaled.recorded.filter (Dag.topoSort_nodup sorted) (fed f order input) Prod.fst
    (fed_steps f order input)
  rw [Faithful, calls, left, journaled.carries_iff sorted]
  constructor
  · intro ⟨part, _⟩ bound
    by_contra lost
    exact attempt_diverges invokes sorted a journaled bound lost part
  · intro current
    have continues := attempt_continues invokes deterministic sorted a journaled current
    refine ⟨continues.calls, fun value ended succeeds => ?_⟩
    rw [result]
    exact continues.returned value ended succeeds

theorem attempt_unsorted (input : Value) {e : AgentError} (unsorted : r.dag.topoSort = .error e) (a : Attempt W)
    {journal : InMemoryJournal} (fresh : journal.replay r.id = []) :
    (r.attempt journal input a).journal = journal ∧ (r.attempt journal input a).calls = [] ∧
      ∀ result, (r.attempt journal input a).result = some result → result = .error e := by
  have live : ¬ (WorkflowState.fold (journal.replay r.id)).terminated = some true := by
    simp [fresh, WorkflowState.fold, WorkflowState.default]
  cases a with
  | run w =>
    simp only [attempt, run, if_neg live, unsorted]
    refine ⟨rfl, rfl, ?_⟩
    rintro result ⟨⟩
    rfl
  | stop w extra => simp [attempt, stop, unsorted]

/-- Retrying on one journal is faithful to the uninterrupted run exactly as long as no attempt
starts in the middle with an input that differs from the last completed output. -/
theorem replay_input (r : WorkflowRunner W) (f : StepId → Value → Value) (invokes : r.InvokesOnly)
    (deterministic : r.Deterministic f) (w : W) (journal : InMemoryJournal) (input : Value)
    (fresh : journal.replay r.id = [])
    (succeeds : ∀ call ∈ (r.run w journal input).calls, r.SucceedsOn w call)
    (attempts : List (Attempt W)) :
    r.Throughout input (r.Faithful (r.run w journal input) input) journal attempts ↔
      r.Throughout input (r.Carries input) journal attempts := by
  cases sorted : r.dag.topoSort with
  | ok order =>
    obtain ⟨calls, result⟩ := run_reference invokes deterministic sorted w fresh succeeds
    apply throughout_iff fun journal => ∃ p, Journaled r f order input journal p
    · exact fun _ a ⟨p, journaled⟩ =>
        faithful_iff invokes deterministic sorted calls result a journaled
    · intro _ a ⟨p, journaled⟩ carries
      have current := (journaled.carries_iff sorted a).mp carries
      exact (attempt_continues invokes deterministic sorted a journaled current).journal
    · exact ⟨0, .fresh fresh⟩
  | error e =>
    apply throughout_iff fun journal => journal.replay r.id = []
    · intro journal' a empty
      have reference := attempt_unsorted input sorted (.run w) fresh
      obtain ⟨-, calls, result⟩ := attempt_unsorted input sorted a empty
      have none_called : (r.run w journal input).calls = [] := reference.2.1
      rw [Faithful, calls, none_called]
      refine ⟨fun _ => .inl ?_, fun _ => ⟨List.nil_prefix, fun value ended _ => ⟨rfl, ?_⟩⟩⟩
      · rw [empty]
        rfl
      · rw [result value ended]
        exact (reference.2.2 _ rfl).symm
    · intro journal' a empty _
      rw [(attempt_unsorted input sorted a empty).1]
      exact empty
    · exact fresh

def press : WorkflowRunner Bool where
  id := "press"
  dag := ((Dag.builder "draft").step "draft" (.invoke ⟨fun _ _ => .ok (.string "article")⟩)
    |>.step "publish" (.invoke ⟨fun down text => if down then .error (.tool "down") else .ok text⟩)
    |>.edge "draft" "publish")

def heard (call : StepId × Value) : StepId × Option String :=
  match call.2 with
  | .string text => (call.1, some text)
  | _ => (call.1, none)

-- After the repair `publish` is given the topic instead of the article.
theorem replay_input_fails :
    ¬ press.Throughout (.string "topic")
      (press.Faithful (press.run false [] (.string "topic")) (.string "topic")) []
      [.run true, .run false] := by
  intro ⟨_, ⟨part, _⟩, _⟩
  exact absurd (part.map heard) (by decide)

theorem press_step {sid : StepId} {step : Step Bool} (known : press.dag.steps[sid]? = some step) :
    (sid = "draft" ∧ step = .invoke ⟨fun _ _ => .ok (.string "article")⟩) ∨
      (sid = "publish" ∧
        step = .invoke ⟨fun down text => if down then .error (.tool "down") else .ok text⟩) := by
  simp only [press, Dag.builder, Dag.step, Dag.edge, Std.ExtTreeMap.getElem?_insert,
    Std.ExtTreeMap.getElem?_empty, Std.LawfulEqCmp.compare_eq_iff_eq] at known
  split at known
  · next same => exact .inr ⟨same.symm, (Option.some.inj known).symm⟩
  · split at known
    · next same => exact .inl ⟨same.symm, (Option.some.inj known).symm⟩
    · cases known

theorem replay_input_press :
    press.Throughout (.string "topic")
        (press.Faithful (press.run false [] (.string "topic")) (.string "topic")) []
        [.run true, .run false] ↔
      press.Throughout (.string "topic") (press.Carries (.string "topic")) []
        [.run true, .run false] := by
  apply replay_input press (fun sid v => if sid = "draft" then .string "article" else v)
  · intro sid step known
    rcases press_step known with ⟨-, rfl⟩ | ⟨-, rfl⟩ <;> exact ⟨_, rfl⟩
  · intro w sid callable v out known called
    rcases press_step known with ⟨rfl, same⟩ | ⟨rfl, same⟩ <;> cases same
    · cases called
      rfl
    · cases w <;> cases called
      rfl
  · rfl
  · intro call _ callable known
    rcases press_step known with ⟨-, same⟩ | ⟨-, same⟩ <;> cases same <;> exact ⟨_, rfl⟩

end AtomrAgents.WorkflowRunner
