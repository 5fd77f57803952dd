import AtomrAgents.Workflow.Runner

set_option autoImplicit false

namespace AtomrAgents.WorkflowRunner

open Shared

variable {W : Type}

def carried (f : StepId → Value → Value) (steps : List StepId) (input : Value) : Value :=
  steps.foldl (fun x s => f s x) input

def fed (f : StepId → Value → Value) : List StepId → Value → List (StepId × Value)
  | [], _ => []
  | s :: rest, x => (s, x) :: fed f rest (f s x)

theorem fed_get (f : StepId → Value → Value) (steps : List StepId) (input : Value) (i : Nat) :
    (fed f steps input)[i]? = steps[i]?.map fun s => (s, carried f (steps.take i) input) := by
  induction steps generalizing input i with
  | nil => simp [fed]
  | cons s rest ih =>
    cases i with
    | zero => simp [fed, carried]
    | succ i => simpa [fed, carried] using ih (f s input) i

theorem fed_steps (f : StepId → Value → Value) (steps : List StepId) (input : Value) :
    (fed f steps input).map Prod.fst = steps := by
  induction steps generalizing input with
  | nil => rfl
  | cons s rest ih => simp [fed, ih]

theorem carried_succ (f : StepId → Value → Value) (steps : List StepId) (input : Value) {i : Nat}
    {s : StepId} (found : steps[i]? = some s) :
    carried f (steps.take (i + 1)) input = f s (carried f (steps.take i) input) := by
  rw [List.take_add_one, found]
  simp [carried]

def InvokesOnly (r : WorkflowRunner W) : Prop :=
  ∀ (sid : StepId) (step : Step W), r.dag.steps[sid]? = some step → ∃ callable, step = .invoke callable

-- A callable that succeeds returns a function of its input, in every run.
def Deterministic (r : WorkflowRunner W) (f : StepId → Value → Value) : Prop :=
  ∀ w sid callable v out, r.dag.steps[sid]? = some (.invoke callable) → callable.call w v = .ok out →
    out = f sid v

def SucceedsOn (r : WorkflowRunner W) (w : W) (call : StepId × Value) : Prop :=
  ∀ callable, r.dag.steps[call.1]? = some (.invoke callable) → ∃ out, callable.call w call.2 = .ok out

section Thread

variable (r : WorkflowRunner W) (f : StepId → Value → Value) (order : List StepId) (input : Value)

structure Recorded (state : WorkflowState) (p : Nat) : Prop where
  completed : ∀ sid, sid ∈ state.completed ↔ sid ∈ order.take p
  outputs : ∀ i sid, order[i]? = some sid → state.outputs[sid]? =
    if i < p then some (carried f (order.take (i + 1)) input) else none
  inside : p ≤ order.length

structure Journaled (journal : InMemoryJournal) (p : Nat) : Prop where
  recorded : Recorded f order input (.fold (journal.replay r.id)) p
  whole : (WorkflowState.fold (journal.replay r.id)).terminated = some true → p = order.length

structure Threaded (c p : Nat) (loop : WorkflowLoop) : Prop where
  state : Recorded f order input loop.state p
  journal : Recorded f order input (.fold (loop.journal.replay r.id)) p
  live : (WorkflowState.fold (loop.journal.replay r.id)).terminated ≠ some true
  current : p < order.length → loop.currentInput = carried f (order.take p) input
  calls : loop.calls = ((fed f order input).take p).drop c

end Thread

variable {r : WorkflowRunner W} {f : StepId → Value → Value} {order : List StepId} {input : Value}

theorem Recorded.complete (distinct : order.Nodup) {state : WorkflowState} {p : Nat} {sid : StepId}
    (recorded : Recorded f order input state p) (found : order[p]? = some sid) :
    Recorded f order input (state.complete sid (f sid (carried f (order.take p) input))) (p + 1) where
  completed := by
    intro t
    rw [List.take_add_one, found]
    simp [WorkflowState.complete, recorded.completed t, or_comm]
  outputs := by
    intro i t at_i
    have bound := (List.getElem?_eq_some_iff.mp at_i).1
    simp only [WorkflowState.complete, Std.ExtTreeMap.getElem?_insert,
      Std.LawfulEqCmp.compare_eq_iff_eq]
    split
    · next same =>
      have here : i = p := (List.getElem?_inj bound distinct).mp (by rw [at_i, found, same])
      subst here
      rw [if_pos (Nat.lt_succ_self i), carried_succ f order input found]
    · next other =>
      have elsewhere : i ≠ p := by
        rintro rfl
        rw [at_i, Option.some_inj] at found
        exact other found.symm
      rw [recorded.outputs i t at_i]
      have range : i < p ↔ i < p + 1 := by omega
      simp only [range]
  inside := (List.getElem?_eq_some_iff.mp found).1

theorem Recorded.of_same {state state' : WorkflowState} {p : Nat}
    (recorded : Recorded f order input state p) (completed : state'.completed = state.completed)
    (outputs : state'.outputs = state.outputs) : Recorded f order input state' p where
  completed := by rw [completed]; exact recorded.completed
  outputs := by rw [outputs]; exact recorded.outputs
  inside := recorded.inside

theorem Recorded.not_completed (distinct : order.Nodup) {state : WorkflowState} {p i : Nat}
    {sid : StepId} (recorded : Recorded f order input state p) (found : order[i]? = some sid) :
    sid ∈ state.completed ↔ i < p := by
  rw [recorded.completed, List.mem_take_iff_getElem]
  constructor
  · intro ⟨j, bound, same⟩
    have here : i = j := (List.getElem?_inj (List.getElem?_eq_some_iff.mp found).1 distinct).mp
      (by rw [found, ← same, List.getElem?_eq_getElem (by omega)])
    omega
  · intro early
    have bound := (List.getElem?_eq_some_iff.mp found)
    exact ⟨i, by have := bound.1; omega, bound.2⟩

theorem Recorded.lastOutput {state : WorkflowState} {p : Nat} (sorted : r.dag.topoSort = .ok order)
    (recorded : Recorded f order input state p) :
    r.lastOutput state = if p = 0 then none else some (carried f (order.take p) input) := by
  rw [WorkflowRunner.lastOutput, sorted]
  dsimp only
  have later : ∀ sid ∈ order.drop p, state.outputs[sid]? = none := by
    intro sid member
    obtain ⟨i, bound, same⟩ := List.mem_iff_getElem.mp member
    rw [List.getElem_drop] at same
    rw [recorded.outputs (p + i) sid (by
      rw [← same, List.getElem?_eq_getElem]), if_neg (by omega)]
  conv_lhs => rw [← List.take_append_drop p order, List.reverse_append, List.findSome?_append]
  have none_later : (order.drop p).reverse.findSome? (fun id => state.outputs[id]?) = none := by
    rw [List.findSome?_eq_none_iff]
    exact fun sid member => later sid (List.mem_reverse.mp member)
  rw [none_later, Option.none_or]
  cases p with
  | zero => rfl
  | succ q =>
    have bound : q < order.length := recorded.inside
    have found := List.getElem?_eq_getElem bound
    have own : state.outputs[order[q]]? = some (carried f (order.take (q + 1)) input) := by
      rw [recorded.outputs q _ found, if_pos (Nat.lt_succ_self q)]
    have front : order.take (q + 1) = order.take q ++ [order[q]] := by
      rw [List.take_add_one, found]
      rfl
    rw [if_neg (Nat.succ_ne_zero q)]
    conv_lhs => rw [front]
    simp only [List.reverse_append, List.reverse_cons, List.reverse_nil, List.nil_append,
      List.singleton_append, List.findSome?_cons, own]

theorem visit_threaded (invokes : r.InvokesOnly) (deterministic : r.Deterministic f)
    (distinct : order.Nodup) (declared : ∀ sid ∈ order, sid ∈ r.dag.steps) (w : W) {c p : Nat}
    (started : c ≤ p) {loop : WorkflowLoop} (threaded : Threaded r f order input c p loop)
    {sid : StepId} (found : order[p]? = some sid) :
    (r.visit w loop sid).Post (Threaded r f order input c (p + 1))
      (fun report => Journaled r f order input report.journal p ∧
        report.calls = ((fed f order input).take (p + 1)).drop c ∧
        (∃ e, report.result = .error e) ∧ ∃ call ∈ report.calls, ¬ r.SucceedsOn w call) := by
  obtain ⟨step, known⟩ := r.dag.exists_step (declared sid (List.mem_of_getElem? found))
  obtain ⟨callable, rfl⟩ := invokes sid step known
  have bound := (List.getElem?_eq_some_iff.mp found).1
  have fresh : sid ∉ loop.state.completed := by
    rw [threaded.state.not_completed distinct found]
    omega
  have given := threaded.current bound
  have fed_p : (fed f order input)[p]? = some (sid, carried f (order.take p) input) := by
    rw [fed_get, found, Option.map_some]
  have calls : loop.calls ++ [(sid, carried f (order.take p) input)] =
      ((fed f order input).take (p + 1)).drop c := by
    have size := congrArg List.length (fed_steps f order input)
    rw [List.length_map] at size
    rw [List.take_add_one, fed_p, List.drop_append_of_le_length (by rw [List.length_take]; omega),
      threaded.calls]
    rfl
  simp only [visit, fresh, if_false, known, execStep, given, calls]
  -- the loop's own state and the fold of the journal take the same step
  cases outcome : callable.call w (carried f (order.take p) input) with
  | ok out =>
    have value := deterministic w sid callable _ out known outcome
    subst value
    refine ⟨threaded.state.complete distinct found, ?_, ?_, ?_, rfl⟩
    · simpa [WorkflowState.apply] using threaded.journal.complete distinct found
    · simpa [WorkflowState.apply, WorkflowState.complete] using threaded.live
    · exact fun _ => (carried_succ f order input found).symm
  | error e =>
    refine ⟨⟨?_, ?_⟩, rfl, ⟨e, rfl⟩, (sid, carried f (order.take p) input), ?_, ?_⟩
    · apply threaded.journal.of_same <;> simp [WorkflowLoop.returns, WorkflowState.apply]
    · simp [WorkflowLoop.returns, WorkflowState.apply]
    · simp [WorkflowLoop.returns, ← calls]
    · intro succeeds
      obtain ⟨out, ok⟩ := succeeds callable known
      rw [outcome] at ok
      cases ok

theorem Recorded.filter {α : Type} {state : WorkflowState} {p : Nat} (distinct : order.Nodup)
    (recorded : Recorded f order input state p) (items : List α) (key : α → StepId)
    (keys : items.map key = order) :
    items.filter (fun item => key item ∉ state.completed) = items.drop p := by
  conv_lhs => rw [← List.take_append_drop p items, List.filter_append]
  have front : (items.take p).filter (fun item => key item ∉ state.completed) = [] := by
    rw [List.filter_eq_nil_iff]
    intro item member
    have inside : key item ∈ order.take p := by
      rw [← keys, ← List.map_take]
      exact List.mem_map_of_mem member
    simpa using (recorded.completed _).mpr inside
  have back : (items.drop p).filter (fun item => key item ∉ state.completed) = items.drop p := by
    rw [List.filter_eq_self]
    intro item member
    obtain ⟨i, bound, same⟩ := List.mem_iff_getElem.mp member
    rw [List.getElem_drop] at same
    rw [List.length_drop] at bound
    have found : order[p + i]? = some (key item) := by
      rw [← keys, List.getElem?_map, List.getElem?_eq_getElem (by omega), same, Option.map_some]
    have later := recorded.not_completed distinct found
    simp only [decide_eq_true_eq, later]
    omega
  rw [front, back, List.nil_append]

theorem loop_threaded (invokes : r.InvokesOnly) (deterministic : r.Deterministic f)
    (distinct : order.Nodup) (declared : ∀ sid ∈ order, sid ∈ r.dag.steps) (w : W) {c : Nat}
    {loop : WorkflowLoop} (threaded : Threaded r f order input c c loop) {steps : List StepId}
    (part : steps <+: order.drop c) :
    (forEach (r.visit w) steps loop).Post (Threaded r f order input c (c + steps.length))
      (fun report => ∃ p, Journaled r f order input report.journal p ∧
        report.calls = ((fed f order input).take (p + 1)).drop c ∧
        (∃ e, report.result = .error e) ∧ ∃ call ∈ report.calls, ¬ r.SucceedsOn w call) := by
  -- the steps still to come begin what is left of the order after `p` steps
  refine (forEach_post (r.visit w)
    (fun rest last => ∃ p, c ≤ p ∧ rest <+: order.drop p ∧ p + rest.length = c + steps.length ∧
      Threaded r f order input c p last) _ ?_ steps loop
    ⟨c, Nat.le_refl c, part, rfl, threaded⟩).mono ?_ (fun _ failed => failed)
  · intro sid rest last ⟨p, started, part, size, threaded⟩
    obtain ⟨tail, split⟩ := part
    have found : order[p]? = some sid := by
      rw [← List.head?_drop, ← split]
      rfl
    have onward : rest <+: order.drop (p + 1) := by
      refine ⟨tail, ?_⟩
      rw [← List.tail_drop, ← split]
      rfl
    rw [List.length_cons] at size
    apply (visit_threaded invokes deterministic distinct declared w started threaded found).mono
    · exact fun next threaded => ⟨p + 1, Nat.le_succ_of_le started, onward, by omega, threaded⟩
    · exact fun report failed => ⟨p, failed⟩
  · intro last ⟨p, _, _, size, threaded⟩
    rw [List.length_nil, Nat.add_zero] at size
    rwa [← size]

theorem visit_calls (r : WorkflowRunner W) (w : W) (loop : WorkflowLoop) (sid : StepId) :
    (r.visit w loop sid).Post (fun last => loop.calls <+: last.calls)
      (fun report => loop.calls <+: report.calls) := by
  rw [visit]
  split
  · exact List.prefix_refl _
  · dsimp only
    split
    · exact List.prefix_refl _
    · split <;> exact List.prefix_append _ _

theorem loop_first (invokes : r.InvokesOnly) (w : W) {loop : WorkflowLoop} {sid : StepId}
    (declared : sid ∈ r.dag.steps) (fresh : sid ∉ loop.state.completed) (rest : List StepId) :
    (forEach (r.visit w) (sid :: rest) loop).Post
      (fun last => loop.calls ++ [(sid, loop.currentInput)] <+: last.calls)
      (fun report => loop.calls ++ [(sid, loop.currentInput)] <+: report.calls) := by
  obtain ⟨step, known⟩ := r.dag.exists_step declared
  obtain ⟨callable, rfl⟩ := invokes sid step known
  have first : (r.visit w loop sid).Post
      (fun last => loop.calls ++ [(sid, loop.currentInput)] <+: last.calls)
      (fun report => loop.calls ++ [(sid, loop.currentInput)] <+: report.calls) := by
    simp only [visit, fresh, if_false, known, execStep]
    cases callable.call w loop.currentInput <;> exact List.prefix_refl _
  rw [forEach]
  cases turn : r.visit w loop sid with
  | ret report =>
    rw [turn] at first
    exact first
  | next last =>
    rw [turn] at first
    refine forEach_post (r.visit w) (fun _ last => loop.calls ++ [(sid, loop.currentInput)] <+: last.calls)
      _ ?_ rest last first
    intro t _ last called
    apply (r.visit_calls w last t).mono
    · exact fun next grown => called.trans grown
    · exact fun report grown => called.trans grown

def start (r : WorkflowRunner W) (journal : InMemoryJournal) (input : Value) : WorkflowLoop :=
  { state := .fold (journal.replay r.id), currentInput := input, journal, calls := [], executed := [] }

end AtomrAgents.WorkflowRunner
