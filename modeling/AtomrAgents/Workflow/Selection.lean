import AtomrAgents.Workflow.Runner
import Mathlib.Data.List.Nodup
import Mathlib.Data.List.Pairwise
import Mathlib.Logic.Relation

set_option autoImplicit false

namespace AtomrAgents.WorkflowRunner

open Shared

variable {W : Type}

-- The steps whose callables one execution of this step calls.
def named (r : WorkflowRunner W) (sid : StepId) : List StepId :=
  match r.dag.steps[sid]? with
  | some (.invoke _) => [sid]
  | some (.parallel steps _) => steps
  | _ => []

def choice (chosen : StepId) : Value := .object [("branch", .string chosen)]

def Next (r : WorkflowRunner W) (s t : StepId) : Prop :=
  t ∈ r.dag.edges[s]?.getD [] ∨
    match r.dag.steps[s]? with
    | some (.branch _ ifTrue ifFalse) => t = ifTrue ∨ t = ifFalse
    | some (.parallel steps _) => t ∈ steps
    | _ => False

-- `t` can be reached from the entry, but not without going through `b`
def OnlyThrough (r : WorkflowRunner W) (b t : StepId) : Prop :=
  Relation.ReflTransGen r.Next r.dag.entry t ∧
    ¬ Relation.ReflTransGen (fun s s' => s ≠ b ∧ r.Next s s') r.dag.entry t

structure Fork (r : WorkflowRunner W) (b t u : StepId) : Prop where
  branch : ∃ predicate, r.dag.steps[b]? = some (.branch predicate t u) ∨
    r.dag.steps[b]? = some (.branch predicate u t)
  distinct : t ≠ u
  declared : t ∈ r.dag.steps ∧ u ∈ r.dag.steps
  through : r.OnlyThrough b t ∧ r.OnlyThrough b u

theorem Fork.symm {r : WorkflowRunner W} {b t u : StepId} (fork : r.Fork b t u) : r.Fork b u t where
  branch := by
    obtain ⟨predicate, either⟩ := fork.branch
    exact ⟨predicate, either.symm⟩
  distinct := fork.distinct.symm
  declared := fork.declared.symm
  through := fork.through.symm

structure Selects (r : WorkflowRunner W) (report : WorkflowReport) : Prop where
  once : (report.calls.map Prod.fst).Nodup
  chosen : ∀ b t u, r.Fork b t u →
    (WorkflowState.fold (report.journal.replay r.id)).outputs[b]? = some (choice t) →
      u ∉ report.executed ∧ u ∉ report.calls.map Prod.fst

abbrev Left (r : WorkflowRunner W) (state : WorkflowState) (sid : StepId) : Prop :=
  sid ∈ r.dag.steps ∧ sid ∉ state.completed

-- the step is still to be executed, or to be called for a parallel step
def Due (r : WorkflowRunner W) (state : WorkflowState) (sid : StepId) : Prop :=
  r.Left state sid ∨ ∃ p, r.Left state p ∧ sid ∈ r.named p

structure Selective (r : WorkflowRunner W) (state : WorkflowState) : Prop where
  once : ∀ s, r.Left state s → (r.named s).Nodup
  apart : ∀ s s', r.Left state s → r.Left state s' → s ≠ s' → (r.named s).Disjoint (r.named s')
  chosen : ∀ b t u, r.Fork b t u → r.Left state b ∨ state.outputs[b]? = some (choice t) →
    ¬ r.Due state u

theorem spawnChildren_named (r : WorkflowRunner W) (w : W) (input : Value) (steps : List StepId)
    {handles : List (Except AgentError Value)} (spawned : (r.spawnChildren w input steps).1 = .ok handles) :
    (r.spawnChildren w input steps).2.map Prod.fst = steps := by
  induction steps generalizing handles with
  | nil => rfl
  | cons sid rest ih =>
    rw [spawnChildren] at spawned ⊢
    split
    · next unknown => simp [unknown] at spawned
    · next callable known =>
      simp only [known] at spawned
      cases others : (r.spawnChildren w input rest).1 with
      | error e =>
        rw [others] at spawned
        cases spawned
      | ok handles => simp [ih others]
    · next step other known =>
      simp only [known] at spawned
      cases spawned

theorem execStep_named (r : WorkflowRunner W) (w : W) {sid : StepId} {step : Step W}
    (known : r.dag.steps[sid]? = some step) (input : Value) (state : WorkflowState) {out : Value}
    (ok : (r.execStep w sid step input state).1 = .ok out) :
    (r.execStep w sid step input state).2.2.map Prod.fst = r.named sid ∧
      (r.execStep w sid step input state).2.1.completed = state.completed ∧
      ∀ predicate t u, step = .branch predicate t u → out = choice t ∨ out = choice u := by
  cases step with
  | invoke callable => exact ⟨by simp [execStep, named, known], rfl, nofun⟩
  | branch predicate t u =>
    refine ⟨by simp [execStep, named, known], rfl, ?_⟩
    rintro _ _ _ ⟨⟩
    cases ok
    cases predicate input
    · exact .inr rfl
    · exact .inl rfl
  | parallel steps join =>
    refine ⟨?_, rfl, nofun⟩
    simp only [named, known, execStep] at ok ⊢
    cases spawned : (r.spawnChildren w input steps).1 with
    | error e =>
      rw [spawned] at ok
      cases ok
    | ok handles => exact r.spawnChildren_named w input steps spawned
  | loop | map | human => exact ⟨by simp [execStep, named, known], rfl, nofun⟩

structure Swept (r : WorkflowRunner W) (state : WorkflowState) (order rest : List StepId)
    (loop : WorkflowLoop) : Prop where
  distinct : (loop.executed ++ rest).Nodup
  executed : loop.executed ++ rest.filter (· ∉ state.completed) =
    order.filter (· ∉ state.completed)
  completed : ∀ sid ∈ rest, sid ∈ loop.state.completed ↔ sid ∈ state.completed
  calls : loop.calls.map Prod.fst = loop.executed.flatMap r.named
  taken : ∀ b predicate t u, r.dag.steps[b]? = some (.branch predicate t u) → b ∈ loop.executed →
    (WorkflowState.fold (loop.journal.replay r.id)).outputs[b]? = some (choice t) ∨
      (WorkflowState.fold (loop.journal.replay r.id)).outputs[b]? = some (choice u)
  kept : ∀ b, b ∉ loop.executed →
    (WorkflowState.fold (loop.journal.replay r.id)).outputs[b]? = state.outputs[b]?

variable {r : WorkflowRunner W} {state : WorkflowState} {order : List StepId}

theorem visit_swept (w : W) {sid : StepId} {rest : List StepId} {loop : WorkflowLoop}
    (swept : r.Swept state order (sid :: rest) loop) :
    (r.visit w loop sid).Post (r.Swept state order rest) (fun report => ∀ v, report.result ≠ .ok v) := by
  have known_here := swept.completed sid List.mem_cons_self
  have apart : loop.executed.Nodup ∧ sid ∉ rest ∧ rest.Nodup ∧
      ∀ b ∈ loop.executed, b ≠ sid ∧ b ∉ rest := by
    have distinct := swept.distinct
    simp only [List.nodup_append, List.nodup_cons, List.mem_cons] at distinct
    grind
  rw [visit]
  split
  · next done =>
    refine ⟨?_, ?_, fun t member => swept.completed t (List.mem_cons_of_mem _ member), swept.calls,
      swept.taken, swept.kept⟩
    · exact swept.distinct.sublist ((List.sublist_cons_self sid rest).append_left _)
    · rw [← swept.executed, List.filter_cons_of_neg (by simpa using known_here.mp done)]
  · next left =>
    dsimp only
    split
    · exact nofun
    · next step known =>
      cases outcome : (r.execStep w sid step loop.currentInput loop.state).1 with
      | error e => exact nofun
      | ok out =>
        obtain ⟨calls, completed, branch⟩ :=
          r.execStep_named w known loop.currentInput loop.state outcome
        -- of the two events of the step only `StepCompleted` changes the outputs
        have outputs (started : String) (b : StepId) :
            (WorkflowState.fold (((loop.journal.append r.id (.stepStarted sid started)).append r.id
              (.stepCompleted sid out)).replay r.id)).outputs[b]? =
              if sid = b then some out
              else (WorkflowState.fold (loop.journal.replay r.id)).outputs[b]? := by
          simp [WorkflowState.apply, WorkflowState.complete, Std.ExtTreeMap.getElem?_insert]
        dsimp only
        refine ⟨?_, ?_, ?_, ?_, ?_, ?_⟩
        · simpa using swept.distinct
        · rw [← swept.executed, List.filter_cons_of_pos (by simpa using mt known_here.mpr left)]
          simp
        · intro t member
          have other : t ≠ sid := fun same => apart.2.1 (same ▸ member)
          simp [WorkflowState.complete, completed, other,
            swept.completed t (List.mem_cons_of_mem _ member)]
        · simp [swept.calls, calls]
        · intro b predicate t u here member
          rw [outputs]
          split
          · next same =>
            subst same
            rw [known, Option.some_inj] at here
            simpa using branch predicate t u here
          · next other =>
            have before : b ∈ loop.executed := by
              simp only [List.mem_append, List.mem_singleton] at member
              exact member.resolve_right (Ne.symm other)
            exact swept.taken b predicate t u here before
        · intro b fresh
          simp only [List.mem_append, List.mem_singleton, not_or] at fresh
          rw [outputs, if_neg (Ne.symm fresh.2)]
          exact swept.kept b fresh.1

structure Finished (r : WorkflowRunner W) (state : WorkflowState) (report : WorkflowReport) : Prop where
  executed : ∀ sid, sid ∈ report.executed ↔ r.Left state sid
  distinct : report.executed.Nodup
  calls : report.calls.map Prod.fst = report.executed.flatMap r.named
  taken : ∀ b t u, r.Fork b t u → r.Left state b →
    (WorkflowState.fold (report.journal.replay r.id)).outputs[b]? = some (choice t) ∨
      (WorkflowState.fold (report.journal.replay r.id)).outputs[b]? = some (choice u)
  kept : ∀ b, ¬ r.Left state b →
    (WorkflowState.fold (report.journal.replay r.id)).outputs[b]? = state.outputs[b]?

theorem run_finished (r : WorkflowRunner W) (w : W) (journal : InMemoryJournal) (input : Value)
    (live : (WorkflowState.fold (journal.replay r.id)).terminated ≠ some true) {v : Value}
    (ok : (r.run w journal input).result = .ok v) :
    r.Finished (.fold (journal.replay r.id)) (r.run w journal input) := by
  rw [run, if_neg live] at ok ⊢
  cases sorted : r.dag.topoSort with
  | error e =>
    rw [sorted] at ok
    cases ok
  | ok order =>
    rw [sorted] at ok
    have pass := forEach_post (r.visit w)
      (r.Swept (.fold (journal.replay r.id)) order) (fun report => ∀ v, report.result ≠ .ok v)
      (fun sid rest loop swept => visit_swept w swept) order
      { state := .fold (journal.replay r.id), currentInput := input, journal, calls := [],
        executed := [] }
      { distinct := Dag.topoSort_nodup sorted
        executed := rfl
        completed := fun _ _ => Iff.rfl
        calls := rfl
        taken := nofun
        kept := fun _ _ => rfl }
    refine Flow.Post.finish (fun report : WorkflowReport => report.result = .ok v →
      r.Finished (.fold (journal.replay r.id)) report)
      (pass.mono (fun _ swept => swept) ?_) ?_ ok
    · exact fun report failed ok => absurd ok (failed v)
    · intro loop swept _
      have ended : (WorkflowState.fold ((loop.journal.append r.id (.terminated true)).replay
          r.id)).outputs = (WorkflowState.fold (loop.journal.replay r.id)).outputs := by
        simp [WorkflowState.apply]
      have all : loop.executed =
          order.filter (· ∉ (WorkflowState.fold (journal.replay r.id)).completed) := by
        simpa using swept.executed
      have executed (sid : StepId) :
          sid ∈ loop.executed ↔ r.Left (.fold (journal.replay r.id)) sid := by
        simp [all, Left, Dag.mem_topoSort sorted]
      refine ⟨executed, by simpa [WorkflowLoop.returns] using swept.distinct, swept.calls, ?_, ?_⟩
      · intro b t u fork left
        obtain ⟨predicate, branch | branch⟩ := fork.branch
        · rw [WorkflowLoop.returns, ended]
          exact swept.taken b predicate t u branch ((executed b).mpr left)
        · rw [WorkflowLoop.returns, ended]
          exact (swept.taken b predicate u t branch ((executed b).mpr left)).symm
      · intro b other
        rw [WorkflowLoop.returns, ended]
        exact swept.kept b (mt (executed b).mp other)

variable {report : WorkflowReport}

theorem Finished.due (finished : r.Finished state report) (sid : StepId) :
    r.Due state sid ↔ sid ∈ report.executed ∨ sid ∈ report.calls.map Prod.fst := by
  simp only [Due, finished.calls, List.mem_flatMap, finished.executed]

theorem Finished.once (finished : r.Finished state report) :
    (report.calls.map Prod.fst).Nodup ↔
      (∀ s, r.Left state s → (r.named s).Nodup) ∧
        ∀ s s', r.Left state s → r.Left state s' → s ≠ s' → (r.named s).Disjoint (r.named s') := by
  rw [finished.calls, List.nodup_flatMap]
  simp only [finished.executed]
  refine and_congr_right fun _ => ⟨fun pairwise s s' left left' other => ?_, fun apart => ?_⟩
  · have symm : Std.Symm (Function.onFun List.Disjoint r.named) := ⟨fun _ _ apart => apart.symm⟩
    exact pairwise.forall ((finished.executed s).mpr left) ((finished.executed s').mpr left') other
  · refine finished.distinct.pairwise_of_forall_ne fun s member s' member' other => ?_
    exact apart s s' ((finished.executed s).mp member) ((finished.executed s').mp member') other

theorem Finished.selects (finished : r.Finished state report) (selective : r.Selective state) :
    r.Selects report where
  once := finished.once.mpr ⟨selective.once, selective.apart⟩
  chosen := by
    intro b t u fork taken
    have idle : ¬ r.Due state u := by
      by_cases left : r.Left state b
      · exact selective.chosen b t u fork (.inl left)
      · rw [finished.kept b left] at taken
        exact selective.chosen b t u fork (.inr taken)
    rwa [finished.due, not_or] at idle

theorem Finished.selective (finished : r.Finished state report)
    (even : ∀ b t u, r.Fork b t u → r.Left state b → r.Due state u → r.Due state t)
    (selects : r.Selects report) : r.Selective state where
  once := (finished.once.mp selects.once).1
  apart := (finished.once.mp selects.once).2
  chosen := by
    intro b t u fork open_ due
    have unchosen {t u : StepId} (fork : r.Fork b t u)
        (taken : (WorkflowState.fold (report.journal.replay r.id)).outputs[b]? = some (choice t)) :
        ¬ r.Due state u := by
      rw [finished.due, not_or]
      exact selects.chosen b t u fork taken
    by_cases left : r.Left state b
    · -- whichever target the branch picks, the other one is due as well
      cases finished.taken b t u fork left with
      | inl taken => exact unchosen fork taken due
      | inr taken => exact unchosen fork.symm taken (even b t u fork left due)
    · have recorded := open_.resolve_left left
      rw [← finished.kept b left] at recorded
      exact unchosen fork recorded due

/-- A run that returns `Ok` calls no step twice and nothing that its branches did not choose, if
the steps left name each step once and leave the targets of the branches alone; only then, unless
one target alone of a branch that is still left has been completed before. -/
theorem run_selects (r : WorkflowRunner W) (w : W) (journal : InMemoryJournal) (input v : Value)
    (ok : (r.run w journal input).result = .ok v) :
    let state := WorkflowState.fold (journal.replay r.id)
    (state.terminated = some true ∨ r.Selective state → r.Selects (r.run w journal input)) ∧
      ((∀ b t u, r.Fork b t u → r.Left state b → r.Due state u → r.Due state t) →
        (r.Selects (r.run w journal input) ↔ state.terminated = some true ∨ r.Selective state)) := by
  intro state
  by_cases ended : state.terminated = some true
  · have idle : r.Selects (r.run w journal input) := by
      rw [run, if_pos ended]
      exact ⟨List.nodup_nil, fun _ _ _ _ _ => ⟨List.not_mem_nil, List.not_mem_nil⟩⟩
    exact ⟨fun _ => idle, fun _ => ⟨fun _ => .inl ended, fun _ => idle⟩⟩
  · have finished := r.run_finished w journal input ended ok
    refine ⟨fun either => finished.selects (either.resolve_left ended), fun even => ?_⟩
    exact ⟨fun selects => .inr (finished.selective even selects),
      fun either => finished.selects (either.resolve_left ended)⟩

-- On a fresh journal: no parallel step has a child, and no branch really chooses.
theorem selective_fresh
    (invokes : ∀ (p : StepId) steps join, r.dag.steps[p]? = some (.parallel steps join) →
      ∀ child ∈ steps, ∃ callable, r.dag.steps[child]? = some (.invoke callable)) :
    r.Selective .default ↔
      (∀ (p : StepId) steps join, r.dag.steps[p]? = some (.parallel steps join) → steps = []) ∧
        ∀ b t u, ¬ r.Fork b t u := by
  have left {sid : StepId} (declared : sid ∈ r.dag.steps) : r.Left .default sid :=
    ⟨declared, Finset.notMem_empty sid⟩
  have member {sid : StepId} {step : Step W} (known : r.dag.steps[sid]? = some step) :
      sid ∈ r.dag.steps := by
    rw [Std.ExtTreeMap.mem_iff_isSome_getElem?, known]
    rfl
  constructor
  · intro selective
    refine ⟨fun p steps join known => ?_, fun b t u fork => ?_⟩
    · rw [List.eq_nil_iff_forall_not_mem]
      intro child spawned
      obtain ⟨callable, known'⟩ := invokes p steps join known child spawned
      have other : p ≠ child := by
        rintro rfl
        rw [known] at known'
        cases known'
      have twice : child ∈ r.named p ∧ child ∈ r.named child := by simp [named, known, known', spawned]
      exact selective.apart p child (left (member known)) (left (member known')) other twice.1 twice.2
    · obtain ⟨predicate, branch⟩ := fork.branch
      have declared : b ∈ r.dag.steps := branch.elim member member
      exact selective.chosen b t u fork (.inl (left declared)) (.inl (left fork.declared.2))
  · intro ⟨childless, unforked⟩
    have own (s t : StepId) (calls : t ∈ r.named s) : t = s := by
      rw [named] at calls
      split at calls
      · exact List.mem_singleton.mp calls
      · next steps join known =>
        rw [childless s steps join known] at calls
        cases calls
      · cases calls
    refine ⟨fun s _ => ?_, fun s s' _ _ other => ?_, fun b t u fork => absurd fork (unforked b t u)⟩
    · rw [named]
      split
      · exact List.nodup_singleton s
      · next steps join known =>
        rw [childless s steps join known]
        exact List.nodup_nil
      · exact List.nodup_nil
    · exact fun t calls calls' => other ((own s t calls).symm.trans (own s' t calls'))

def gather : WorkflowRunner Unit where
  id := "gather"
  dag := ((Dag.builder "both").step "both" (.parallel ["search"] .all)
    |>.step "search" (.invoke ⟨fun _ query => .ok query⟩)
    |>.edge "both" "search")

def review : WorkflowRunner Unit where
  id := "review"
  dag := ((Dag.builder "check").step "check" (.branch (fun _ => true) "approve" "reject")
    |>.step "approve" (.invoke ⟨fun _ input => .ok input⟩)
    |>.step "reject" (.invoke ⟨fun _ input => .ok input⟩)
    |>.edge "check" "approve" |>.edge "check" "reject")

theorem review_through {target : StepId} (next : review.Next "check" target)
    (other : "check" ≠ target) : review.OnlyThrough "check" target := by
  refine ⟨.single next, fun path => ?_⟩
  cases path.cases_head with
  | inl here => exact other here
  | inr onward =>
    obtain ⟨_, ⟨avoids, _⟩, _⟩ := onward
    exact avoids rfl

theorem review_fork : review.Fork "check" "approve" "reject" where
  branch := ⟨fun _ => true, .inl rfl⟩
  distinct := by decide
  declared := by decide
  through := ⟨review_through (.inr (.inl rfl)) (by decide), review_through (.inr (.inr rfl)) (by decide)⟩

-- `search` is called twice, and both `approve` and `reject` are called.
theorem run_selects_fails :
    (gather.run () [] .null).result.isOk ∧ ¬ gather.Selects (gather.run () [] .null) ∧
      (review.run () [] .null).result.isOk ∧ ¬ review.Selects (review.run () [] .null) := by
  have ok : (review.run () [] .null).result.isOk := by decide
  refine ⟨by decide, fun selects => absurd selects.once (by decide), ok, fun selects => ?_⟩
  cases outcome : (review.run () [] .null).result with
  | error e =>
    rw [outcome] at ok
    cases ok
  | ok v =>
    -- whichever target the branch has chosen, the other one was executed too
    have finished := review.run_finished () [] .null (by decide) outcome
    cases finished.taken "check" "approve" "reject" review_fork (by decide) with
    | inl taken => exact absurd (selects.chosen _ _ _ review_fork taken).1 (by decide)
    | inr taken => exact absurd (selects.chosen _ _ _ review_fork.symm taken).1 (by decide)

theorem gather_no_fork (b t u : StepId) : ¬ gather.Fork b t u := by
  intro fork
  obtain ⟨predicate, branch⟩ := fork.branch
  simp only [gather, Dag.builder, Dag.step, Dag.edge, Std.ExtTreeMap.getElem?_insert,
    Std.ExtTreeMap.getElem?_empty] at branch
  split at branch
  · simp at branch
  · split at branch <;> simp at branch

set_option maxRecDepth 4000 in
theorem run_selects_gather :
    gather.Selects (gather.run () [] .null) ↔
      (WorkflowState.fold (InMemoryJournal.replay [] "gather")).terminated = some true ∨
        gather.Selective (.fold (InMemoryJournal.replay [] "gather")) :=
  (run_selects gather () [] .null (.array [.null]) rfl).2 fun b t u fork =>
    absurd fork (gather_no_fork b t u)

end AtomrAgents.WorkflowRunner
