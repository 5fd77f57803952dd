import AtomrAgents.DeepResearch.RunIndependence
import Mathlib.Data.Prod.Lex
import Mathlib.Order.WellFounded

set_option autoImplicit false

/-! Two strategies have edges back to an earlier stage. Their roles succeed here and leave the plan alone, and
may do something else at every step. -/

namespace AtomrAgents.DeepResearch

def KeepsPlan {α : Type} (role : ResearchResult → RoleAnswer α) : Prop :=
  ∀ r, ∃ answer r', role r = (.ok answer, r') ∧ r'.plan = r.plan

structure PlanKeepingRoles extends DeepResearchRoles where
  clarifies : ∀ request, KeepsPlan (clarifier request)
  plans : ∀ request, KeepsPlan (planner request)
  researches : ∀ sub request, KeepsPlan (researcher sub request)
  writes : ∀ plan request, KeepsPlan (writer plan request)
  criticizes : ∀ request, KeepsPlan (critic request)
  verifies : ∀ request, KeepsPlan (verifier request)

def DeepResearchStepOutcome.isDone : DeepResearchStepOutcome → Bool
  | .done _ => true
  | .«continue» _ => false

section Effects

variable {σ α β : Type}

structure Effect (m : StepM σ DeepResearchStepOutcome) (s : Stepping σ) (last : Bool) (loop : σ)
    (plan : Option Plan) (calls : List RoleCall) : Prop where
  outcome : ∃ outcome, (m.run.run s).1 = .ok outcome ∧ outcome.isDone = last
  loop : (m.run.run s).2.loop = loop
  plan : (m.run.run s).2.result.plan = plan
  calls : (m.run.run s).2.calls = s.calls ++ calls

variable {s : Stepping σ}

theorem Effect.call {call : RoleCall} {role : ResearchResult → RoleAnswer α}
    {f : α → StepM σ DeepResearchStepOutcome} {answer : α} {r' : ResearchResult} {last : Bool} {loop : σ}
    {plan : Option Plan} {calls : List RoleCall} (ran : role s.result = (.ok answer, r'))
    (after : Effect (f answer) { s with result := r', calls := s.calls ++ [call] } last loop plan calls) :
    Effect (callRole call role >>= f) s last loop plan (call :: calls) := by
  have called : (callRole call role : StepM σ α).run.run s =
      (.ok answer, { s with result := r', calls := s.calls ++ [call] }) := by
    change ((role s.result).1, { s with result := (role s.result).2, calls := s.calls ++ [call] }) = _
    rw [ran]
  have run : (callRole call role >>= f).run.run s =
      (f answer).run.run { s with result := r', calls := s.calls ++ [call] } := by
    rw [bind_run, called]
  refine ⟨?_, ?_, ?_, ?_⟩ <;> rw [run]
  · exact after.outcome
  · exact after.loop
  · exact after.plan
  · rw [after.calls, List.append_assoc]
    rfl

theorem Effect.snapshot {f : Plan → StepM σ DeepResearchStepOutcome} {last : Bool} {loop : σ}
    {plan : Option Plan} {calls : List RoleCall}
    (after : Effect (f (s.result.plan.getD .new)) s last loop plan calls) :
    Effect (snapshotPlan >>= f) s last loop plan calls :=
  ⟨after.outcome, after.loop, after.plan, after.calls⟩

theorem Effect.getLoop {f : σ → StepM σ DeepResearchStepOutcome} {last : Bool} {loop : σ} {plan : Option Plan}
    {calls : List RoleCall} (after : Effect (f s.loop) s last loop plan calls) :
    Effect (DeepResearch.getLoop >>= f) s last loop plan calls :=
  ⟨after.outcome, after.loop, after.plan, after.calls⟩

theorem goesOn_effect {plan : Option Plan} (kept : s.result.plan = plan) (loop : σ) (label : String) :
    Effect (do setLoop loop; return .«continue» label) s false loop plan [] :=
  ⟨⟨_, rfl, rfl⟩, rfl, kept, (List.append_nil _).symm⟩

theorem foldl_recordClarification_plan (questions : List String) (r : ResearchResult) :
    (questions.foldl (fun r q => r.recordClarification q "(awaiting human input)") r).plan = r.plan := by
  induction questions generalizing r with
  | nil => rfl
  | cons question rest ih => exact ih _

variable (roles : PlanKeepingRoles) (request : ResearchRequest)

variable (s) in
theorem clarifyStage_effect (ready : σ) :
    Effect (clarifyStage roles.toDeepResearchRoles request ready) s false ready s.result.plan [.clarify] ∨
      Effect (clarifyStage roles.toDeepResearchRoles request ready) s true s.loop s.result.plan [.clarify] := by
  obtain ⟨answer, r', ran, kept⟩ := roles.clarifies request s.result
  cases answer with
  | ready => exact .inl (.call ran (goesOn_effect kept ready _))
  | needAnswers questions =>
    exact .inr (.call ran ⟨⟨_, rfl, rfl⟩, rfl, (foldl_recordClarification_plan questions r').trans kept,
      (List.append_nil _).symm⟩)

variable (s) in
theorem planStage_effect (planned : σ) :
    ∃ plan, Effect (planStage roles.toDeepResearchRoles request planned) s false planned (some plan) [.plan] := by
  obtain ⟨plan, r', ran, -⟩ := roles.plans request s.result
  exact ⟨plan, .call ran ⟨⟨_, rfl, rfl⟩, rfl, rfl, (List.append_nil _).symm⟩⟩

variable (s) in
theorem writeStage_effect (wrote : σ) :
    Effect (writeStage roles.toDeepResearchRoles request wrote) s false wrote s.result.plan
      [.write (s.result.plan.getD .new)] := by
  obtain ⟨answer, r', ran, kept⟩ := roles.writes (s.result.plan.getD .new) request s.result
  exact .snapshot (.call ran (goesOn_effect kept wrote _))

variable (s) in
theorem verifyStage_effect (verified : σ) :
    Effect (verifyStage roles.toDeepResearchRoles request verified) s false verified s.result.plan [.verify] := by
  obtain ⟨answer, r', ran, kept⟩ := roles.verifies request s.result
  exact .call ran (goesOn_effect kept verified _)

def subsOf (plan : Option Plan) : List SubQuestion := (plan.getD .new).subQuestions

theorem researchStage_next {idx : Nat} {sub : SubQuestion} (next : (subsOf s.result.plan)[idx]? = some sub)
    (finished : σ) (label : String) (researched : σ) :
    Effect (researchStage roles.toDeepResearchRoles request idx finished label researched) s false researched
      s.result.plan [.research sub] := by
  obtain ⟨answer, r', ran, kept⟩ := roles.researches sub request s.result
  refine .snapshot ?_
  rw [subsOf] at next
  rw [next]
  exact .call ran (goesOn_effect kept researched _)

theorem researchStage_end {idx : Nat} (none_ : (subsOf s.result.plan)[idx]? = none) (finished : σ)
    (label : String) (researched : σ) :
    Effect (researchStage roles.toDeepResearchRoles request idx finished label researched) s false finished
      s.result.plan [] := by
  refine .snapshot ?_
  rw [subsOf] at none_
  rw [none_]
  exact goesOn_effect rfl finished label

end Effects

section Runs

variable {σ : Type} (step : DeepResearchRoles → ResearchRequest → StepM σ DeepResearchStepOutcome)
  (roles : Nat → PlanKeepingRoles) (request : ResearchRequest) (start : Stepping σ)

def reached : Nat → Stepping σ
  | 0 => start
  | n + 1 => ((step (roles n).toDeepResearchRoles request).run.run (reached n)).2

def EndsAt (n : Nat) : Prop :=
  ∃ label, ((step (roles n).toDeepResearchRoles request).run.run (reached step roles request start n)).1 =
    .ok (.done label)

-- What a strategy can do at a stage: whether it is the end, and what it leaves of where it stood.
abbrev Moves (σ : Type) := σ → Option Plan → Bool → σ → Option Plan → List RoleCall → Prop

def Steps (moves : Moves σ) : Prop :=
  ∀ (roles : PlanKeepingRoles) s, ∃ last loop plan calls, moves s.loop s.result.plan last loop plan calls ∧
    Effect (step roles.toDeepResearchRoles request) s last loop plan calls

theorem moved {moves : Moves σ} {m : StepM σ DeepResearchStepOutcome} {s : Stepping σ} {last : Bool} {loop : σ}
    {plan : Option Plan} {calls : List RoleCall} (move : moves s.loop s.result.plan last loop plan calls)
    (effect : Effect m s last loop plan calls) :
    ∃ last loop plan calls, moves s.loop s.result.plan last loop plan calls ∧ Effect m s last loop plan calls :=
  ⟨last, loop, plan, calls, move, effect⟩

variable {step} {request} {moves : Moves σ}

theorem reached_succ (steps : Steps step request moves) (n : Nat) :
    ∃ last calls, moves (reached step roles request start n).loop (reached step roles request start n).result.plan
        last (reached step roles request start (n + 1)).loop
        (reached step roles request start (n + 1)).result.plan calls ∧
      (reached step roles request start (n + 1)).calls = (reached step roles request start n).calls ++ calls ∧
      (last = true ↔ EndsAt step roles request start n) := by
  obtain ⟨last, loop, plan, calls, move, effect⟩ := steps (roles n) (reached step roles request start n)
  refine ⟨last, calls, ?_, effect.calls, ?_⟩
  · rw [reached, effect.loop, effect.plan]
    exact move
  · obtain ⟨outcome, ran, isLast⟩ := effect.outcome
    rw [EndsAt, ran, ← isLast]
    cases outcome with
    | done label => exact iff_of_true rfl ⟨label, rfl⟩
    | «continue» label => exact iff_of_false Bool.false_ne_true (by rintro ⟨_, ⟨⟩⟩)

theorem reached_invariant (steps : Steps step request moves) (invariant : σ → Option Plan → List RoleCall → Prop)
    (first : invariant start.loop start.result.plan start.calls)
    (kept : ∀ {s plan log last loop plan' calls}, invariant s plan log → moves s plan last loop plan' calls →
      invariant loop plan' (log ++ calls)) (n : Nat) :
    invariant (reached step roles request start n).loop (reached step roles request start n).result.plan
      (reached step roles request start n).calls := by
  induction n with
  | zero => exact first
  | succ n ih =>
    obtain ⟨last, calls, move, log, -⟩ := reached_succ roles start steps n
    rw [log]
    exact kept ih move

theorem reached_ends (steps : Steps step request moves) (invariant : σ → Option Plan → List RoleCall → Prop)
    (holds : ∀ n, invariant (reached step roles request start n).loop
      (reached step roles request start n).result.plan (reached step roles request start n).calls)
    (measure : σ → Option Plan → Nat ×ₗ Nat)
    (falls : ∀ {s plan log last loop plan' calls}, invariant s plan log → moves s plan last loop plan' calls →
      last = true ∨ measure loop plan' < measure s plan) : ∃ n, EndsAt step roles request start n := by
  let rank (n : Nat) : Nat ×ₗ Nat :=
    measure (reached step roles request start n).loop (reached step roles request start n).result.plan
  obtain ⟨n, stays⟩ := WellFounded.not_rel_apply_succ (r := (· < ·)) rank
  obtain ⟨last, calls, move, -, ends⟩ := reached_succ roles start steps n
  exact ⟨n, ends.mp ((falls (holds n) move).resolve_right stays)⟩

end Runs

def RoleCall.isAside : RoleCall → Bool
  | .plan | .research _ => false
  | .clarify | .researchAll _ | .write _ | .critique | .verify => true

def planCalls (calls : List RoleCall) : Nat := calls.countP (· matches .plan)

def researchedSince (calls : List RoleCall) : List SubQuestion :=
  calls.foldl (fun subs call =>
    match call with
    | .plan => []
    | .research sub => subs ++ [sub]
    | _ => subs) []

section Logs

variable (log : List RoleCall)

theorem researchedSince_concat (call : RoleCall) : researchedSince (log ++ [call]) =
    match call with
    | .plan => []
    | .research sub => researchedSince log ++ [sub]
    | _ => researchedSince log := by
  rw [researchedSince, List.foldl_append]
  rfl

theorem planCalls_concat (call : RoleCall) :
    planCalls (log ++ [call]) = planCalls log + if call matches .plan then 1 else 0 := by
  rw [planCalls, planCalls, List.countP_append, List.countP_singleton]

theorem planCalls_aside {call : RoleCall} (aside : call.isAside) : planCalls (log ++ [call]) = planCalls log := by
  rw [planCalls_concat]
  cases call with
  | plan => cases aside
  | clarify | research | researchAll | write | critique | verify => rfl

theorem researchedSince_aside {call : RoleCall} (aside : call.isAside) :
    researchedSince (log ++ [call]) = researchedSince log := by
  rw [researchedSince_concat]
  cases call with
  | plan | research => cases aside
  | clarify | researchAll | write | critique | verify => rfl

end Logs

namespace PlanAndExecuteLoop

variable (request : ResearchRequest)

inductive Move (s : LoopState) (plan : Option Plan) : Bool → LoopState → Option Plan → List RoleCall → Prop
  | clarified : s.stage = .clarify → Move s plan false { s with stage := .plan } plan [.clarify]
  | awaiting : s.stage = .clarify → Move s plan true s plan [.clarify]
  | planned (new : Plan) : s.stage = .plan →
      Move s plan false { s with nextIdx := 0, stage := .execute } (some new) [.plan]
  | researched (sub : SubQuestion) : s.stage = .execute → (subsOf plan)[s.nextIdx]? = some sub →
      Move s plan false { s with stage := .stepCritique } plan [.research sub]
  | executed : s.stage = .execute → Move s plan false { s with stage := .write } plan []
  | replanning : s.stage = .stepCritique → s.rounds < request.depth →
      Move s plan false { rounds := s.rounds + 1, nextIdx := 0, stage := .plan } plan [.critique]
  | critiqued : s.stage = .stepCritique →
      Move s plan false { s with nextIdx := s.nextIdx + 1, stage := .execute } plan [.critique]
  | wrote : s.stage = .write → Move s plan false { s with stage := .verify } plan [.write (plan.getD .new)]
  | verified : s.stage = .verify → Move s plan false { s with stage := .done } plan [.verify]
  | done : s.stage = .done → Move s plan true s plan []

theorem steps : Steps step request (Move request) := by
  intro roles s
  obtain ⟨⟨stage, nextIdx, rounds⟩, result, log⟩ := s
  cases stage with
  | clarify =>
    rcases clarifyStage_effect { loop := ⟨.clarify, nextIdx, rounds⟩, result, calls := log } roles request
      (⟨.plan, nextIdx, rounds⟩ : LoopState) with ready | asks
    · exact moved (.clarified rfl) (.getLoop ready)
    · exact moved (.awaiting rfl) (.getLoop asks)
  | plan =>
    obtain ⟨plan, effect⟩ := planStage_effect { loop := ⟨.plan, nextIdx, rounds⟩, result, calls := log } roles
      request (⟨.execute, 0, rounds⟩ : LoopState)
    exact moved (.planned plan rfl) (.getLoop effect)
  | execute =>
    cases next : (subsOf result.plan)[nextIdx]? with
    | none => exact moved (.executed rfl) (.getLoop (researchStage_end roles request next _ _ _))
    | some sub => exact moved (.researched sub rfl next) (.getLoop (researchStage_next roles request next _ _ _))
  | stepCritique =>
    obtain ⟨outcome, r', ran, kept⟩ := roles.criticizes request result
    by_cases again : !outcome.done ∧ outcome.gaps ≠ [] ∧ rounds < request.depth
    · refine moved (.replanning rfl again.2.2) (.getLoop (.call ran ?_))
      rw [if_pos again]
      exact goesOn_effect kept _ _
    · refine moved (.critiqued rfl) (.getLoop (.call ran ?_))
      rw [if_neg again]
      exact goesOn_effect kept _ _
  | write => exact moved (.wrote rfl) (.getLoop (writeStage_effect _ roles request _))
  | verify => exact moved (.verified rfl) (.getLoop (verifyStage_effect _ roles request _))
  | done => exact moved (.done rfl) ⟨⟨_, rfl, rfl⟩, rfl, rfl, (List.append_nil _).symm⟩

structure Invariant (s : LoopState) (plan : Option Plan) (log : List RoleCall) : Prop where
  rounds : s.rounds ≤ request.depth
  plans : planCalls log + (if s.stage = .clarify ∨ s.stage = .plan then 1 else 0) = s.rounds + 1
  researched : ∃ k ≤ (subsOf plan).length, researchedSince log = (subsOf plan).take k ∧
    (s.stage = .execute → k = s.nextIdx) ∧ (s.stage = .stepCritique → k = s.nextIdx + 1)

variable {request} {s loop : LoopState} {plan plan' : Option Plan} {log calls : List RoleCall} {last : Bool}

theorem Invariant.aside (invariant : Invariant request s plan log) {call : RoleCall} (aside : call.isAside) :
    Invariant request s plan (log ++ [call]) := by
  obtain ⟨rounds, plans, k, within, researched, executing, criticizing⟩ := invariant
  refine ⟨rounds, ?_, k, within, ?_, executing, criticizing⟩
  · rw [planCalls_aside log aside]
    exact plans
  · rw [researchedSince_aside log aside]
    exact researched

theorem Invariant.toStage {stage stage' : Stage} {nextIdx rounds : Nat}
    (invariant : Invariant request ⟨stage, nextIdx, rounds⟩ plan log)
    (same : stage' = .clarify ∨ stage' = .plan ↔ stage = .clarify ∨ stage = .plan) (executes : stage' ≠ .execute)
    (criticizes : stage' ≠ .stepCritique) : Invariant request ⟨stage', nextIdx, rounds⟩ plan log := by
  obtain ⟨rounds, plans, k, within, researched, -, -⟩ := invariant
  refine ⟨rounds, ?_, k, within, researched, fun at_ => absurd at_ executes, fun at_ => absurd at_ criticizes⟩
  rw [if_congr same rfl rfl]
  exact plans

theorem Invariant.move (invariant : Invariant request s plan log) (move : Move request s plan last loop plan' calls) :
    Invariant request loop plan' (log ++ calls) := by
  obtain ⟨stage, nextIdx, round⟩ := s
  cases move with
  | clarified at_ =>
    cases at_
    exact (invariant.aside rfl).toStage (by decide) nofun nofun
  | awaiting at_ => exact invariant.aside rfl
  | planned new at_ =>
    cases at_
    refine ⟨invariant.rounds, ?_, 0, Nat.zero_le _, ?_, fun _ => rfl, nofun⟩
    · rw [planCalls_concat]
      exact invariant.plans
    · rw [researchedSince_concat]
      rfl
  | researched sub at_ next =>
    cases at_
    obtain ⟨rounds, plans, k, -, researched, executing, -⟩ := invariant
    obtain rfl := executing rfl
    refine ⟨rounds, ?_, k + 1, (List.getElem?_eq_some_iff.mp next).1, ?_, nofun, fun _ => rfl⟩
    · rw [planCalls_concat]
      exact plans
    · rw [researchedSince_concat, List.take_add_one, next, researched]
      rfl
  | executed at_ =>
    cases at_
    rw [List.append_nil]
    exact invariant.toStage (by decide) nofun nofun
  | replanning at_ room =>
    cases at_
    have criticized : RoleCall.critique.isAside := rfl
    obtain ⟨-, plans, k, within, researched, -, -⟩ := invariant.aside criticized
    exact ⟨room, congrArg (· + 1) plans, k, within, researched, nofun, nofun⟩
  | critiqued at_ =>
    cases at_
    have criticized : RoleCall.critique.isAside := rfl
    obtain ⟨rounds, plans, k, within, researched, -, criticizing⟩ := invariant.aside criticized
    exact ⟨rounds, plans, k, within, researched, fun _ => criticizing rfl, nofun⟩
  | wrote at_ | verified at_ =>
    cases at_
    exact (invariant.aside rfl).toStage (by decide) nofun nofun
  | done at_ =>
    rw [List.append_nil]
    exact invariant

variable (request) in
-- The rounds that are left with the stages before the plan, and then what is left of the plan.
def measure (s : LoopState) (plan : Option Plan) : Nat ×ₗ Nat :=
  let left := (subsOf plan).length - s.nextIdx
  toLex <|
    match s.stage with
    | .clarify => (2 * (request.depth - s.rounds) + 2, 0)
    | .plan => (2 * (request.depth - s.rounds) + 1, 0)
    | .execute => (2 * (request.depth - s.rounds), 2 * left + 4)
    | .stepCritique => (2 * (request.depth - s.rounds), 2 * left + 3)
    | .write => (2 * (request.depth - s.rounds), 2)
    | .verify => (2 * (request.depth - s.rounds), 1)
    | .done => (2 * (request.depth - s.rounds), 0)

variable (request) in
theorem measure_falls (invariant : Invariant request s plan log)
    (move : Move request s plan last loop plan' calls) :
    last = true ∨ measure request loop plan' < measure request s plan := by
  obtain ⟨-, -, k, within, -, -, criticizing⟩ := invariant
  obtain ⟨stage, nextIdx, round⟩ := s
  cases move with
  | awaiting at_ => exact .inl rfl
  | done at_ => exact .inl rfl
  | clarified at_ | planned new at_ =>
    cases at_
    exact .inr (Prod.Lex.toLex_lt_toLex.mpr (.inl (Nat.lt_succ_self _)))
  | replanning at_ room =>
    cases at_
    refine .inr (Prod.Lex.toLex_lt_toLex.mpr (.inl ?_))
    dsimp only at room ⊢
    omega
  | critiqued at_ =>
    cases at_
    obtain rfl := criticizing rfl
    refine .inr (Prod.Lex.toLex_lt_toLex.mpr (.inr ⟨rfl, ?_⟩))
    dsimp only at within ⊢
    omega
  | researched sub at_ next =>
    cases at_
    exact .inr (Prod.Lex.toLex_lt_toLex.mpr (.inr ⟨rfl, Nat.lt_succ_self _⟩))
  | executed at_ =>
    cases at_
    refine .inr (Prod.Lex.toLex_lt_toLex.mpr (.inr ⟨rfl, ?_⟩))
    dsimp only
    omega
  | wrote at_ | verified at_ =>
    cases at_
    exact .inr (Prod.Lex.toLex_lt_toLex.mpr (.inr ⟨rfl, Nat.lt_succ_self _⟩))

section Bounds

variable (roles : Nat → PlanKeepingRoles) (request : ResearchRequest) (start : Stepping LoopState)

structure Bounds : Prop where
  ends : ∃ n, EndsAt step roles request start n
  plans : ∀ n, planCalls (reached step roles request start n).calls ≤ request.depth + 1
  -- From one planning to the next, the plan is gone through from its first sub-question on.
  once : ∀ n, ∃ k ≤ (subsOf (reached step roles request start n).result.plan).length,
    researchedSince (reached step roles request start n).calls =
      (subsOf (reached step roles request start n).result.plan).take k

variable {request}

theorem bounds (first : Invariant request start.loop start.result.plan start.calls) :
    Bounds roles request start := by
  have holds := reached_invariant roles start (steps request) (Invariant request) first Invariant.move
  refine ⟨?_, fun n => ?_, fun n => ?_⟩
  · exact reached_ends roles start (steps request) (Invariant request) holds (measure request)
      fun invariant move => measure_falls request invariant move
  · have plans := (holds n).plans
    have rounds := (holds n).rounds
    omega
  · obtain ⟨k, within, researched, -⟩ := (holds n).researched
    exact ⟨k, within, researched⟩

end Bounds

end PlanAndExecuteLoop

theorem appendGaps_subs (r : ResearchResult) (gaps : List String) :
    ∃ more, subsOf (appendGaps r gaps).plan = subsOf r.plan ++ more ∧ more.length = gaps.length := by
  rw [appendGaps]
  generalize (r.plan.map fun p => p.subQuestions.length).getD 0 + 1 = number
  induction gaps generalizing r number with
  | nil => exact ⟨[], (List.append_nil _).symm, rfl⟩
  | cons gap rest ih =>
    rw [List.zipIdx_cons, List.foldl_cons]
    obtain ⟨more, subs, length⟩ := ih (r.appendSubQuestion {
      id := "sq-" ++ toString number
      text := "Resolve gap: " ++ gap
      rationale := none
      «section» := some "Findings"
      status := .pending }) (number + 1)
    exact ⟨_ :: more, subs.trans (List.append_assoc _ [_] _), congrArg (· + 1) length⟩

def researchedSub : RoleCall → Option SubQuestion
  | .research sub => some sub
  | _ => none

namespace IterativeDeepeningLoop

variable (request : ResearchRequest)

inductive Move (s : LoopState) (plan : Option Plan) : Bool → LoopState → Option Plan → List RoleCall → Prop
  | clarified : s.stage = .clarify → Move s plan false { s with stage := .plan } plan [.clarify]
  | awaiting : s.stage = .clarify → Move s plan true s plan [.clarify]
  | planned (new : Plan) : s.stage = .plan → Move s plan false { s with stage := .supervisor } (some new) [.plan]
  | supervised : s.stage = .supervisor → (subsOf plan).length ≤ s.nextIdx ∨ request.depth ≤ s.rounds →
      Move s plan false { s with stage := .write } plan [.critique]
  | refining (grown : Option Plan) (more : List SubQuestion) : s.stage = .supervisor → s.rounds < request.depth →
      subsOf grown = subsOf plan ++ more → more.length ≤ max request.breadth 1 →
      Move s plan false { s with rounds := s.rounds + 1, stage := .research } grown [.critique]
  | researched (sub : SubQuestion) : s.stage = .research → (subsOf plan)[s.nextIdx]? = some sub →
      Move s plan false { s with nextIdx := s.nextIdx + 1 } plan [.research sub]
  | caughtUp : s.stage = .research → (subsOf plan).length ≤ s.nextIdx →
      Move s plan false { s with stage := .supervisor } plan []
  | wrote : s.stage = .write → Move s plan false { s with stage := .verify } plan [.write (plan.getD .new)]
  | verified : s.stage = .verify → Move s plan false { s with stage := .done } plan [.verify]
  | done : s.stage = .done → Move s plan true s plan []

theorem steps : Steps step request (Move request) := by
  intro roles s
  obtain ⟨⟨stage, rounds, nextIdx⟩, result, log⟩ := s
  cases stage with
  | clarify =>
    rcases clarifyStage_effect { loop := ⟨.clarify, rounds, nextIdx⟩, result, calls := log } roles request
      (⟨.plan, rounds, nextIdx⟩ : LoopState) with ready | asks
    · exact moved (.clarified rfl) (.getLoop ready)
    · exact moved (.awaiting rfl) (.getLoop asks)
  | plan =>
    obtain ⟨plan, effect⟩ := planStage_effect { loop := ⟨.plan, rounds, nextIdx⟩, result, calls := log } roles
      request (⟨.supervisor, rounds, nextIdx⟩ : LoopState)
    exact moved (.planned plan rfl) (.getLoop effect)
  | supervisor =>
    obtain ⟨outcome, r', ran, kept⟩ := roles.criticizes request result
    by_cases enough : outcome.done ∧ (r'.plan.getD .new).subQuestions.length ≤ nextIdx
    · refine moved (.supervised rfl (.inl ?_)) (.getLoop (.call ran (.snapshot ?_)))
      · rw [← kept]
        exact enough.2
      · rw [if_pos enough]
        exact goesOn_effect kept _ _
    · by_cases cap : request.depth ≤ rounds
      · refine moved (.supervised rfl (.inr cap)) (.getLoop (.call ran (.snapshot ?_)))
        rw [if_neg enough, if_pos cap]
        exact goesOn_effect kept _ _
      · obtain ⟨more, subs, length⟩ := appendGaps_subs r' (outcome.gaps.take (max request.breadth 1))
        refine moved (.refining (appendGaps r' (outcome.gaps.take (max request.breadth 1))).plan more rfl
          (Nat.lt_of_not_le cap) (kept ▸ subs) ?_) (.getLoop (.call ran (.snapshot ?_)))
        · rw [length]
          exact List.length_take_le _ _
        · rw [if_neg enough, if_neg cap]
          exact ⟨⟨_, rfl, rfl⟩, rfl, rfl, (List.append_nil _).symm⟩
  | research =>
    cases next : (subsOf result.plan)[nextIdx]? with
    | none =>
      exact moved (.caughtUp rfl (List.getElem?_eq_none_iff.mp next))
        (.getLoop (researchStage_end roles request next _ _ _))
    | some sub => exact moved (.researched sub rfl next) (.getLoop (researchStage_next roles request next _ _ _))
  | write => exact moved (.wrote rfl) (.getLoop (writeStage_effect _ roles request _))
  | verify => exact moved (.verified rfl) (.getLoop (verifyStage_effect _ roles request _))
  | done => exact moved (.done rfl) ⟨⟨_, rfl, rfl⟩, rfl, rfl, (List.append_nil _).symm⟩

-- What was researched are the sub-questions before the cursor, and every round ends when there is none behind it.
structure Invariant (s : LoopState) (plan : Option Plan) (log : List RoleCall) : Prop where
  rounds : s.rounds ≤ request.depth
  researched : log.filterMap researchedSub = (subsOf plan).take s.nextIdx
  within : s.nextIdx ≤ (subsOf plan).length
  early : s.stage = .clarify ∨ s.stage = .plan → subsOf plan = [] ∧ s.rounds = 0
  between : s.stage = .supervisor → 0 < s.rounds → s.nextIdx = (subsOf plan).length
  deepened : s.stage = .write ∨ s.stage = .verify ∨ s.stage = .done → 0 < request.depth →
    s.nextIdx = (subsOf plan).length

variable {request} {s loop : LoopState} {plan plan' : Option Plan} {log calls : List RoleCall} {last : Bool}

theorem filterMap_concat (log : List RoleCall) {call : RoleCall} (other : researchedSub call = none) :
    (log ++ [call]).filterMap researchedSub = log.filterMap researchedSub := by
  rw [List.filterMap_append, List.filterMap_cons_none other, List.filterMap_nil, List.append_nil]

theorem Invariant.move (invariant : Invariant request s plan log) (move : Move request s plan last loop plan' calls) :
    Invariant request loop plan' (log ++ calls) := by
  obtain ⟨rounds, researched, within, early, between, deepened⟩ := invariant
  obtain ⟨stage, round, nextIdx⟩ := s
  cases move with
  | clarified at_ =>
    cases at_
    refine ⟨rounds, ?_, within, fun _ => early (.inl rfl), nofun, nofun⟩
    rw [filterMap_concat log rfl]
    exact researched
  | awaiting at_ =>
    cases at_
    refine ⟨rounds, ?_, within, fun _ => early (.inl rfl), nofun, nofun⟩
    rw [filterMap_concat log rfl]
    exact researched
  | planned new at_ =>
    cases at_
    obtain ⟨none_, first⟩ := early (.inr rfl)
    rw [none_] at within researched
    obtain rfl : nextIdx = 0 := Nat.le_zero.mp within
    refine ⟨rounds, ?_, Nat.zero_le _, nofun, fun _ again => ?_, nofun⟩
    · rw [filterMap_concat log rfl, researched]
      rfl
    · dsimp only at first again
      omega
  | supervised at_ stops =>
    cases at_
    refine ⟨rounds, ?_, within, nofun, nofun, fun _ deep => ?_⟩
    · rw [filterMap_concat log rfl]
      exact researched
    · rcases stops with past | cap
      · exact le_antisymm within past
      · exact between rfl (deep.trans_le cap)
  | refining grown more at_ room subs few =>
    cases at_
    refine ⟨room, ?_, ?_, nofun, nofun, nofun⟩
    · rw [filterMap_concat log rfl, subs, List.take_append_of_le_length within]
      exact researched
    · rw [subs, List.length_append]
      exact within.trans (Nat.le_add_right _ _)
  | researched sub at_ next =>
    cases at_
    refine ⟨rounds, ?_, (List.getElem?_eq_some_iff.mp next).1, nofun, nofun, nofun⟩
    rw [List.filterMap_append, researched, List.take_add_one, next]
    rfl
  | caughtUp at_ past =>
    cases at_
    rw [List.append_nil]
    exact ⟨rounds, researched, within, nofun, fun _ _ => le_antisymm within past, nofun⟩
  | wrote at_ =>
    cases at_
    refine ⟨rounds, ?_, within, nofun, nofun, fun _ => deepened (.inl rfl)⟩
    rw [filterMap_concat log rfl]
    exact researched
  | verified at_ =>
    cases at_
    refine ⟨rounds, ?_, within, nofun, nofun, fun _ => deepened (.inr (.inl rfl))⟩
    rw [filterMap_concat log rfl]
    exact researched
  | done at_ =>
    cases at_
    rw [List.append_nil]
    exact ⟨rounds, researched, within, nofun, nofun, fun _ => deepened (.inr (.inr rfl))⟩

variable (request) in
-- The rounds that are left, and then what is left of the round and the stages after it.
def measure (s : LoopState) (plan : Option Plan) : Nat ×ₗ Nat :=
  let left := (subsOf plan).length - s.nextIdx
  toLex (request.depth - s.rounds,
    match s.stage with
    | .clarify => 6
    | .plan => 5
    | .supervisor => 4
    | .research => left + 5
    | .write => 3
    | .verify => 2
    | .done => 1)

variable (request) in
theorem measure_falls (move : Move request s plan last loop plan' calls) :
    last = true ∨ measure request loop plan' < measure request s plan := by
  obtain ⟨stage, round, nextIdx⟩ := s
  cases move with
  | awaiting at_ => exact .inl rfl
  | done at_ => exact .inl rfl
  | refining grown more at_ room subs few =>
    refine .inr (Prod.Lex.toLex_lt_toLex.mpr (.inl ?_))
    dsimp only at room ⊢
    omega
  | researched sub at_ next =>
    cases at_
    have inside := (List.getElem?_eq_some_iff.mp next).1
    refine .inr (Prod.Lex.toLex_lt_toLex.mpr (.inr ⟨rfl, ?_⟩))
    dsimp only at inside ⊢
    omega
  | caughtUp at_ past =>
    cases at_
    refine .inr (Prod.Lex.toLex_lt_toLex.mpr (.inr ⟨rfl, ?_⟩))
    dsimp only
    omega
  | clarified at_ | planned new at_ | supervised at_ stops | wrote at_ | verified at_ =>
    cases at_
    exact .inr (Prod.Lex.toLex_lt_toLex.mpr (.inr ⟨rfl, Nat.lt_succ_self _⟩))

theorem Move.rounds (move : Move request s plan last loop plan' calls) :
    loop.rounds = s.rounds + if s.stage = .supervisor ∧ loop.stage = .research then 1 else 0 := by
  obtain ⟨stage, round, nextIdx⟩ := s
  cases move with
  | refining grown more at_ room subs few =>
    cases at_
    rfl
  | clarified at_ | awaiting at_ | planned new at_ | supervised at_ stops | researched sub at_ next
  | caughtUp at_ past | wrote at_ | verified at_ | done at_ =>
    cases at_
    rfl

theorem Move.appends (move : Move request s plan last loop plan' calls) (unplanned : s.stage ≠ .plan) :
    ∃ more, subsOf plan' = subsOf plan ++ more ∧
      more.length ≤ if s.stage = .supervisor ∧ loop.stage = .research then max request.breadth 1 else 0 := by
  cases move with
  | refining grown more at_ room subs few => exact ⟨more, subs, by rw [if_pos ⟨at_, rfl⟩]; exact few⟩
  | planned new at_ => exact absurd at_ unplanned
  | clarified | awaiting | supervised | researched | caughtUp | wrote | verified | done =>
    exact ⟨[], (List.append_nil _).symm, Nat.zero_le _⟩

theorem Move.ended (move : Move request s plan last loop plan' calls) (isLast : last = true)
    (invariant : Invariant request s plan log) (deep : 0 < request.depth) :
    loop.nextIdx = (subsOf plan').length := by
  cases move with
  | awaiting at_ =>
    have none_ := (invariant.early (.inl at_)).1
    have within := invariant.within
    rw [none_] at within ⊢
    exact Nat.le_zero.mp within
  | done at_ => exact invariant.deepened (.inr (.inr at_)) deep
  | clarified | planned | supervised | refining | researched | caughtUp | wrote | verified => cases isLast

section Rounds

variable (roles : Nat → PlanKeepingRoles) (request : ResearchRequest) (start : Stepping LoopState)

def stageAt (n : Nat) : Stage := (reached step roles request start n).loop.stage

def subsAt (n : Nat) : List SubQuestion := subsOf (reached step roles request start n).result.plan

def beginsRound (n : Nat) : Bool :=
  stageAt roles request start n = .supervisor ∧ stageAt roles request start (n + 1) = .research

def researchRounds (n : Nat) : Nat := (List.range n).countP (beginsRound roles request start)

structure Bounds : Prop where
  ends : ∃ n, EndsAt step roles request start n
  rounds : ∀ n, researchRounds roles request start n ≤ request.depth
  appends : ∀ n, stageAt roles request start n ≠ .plan →
    ∃ more, subsAt roles request start (n + 1) = subsAt roles request start n ++ more ∧
      more.length ≤ if beginsRound roles request start n then max request.breadth 1 else 0
  researched : 0 < request.depth → ∀ n, EndsAt step roles request start n →
    (reached step roles request start (n + 1)).calls.filterMap researchedSub = subsAt roles request start (n + 1)

variable {request}

theorem rounds_step (n : Nat) : (reached step roles request start (n + 1)).loop.rounds =
    (reached step roles request start n).loop.rounds + if beginsRound roles request start n then 1 else 0 := by
  obtain ⟨last, calls, move, -⟩ := reached_succ roles start (steps request) n
  rw [move.rounds, beginsRound, stageAt, stageAt]
  simp only [decide_eq_true_eq]

theorem researchRounds_eq (unstarted : start.loop.rounds = 0) (n : Nat) :
    researchRounds roles request start n = (reached step roles request start n).loop.rounds := by
  induction n with
  | zero => exact unstarted.symm
  | succ n ih =>
    rw [rounds_step, ← ih, researchRounds, researchRounds, List.range_succ, List.countP_append,
      List.countP_singleton]

theorem bounds (first : Invariant request start.loop start.result.plan start.calls)
    (unstarted : start.loop.rounds = 0) : Bounds roles request start := by
  have holds := reached_invariant roles start (steps request) (Invariant request) first Invariant.move
  refine ⟨?_, fun n => ?_, fun n unplanned => ?_, fun deep n ends => ?_⟩
  · exact reached_ends roles start (steps request) (Invariant request) holds (measure request)
      fun _ move => measure_falls request move
  · rw [researchRounds_eq roles start unstarted]
    exact (holds n).rounds
  · obtain ⟨last, calls, move, -⟩ := reached_succ roles start (steps request) n
    obtain ⟨more, subs, few⟩ := move.appends unplanned
    refine ⟨more, subs, ?_⟩
    rw [beginsRound, stageAt, stageAt]
    simp only [decide_eq_true_eq]
    exact few
  · obtain ⟨last, calls, move, -, isLast⟩ := reached_succ roles start (steps request) n
    have all := move.ended (isLast.mpr ends) (holds n) deep
    rw [(holds (n + 1)).researched, subsAt, all, List.take_length]

end Rounds

end IterativeDeepeningLoop

def firstStepping (spec : DeepResearchHarnessSpec) (run : ResearchRun) (strategy : DeepResearchLoopStrategy) :
    Stepping strategy.Loop :=
  (startLooping spec run (.new strategy)).stepping

/-- Whatever roles succeed and leave the plan alone, both strategies come to their end within the depth, and
research what was planned in its order. -/
theorem research_strategies_end (spec : DeepResearchHarnessSpec) (run : ResearchRun)
    (roles : Nat → PlanKeepingRoles) :
    PlanAndExecuteLoop.Bounds roles run.request (firstStepping spec run PlanAndExecuteLoop.strategy) ∧
      IterativeDeepeningLoop.Bounds roles run.request (firstStepping spec run IterativeDeepeningLoop.strategy) := by
  constructor
  · exact PlanAndExecuteLoop.bounds roles _ ⟨Nat.zero_le _, rfl, 0, Nat.zero_le _, rfl, nofun, nofun⟩
  · exact IterativeDeepeningLoop.bounds roles _
      ⟨Nat.zero_le _, rfl, Nat.zero_le _, fun _ => ⟨rfl, rfl⟩, nofun, nofun⟩ rfl

def firstQuestion : SubQuestion where
  id := "sq-1"
  text := "What is known?"
  rationale := none
  «section» := none
  status := .pending

-- One question is planned, and the critic always misses something.
def gapRoles : PlanKeepingRoles where
  clarifier _ r := (.ok .ready, r)
  planner _ r := (.ok { Plan.new with subQuestions := [firstQuestion] }, r)
  researcher _ _ r := (.ok (), r)
  researchAll _ _ r := (.ok (), r)
  writer _ _ r := (.ok (), r)
  critic _ r := (.ok { summary := "", gaps := ["What is missing?"], done := false }, r)
  verifier _ r := (.ok (), r)
  clarifies _ r := ⟨_, r, rfl, rfl⟩
  plans _ r := ⟨_, r, rfl, rfl⟩
  researches _ _ r := ⟨_, r, rfl, rfl⟩
  writes _ _ r := ⟨_, r, rfl, rfl⟩
  criticizes _ r := ⟨_, r, rfl, rfl⟩
  verifies _ r := ⟨_, r, rfl, rfl⟩

def gapRun : ResearchRun where
  request := .new "q"
  cancelled _ := false
  cancelledAfter := false
  stored _ := .ok ()

def gapSpec : DeepResearchHarnessSpec := { modelId := none, initialBudget := 100 }

theorem research_strategies_end_gaps :
    (∃ n, EndsAt PlanAndExecuteLoop.step (fun _ => gapRoles) gapRun.request
        (firstStepping gapSpec gapRun PlanAndExecuteLoop.strategy) n) ∧
      ((reached IterativeDeepeningLoop.step (fun _ => gapRoles) gapRun.request
        (firstStepping gapSpec gapRun IterativeDeepeningLoop.strategy) 13).calls.filterMap researchedSub).map
          SubQuestion.text =
        ["What is known?", "Resolve gap: What is missing?", "Resolve gap: What is missing?"] := by
  obtain ⟨planned, deepened⟩ := research_strategies_end gapSpec gapRun fun _ => gapRoles
  refine ⟨planned.ends, ?_⟩
  rw [deepened.researched (by decide) 12 ⟨_, rfl⟩]
  rfl

end AtomrAgents.DeepResearch
