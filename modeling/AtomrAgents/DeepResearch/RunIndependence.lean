import AtomrAgents.DeepResearch.Strategies
import AtomrAgents.Shared.Loop

set_option autoImplicit false

/-! A strategy that has left its first stage never asks the clarifier again, so a run that gets past the
clarifier leaves the harness in a state in which no later run does what it would do on a new one. -/

namespace AtomrAgents.DeepResearch

open Shared

section Keeps

variable {σ α β : Type} {P : σ → Prop}

def Keeps (P : σ → Prop) (m : StepM σ α) : Prop :=
  ∀ s, P s.loop → P (m.run.run s).2.loop ∧ Appends (· ≠ RoleCall.clarify) s.calls (m.run.run s).2.calls

theorem bind_run (m : StepM σ α) (f : α → StepM σ β) (s : Stepping σ) :
    (m >>= f).run.run s =
      match m.run.run s with
      | (.error e, s') => (.error e, s')
      | (.ok a, s') => (f a).run.run s' := by
  change (ExceptT.bindCont f (m.run.run s).1).run (m.run.run s).2 = _
  rcases m.run.run s with ⟨_ | a, s'⟩ <;> rfl

theorem Keeps.bind {m : StepM σ α} {f : α → StepM σ β} (first : Keeps P m) (after : ∀ a, Keeps P (f a)) :
    Keeps P (m >>= f) := by
  intro s holds
  rw [bind_run]
  have kept := first s holds
  cases ran : m.run.run s with
  | mk answer s' =>
    rw [ran] at kept
    cases answer with
    | error e => exact kept
    | ok a =>
      obtain ⟨holds', more⟩ := after a s' kept.1
      exact ⟨holds', kept.2.trans more⟩

theorem Keeps.pure (a : α) : Keeps P (Pure.pure a : StepM σ α) := fun _ holds => ⟨holds, .refl _ _⟩

theorem Keeps.getLoop {f : σ → StepM σ β} (after : ∀ loop, P loop → Keeps P (f loop)) :
    Keeps P (DeepResearch.getLoop >>= f) := by
  intro s holds
  rw [bind_run]
  exact after s.loop holds s holds

theorem Keeps.callRole {call : RoleCall} (role : ResearchResult → RoleAnswer α) (other : call ≠ .clarify) :
    Keeps P (DeepResearch.callRole call role : StepM σ α) := by
  intro s holds
  refine ⟨holds, [call], rfl, fun entry member => ?_⟩
  rw [List.mem_singleton.mp member]
  exact other

theorem Keeps.setLoop {loop : σ} (holds : P loop) : Keeps P (DeepResearch.setLoop loop) :=
  fun _ _ => ⟨holds, .refl _ _⟩

theorem Keeps.onHandle (change : ResearchResult → ResearchResult) :
    Keeps P (DeepResearch.onHandle change : StepM σ Unit) := fun _ holds => ⟨holds, .refl _ _⟩

theorem Keeps.snapshotPlan : Keeps P (DeepResearch.snapshotPlan : StepM σ Plan) :=
  fun _ holds => ⟨holds, .refl _ _⟩

theorem Keeps.goesOn {m : StepM σ α} {loop : σ} {answer : β} (first : Keeps P m) (holds : P loop) :
    Keeps P (do let _ ← m; DeepResearch.setLoop loop; return answer) :=
  first.bind fun _ => (Keeps.setLoop holds).bind fun _ => .pure answer

variable {roles : DeepResearchRoles} {request : ResearchRequest} {loop : σ}

theorem planStage_keeps (holds : P loop) : Keeps P (planStage roles request loop) :=
  (Keeps.callRole _ (by simp)).bind fun _ => (Keeps.onHandle _).goesOn holds

theorem writeStage_keeps (holds : P loop) : Keeps P (writeStage roles request loop) :=
  Keeps.snapshotPlan.bind fun _ => (Keeps.callRole _ (by simp)).goesOn holds

theorem verifyStage_keeps (holds : P loop) : Keeps P (verifyStage roles request loop) :=
  (Keeps.callRole _ (by simp)).goesOn holds

theorem researchStage_keeps {idx : Nat} {label : String} {researched : σ} (finished : P loop)
    (goes : P researched) : Keeps P (researchStage roles request idx loop label researched) := by
  refine Keeps.snapshotPlan.bind fun plan => ?_
  cases plan.subQuestions[idx]? with
  | none => exact (Keeps.setLoop finished).bind fun _ => .pure _
  | some sub => exact (Keeps.callRole _ (by simp)).goesOn goes

end Keeps

-- A strategy that begins with the clarifier and never comes back to it.
structure Staged (strategy : DeepResearchLoopStrategy) (past : strategy.Loop → Prop) : Prop where
  new : ¬ past strategy.new
  first : ∃ ready, past ready ∧ ∀ (roles : DeepResearchRoles) (request : ResearchRequest) (result calls),
    (strategy.step roles request).run.run { loop := strategy.new, result, calls } =
      (clarifyStage roles request ready).run.run { loop := strategy.new, result, calls }
  later : ∀ (roles : DeepResearchRoles) (request : ResearchRequest), Keeps past (strategy.step roles request)

theorem multiAgentParallel_staged : Staged MultiAgentParallelLoop.strategy (· ≠ .clarify) where
  new := fun past => past rfl
  first := ⟨.plan, nofun, fun _ _ _ _ => rfl⟩
  later roles request := by
    refine Keeps.getLoop fun stage past => ?_
    cases stage with
    | clarify => exact absurd rfl past
    | plan => exact planStage_keeps nofun
    | fanOut => exact Keeps.snapshotPlan.bind fun _ => (Keeps.callRole _ (by simp)).goesOn nofun
    | write =>
      exact Keeps.snapshotPlan.bind fun _ => (Keeps.callRole _ (by simp)).bind fun _ =>
        (Keeps.callRole _ (by simp)).goesOn nofun
    | verify => exact verifyStage_keeps nofun
    | done => exact .pure _

theorem outlineFirst_staged : Staged OutlineFirstSectionFanoutLoop.strategy (· ≠ .clarify) where
  new := fun past => past rfl
  first := ⟨.plan, nofun, fun _ _ _ _ => rfl⟩
  later roles request := by
    refine Keeps.getLoop fun stage past => ?_
    cases stage with
    | clarify => exact absurd rfl past
    | plan => exact planStage_keeps nofun
    | fanOutBySection => exact Keeps.snapshotPlan.bind fun _ => (Keeps.callRole _ (by simp)).goesOn nofun
    | write => exact writeStage_keeps nofun
    | verify => exact verifyStage_keeps nofun
    | done => exact .pure _

theorem clarifyPlanSearchVerify_staged :
    Staged ClarifyPlanSearchVerifyLoop.strategy fun s => s.stage ≠ .clarify where
  new := fun past => past rfl
  first := ⟨{ stage := .plan, refinementRounds := 0, nextSubQuestionIdx := 0 }, nofun, fun _ _ _ _ => rfl⟩
  later roles request := by
    refine Keeps.getLoop fun s past => ?_
    obtain ⟨stage, rounds, idx⟩ := s
    cases stage with
    | clarify => exact absurd rfl past
    | plan => exact planStage_keeps nofun
    | research => exact researchStage_keeps nofun nofun
    | write => exact writeStage_keeps nofun
    | critique =>
      refine (Keeps.callRole _ (by simp)).bind fun outcome => ?_
      split
      · exact (Keeps.setLoop nofun).bind fun _ => .pure _
      · exact (Keeps.setLoop nofun).bind fun _ => (Keeps.onHandle _).bind fun _ => .pure _
    | verify => exact verifyStage_keeps nofun
    | done => exact .pure _

theorem iterativeDeepening_staged : Staged IterativeDeepeningLoop.strategy fun s => s.stage ≠ .clarify where
  new := fun past => past rfl
  first := ⟨{ stage := .plan, rounds := 0, nextIdx := 0 }, nofun, fun _ _ _ _ => rfl⟩
  later roles request := by
    refine Keeps.getLoop fun s past => ?_
    obtain ⟨stage, rounds, idx⟩ := s
    cases stage with
    | clarify => exact absurd rfl past
    | plan => exact planStage_keeps nofun
    | supervisor =>
      refine (Keeps.callRole _ (by simp)).bind fun outcome => Keeps.snapshotPlan.bind fun plan => ?_
      split
      · exact (Keeps.setLoop nofun).bind fun _ => .pure _
      · split
        · exact (Keeps.setLoop nofun).bind fun _ => .pure _
        · exact (Keeps.onHandle _).goesOn nofun
    | research => exact researchStage_keeps nofun nofun
    | write => exact writeStage_keeps nofun
    | verify => exact verifyStage_keeps nofun
    | done => exact .pure _

theorem linearWriteCritique_staged : Staged LinearWriteCritiqueLoop.strategy fun s => s.stage ≠ .clarify where
  new := fun past => past rfl
  first := ⟨{ stage := .plan, nextIdx := 0, rounds := 0 }, nofun, fun _ _ _ _ => rfl⟩
  later roles request := by
    refine Keeps.getLoop fun s past => ?_
    obtain ⟨stage, idx, rounds⟩ := s
    cases stage with
    | clarify => exact absurd rfl past
    | plan => exact planStage_keeps nofun
    | researchAll => exact researchStage_keeps nofun nofun
    | write => exact writeStage_keeps nofun
    | critique =>
      refine (Keeps.callRole _ (by simp)).bind fun outcome => ?_
      split <;> exact (Keeps.setLoop nofun).bind fun _ => .pure _
    | verify => exact verifyStage_keeps nofun
    | done => exact .pure _

theorem planAndExecute_staged : Staged PlanAndExecuteLoop.strategy fun s => s.stage ≠ .clarify where
  new := fun past => past rfl
  first := ⟨{ stage := .plan, nextIdx := 0, rounds := 0 }, nofun, fun _ _ _ _ => rfl⟩
  later roles request := by
    refine Keeps.getLoop fun s past => ?_
    obtain ⟨stage, idx, rounds⟩ := s
    cases stage with
    | clarify => exact absurd rfl past
    | plan => exact planStage_keeps nofun
    | execute => exact researchStage_keeps nofun nofun
    | stepCritique =>
      refine (Keeps.callRole _ (by simp)).bind fun outcome => ?_
      split <;> exact (Keeps.setLoop nofun).bind fun _ => .pure _
    | write => exact writeStage_keeps nofun
    | verify => exact verifyStage_keeps nofun
    | done => exact .pure _

theorem loopStrategies_staged (strategy : DeepResearchLoopStrategy) (member : strategy ∈ loopStrategies) :
    ∃ past, Staged strategy past := by
  simp only [loopStrategies, List.mem_cons, List.not_mem_nil, or_false] at member
  rcases member with rfl | rfl | rfl | rfl | rfl | rfl
  · exact ⟨_, multiAgentParallel_staged⟩
  · exact ⟨_, outlineFirst_staged⟩
  · exact ⟨_, clarifyPlanSearchVerify_staged⟩
  · exact ⟨_, iterativeDeepening_staged⟩
  · exact ⟨_, linearWriteCritique_staged⟩
  · exact ⟨_, planAndExecute_staged⟩

section Runs

variable {strategy : DeepResearchLoopStrategy} {spec : DeepResearchHarnessSpec} {roles : DeepResearchRoles}
  {termination : DeepResearchTermination} {run : ResearchRun} {past : strategy.Loop → Prop}
  {looping last : Looping strategy}

def Uncancelled (run : ResearchRun) : Prop := (∀ n, run.cancelled n = false) ∧ run.cancelledAfter = false

def Cancels (run : ResearchRun) : Prop :=
  run.stored 0 = .ok () ∧ run.cancelled 0 = true ∨ run.cancelledAfter = true

theorem Uncancelled.not_cancels (uncancelled : Uncancelled run) : ¬ Cancels run := by
  simp [Cancels, uncancelled.1, uncancelled.2]

-- As the terminations of the crate do, unless they combine none.
def StopsCancelled (termination : DeepResearchTermination) : Prop :=
  ∀ state : DeepResearchState, state.cancelRequested = true → (termination state).isSome

def Halts (spec : DeepResearchHarnessSpec) (termination : DeepResearchTermination)
    (strategy : DeepResearchLoopStrategy) (run : ResearchRun) : Prop :=
  (∃ e, run.stored 0 = .error e) ∨
    (termination (checked run (startLooping spec run (.new strategy))).state).isSome

def Unready (spec : DeepResearchHarnessSpec) (roles : DeepResearchRoles) (strategy : DeepResearchLoopStrategy)
    (run : ResearchRun) : Prop :=
  (roles.clarifier run.request (runningResult spec run strategy)).1 ≠ .ok .ready

theorem iterate_loop (looping : Looping strategy) :
    (iterate roles run looping).2.stepping = ((strategy.step roles run.request).run.run looping.stepping).2 := by
  rw [iterate]
  rcases (strategy.step roles run.request).run.run looping.stepping with ⟨_ | outcome, stepping⟩
  · rfl
  · cases outcome <;> cases run.stored looping.puts <;> rfl

theorem iterate_cancel (looping : Looping strategy) :
    (iterate roles run looping).2.cancel = looping.cancel := by
  rw [iterate]
  rcases (strategy.step roles run.request).run.run looping.stepping with ⟨_ | outcome, stepping⟩
  · rfl
  · cases outcome <;> cases run.stored looping.puts <;> rfl

theorem runLoop_past (staged : Staged strategy past) {fuel : Nat} {reason : Except String String}
    (ran : runLoop roles termination run fuel looping = some (reason, last)) (holds : past looping.stepping.loop) :
    past last.stepping.loop ∧ Appends (· ≠ RoleCall.clarify) looping.stepping.calls last.stepping.calls := by
  induction fuel generalizing looping with
  | zero => cases ran
  | succ fuel ih =>
    rw [runLoop] at ran
    have kept := staged.later roles run.request (checked run looping).stepping holds
    rw [← iterate_loop] at kept
    split at ran
    · cases ran
      exact ⟨holds, .refl _ _⟩
    · split at ran
      · next reason' looping' iterated =>
        cases ran
        rw [iterated] at kept
        exact kept
      · next looping' iterated =>
        rw [iterated] at kept
        obtain ⟨holds', more⟩ := ih ran kept.1
        exact ⟨holds', kept.2.trans more⟩

theorem runLoop_cancel (uncancelled : Uncancelled run) {fuel : Nat} {reason : Except String String}
    (ran : runLoop roles termination run fuel looping = some (reason, last)) :
    last.cancel = looping.cancel := by
  have same : (checked run looping).cancel = looping.cancel := by simp [checked, uncancelled.1]
  induction fuel generalizing looping with
  | zero => cases ran
  | succ fuel ih =>
    rw [runLoop] at ran
    have kept : (iterate roles run (checked run looping)).2.cancel = (checked run looping).cancel :=
      iterate_cancel (checked run looping)
    split at ran
    · cases ran
      exact same
    · split at ran
      · next reason' looping' iterated =>
        cases ran
        rw [iterated] at kept
        exact kept.trans same
      · next looping' iterated =>
        rw [iterated] at kept
        exact (ih ran (by simp [checked, uncancelled.1])).trans (kept.trans same)

theorem runLoop_cancelled {fuel : Nat} {reason : Except String String}
    (ran : runLoop roles termination run fuel looping = some (reason, last))
    (flag : (checked run looping).cancel = true) : last.cancel = true := by
  induction fuel generalizing looping with
  | zero => cases ran
  | succ fuel ih =>
    rw [runLoop] at ran
    have kept : (iterate roles run (checked run looping)).2.cancel = true :=
      (iterate_cancel (checked run looping)).trans flag
    split at ran
    · cases ran
      exact flag
    · split at ran
      · next reason' looping' iterated =>
        cases ran
        rw [iterated] at kept
        exact kept
      · next looping' iterated =>
        have kept : looping'.cancel = true := by rwa [iterated] at kept
        exact ih ran (by simp [checked, kept])

theorem runLoop_halts (stops : (termination (checked run looping).state).isSome) {fuel : Nat}
    {reason : Except String String}
    (ran : runLoop roles termination run fuel looping = some (reason, last)) : last = checked run looping := by
  cases fuel with
  | zero => cases ran
  | succ fuel =>
    obtain ⟨reason', stopped⟩ := Option.isSome_iff_exists.mp stops
    simp only [runLoop, stopped] at ran
    cases ran
    rfl

theorem callRole_run {σ α : Type} (call : RoleCall) (role : ResearchResult → RoleAnswer α) (s : Stepping σ) :
    (callRole call role).run.run s =
      ((role s.result).1, { s with result := (role s.result).2, calls := s.calls ++ [call] }) := rfl

theorem clarifyStage_cases {σ : Type} (roles : DeepResearchRoles) (request : ResearchRequest) (ready : σ)
    (s : Stepping σ) :
    ((clarifyStage roles request ready).run.run s).2.calls = s.calls ++ [.clarify] ∧
      ((roles.clarifier request s.result).1 = .ok .ready →
        ((clarifyStage roles request ready).run.run s).2.loop = ready) ∧
      ((roles.clarifier request s.result).1 ≠ .ok .ready →
        ((clarifyStage roles request ready).run.run s).2.loop = s.loop ∧
          ∀ label, ((clarifyStage roles request ready).run.run s).1 ≠ .ok (.«continue» label)) := by
  rw [clarifyStage, bind_run, callRole_run]
  rcases roles.clarifier request s.result with ⟨_ | _ | questions, result⟩
  · exact ⟨rfl, nofun, fun _ => ⟨rfl, nofun⟩⟩
  · exact ⟨rfl, fun _ => rfl, fun other => absurd rfl other⟩
  · exact ⟨rfl, nofun, fun _ => ⟨rfl, nofun⟩⟩

theorem iterate_ends {looping : Looping strategy}
    (ends : ∀ label, ((strategy.step roles run.request).run.run looping.stepping).1 ≠ .ok (.«continue» label)) :
    (iterate roles run looping).1 ≠ none := by
  rw [iterate]
  rcases stepped : (strategy.step roles run.request).run.run looping.stepping with ⟨_ | outcome, stepping⟩
  · exact nofun
  · cases outcome with
    | «continue» label => exact absurd (by rw [stepped]) (ends label)
    | done label => cases run.stored looping.puts <;> exact nofun

theorem runLoop_first (staged : Staged strategy past)
    (goes : termination (checked run (startLooping spec run (.new strategy))).state = none) {fuel : Nat}
    {reason : Except String String}
    (ran : runLoop roles termination run fuel (startLooping spec run (.new strategy)) = some (reason, last)) :
    RoleCall.clarify ∈ last.stepping.calls ∧
      (Unready spec roles strategy run →
        last.stepping.loop = strategy.new ∧ last.cancel = run.cancelled 0) ∧
      (¬ Unready spec roles strategy run → past last.stepping.loop) := by
  cases fuel with
  | zero => cases ran
  | succ fuel =>
    obtain ⟨ready, isPast, first⟩ := staged.first
    obtain ⟨called, goesOn, stays⟩ := clarifyStage_cases roles run.request ready
      { loop := strategy.new, result := runningResult spec run strategy, calls := [] }
    rw [← first] at called goesOn stays
    have ends (unready : Unready spec roles strategy run) :
        (iterate roles run (checked run (startLooping spec run (.new strategy)))).1 ≠ none :=
      iterate_ends (stays unready).2
    have stepped : (iterate roles run (checked run (startLooping spec run (.new strategy)))).2.stepping = _ :=
      iterate_loop (checked run (startLooping spec run (.new strategy)))
    have flag : (iterate roles run (checked run (startLooping spec run (.new strategy)))).2.cancel = _ :=
      iterate_cancel (checked run (startLooping spec run (.new strategy)))
    simp only [runLoop, goes] at ran
    cases iterated : iterate roles run (checked run (startLooping spec run (.new strategy))) with
    | mk ended next =>
      rw [iterated] at ran ends stepped flag
      have called : next.stepping.calls = [.clarify] := (congrArg Stepping.calls stepped).trans called
      have loop := congrArg Stepping.loop stepped
      cases ended with
      | some reason' =>
        cases ran
        refine ⟨by simp [called], fun unready => ⟨loop.trans (stays unready).1, ?_⟩, fun isReady => ?_⟩
        · exact flag.trans (Bool.false_or _)
        rw [loop.trans (goesOn (not_not.mp isReady))]
        exact isPast
      | none =>
        have isReady : ¬ Unready spec roles strategy run := fun unready => ends unready rfl
        have there := loop.trans (goesOn (not_not.mp isReady))
        obtain ⟨holds, more⟩ := runLoop_past staged ran (there ▸ isPast)
        refine ⟨more.subset (by simp [called]), fun unready => absurd unready isReady, fun _ => holds⟩

variable {fuel : Nat} {report : RunReport} {harness next : DeepResearchHarness strategy}

theorem runHarness_cases (ran : runHarness spec roles termination run fuel harness = some (report, next)) :
    ((∃ e, run.stored 0 = .error e) ∧ report.calls = [] ∧
        next = { harness with cancel := harness.cancel || run.cancelledAfter }) ∨
      run.stored 0 = .ok () ∧ ∃ reason last,
        runLoop roles termination run fuel (startLooping spec run harness) = some (reason, last) ∧
        report.calls = last.stepping.calls ∧
        next = { loop := last.stepping.loop, cancel := last.cancel || run.cancelledAfter } := by
  rw [runHarness] at ran
  split at ran
  · next e refused =>
    cases ran
    exact .inl ⟨⟨e, refused⟩, rfl, rfl⟩
  · next stored =>
    split at ran
    · cases ran
    · next reason last looped =>
      cases ran
      exact .inr ⟨stored, reason, last, looped, rfl, rfl⟩

theorem runHarness_cancel (uncancelled : Uncancelled run)
    (ran : runHarness spec roles termination run fuel harness = some (report, next)) :
    next.cancel = harness.cancel := by
  rcases runHarness_cases ran with ⟨-, -, rfl⟩ | ⟨-, reason, last, looped, -, rfl⟩
  · simp [uncancelled.2]
  · rw [uncancelled.2, Bool.or_false, runLoop_cancel uncancelled looped]
    rfl

theorem runHarness_halts (halts : Halts spec termination strategy run)
    (stops : harness.cancel = true → StopsCancelled termination) :
    runHarness spec roles termination run fuel harness =
      (runHarness spec roles termination run fuel (.new strategy)).map fun ran =>
        (ran.1, { loop := harness.loop, cancel := harness.cancel || ran.2.cancel }) := by
  rw [runHarness, runHarness]
  cases stored : run.stored 0 with
  | error e =>
    simp only [Option.map_some, DeepResearchHarness.new, Bool.false_or]
  | ok _ =>
    have stopsNew : (termination (checked run (startLooping spec run (.new strategy))).state).isSome := by
      rcases halts with ⟨e, refused⟩ | stopped
      · rw [stored] at refused
        cases refused
      · exact stopped
    have stopsHere : (termination (checked run (startLooping spec run harness)).state).isSome := by
      cases flag : harness.cancel with
      | true => exact stops flag _ (by simp [checked, startLooping, flag])
      | false =>
        rw [checked, startLooping, flag]
        exact stopsNew
    obtain ⟨reason, stopsNew⟩ := Option.isSome_iff_exists.mp stopsNew
    obtain ⟨reason', stopsHere⟩ := Option.isSome_iff_exists.mp stopsHere
    cases fuel with
    | zero => rfl
    | succ fuel =>
      have flag : (checked run (startLooping spec run harness)).cancel =
          (harness.cancel || (checked run (startLooping spec run (.new strategy))).cancel) := by
        simp [checked, startLooping, DeepResearchHarness.new, DeepResearchState.new]
      simp only [runLoop, stopsNew, stopsHere, Option.map_some, flag, Bool.or_assoc]
      rfl

theorem new_run (staged : Staged strategy past)
    (ran : runHarness spec roles termination run fuel (.new strategy) = some (report, next)) :
    ((Halts spec termination strategy run ∨ Unready spec roles strategy run) → ¬ Cancels run →
        next = .new strategy) ∧
      (Cancels run → next.cancel = true) ∧
      (¬ Halts spec termination strategy run → RoleCall.clarify ∈ report.calls ∧
        (¬ Unready spec roles strategy run → past next.loop)) := by
  rcases runHarness_cases ran with ⟨refused, -, rfl⟩ | ⟨stored, reason, last, looped, calls, rfl⟩
  · obtain ⟨e, refused⟩ := refused
    refine ⟨fun _ calm => ?_, fun cancels => ?_, fun goes => absurd (.inl ⟨e, refused⟩) goes⟩
    · have after : run.cancelledAfter = false := by simpa [Cancels, refused] using calm
      rw [after]
      rfl
    · have after : run.cancelledAfter = true := by simpa [Cancels, refused] using cancels
      simp [after]
  · have first : (checked run (startLooping spec run (.new strategy))).cancel = run.cancelled 0 := Bool.false_or _
    refine ⟨fun left calm => ?_, fun cancels => ?_, fun goes => ?_⟩
    · have calm : run.cancelled 0 = false ∧ run.cancelledAfter = false := by simpa [Cancels, stored] using calm
      have stays : last.stepping.loop = strategy.new ∧ last.cancel = run.cancelled 0 := by
        by_cases halts : (termination (checked run (startLooping spec run (.new strategy))).state).isSome
        · rw [runLoop_halts halts looped]
          exact ⟨rfl, first⟩
        · rcases left with ⟨⟨e, refused⟩ | stops⟩ | unready
          · rw [stored] at refused
            cases refused
          · exact absurd stops halts
          · rw [Option.not_isSome_iff_eq_none] at halts
            exact (runLoop_first staged halts looped).2.1 unready
      rw [stays.1, stays.2, calm.1, calm.2]
      rfl
    · rcases cancels with ⟨-, cancels⟩ | cancels
      · simp [runLoop_cancelled looped (first.trans cancels)]
      · simp [cancels]
    · obtain ⟨-, goes⟩ := not_or.mp goes
      rw [Option.not_isSome_iff_eq_none] at goes
      obtain ⟨called, -, leaves⟩ := runLoop_first staged goes looped
      rw [calls]
      exact ⟨called, leaves⟩

def Spoilt (past : strategy.Loop → Prop) (termination : DeepResearchTermination)
    (harness : DeepResearchHarness strategy) : Prop :=
  past harness.loop ∨ harness.cancel = true ∧ StopsCancelled termination

theorem spoilt_run (staged : Staged strategy past) (spoilt : Spoilt past termination harness)
    (ran : runHarness spec roles termination run fuel harness = some (report, next)) :
    Spoilt past termination next ∧ RoleCall.clarify ∉ report.calls := by
  rcases runHarness_cases ran with ⟨-, calls, rfl⟩ | ⟨-, reason, last, looped, calls, rfl⟩
  · refine ⟨spoilt.imp_right fun ⟨flag, stops⟩ => ⟨?_, stops⟩, by simp [calls]⟩
    simp [flag]
  · rw [calls]
    rcases spoilt with isPast | ⟨flag, stops⟩
    · obtain ⟨holds, more⟩ := runLoop_past staged looped isPast
      exact ⟨.inl holds, fun called => more.forall_of_nil _ called rfl⟩
    · have flagged : (checked run (startLooping spec run harness)).cancel = true := by
        simp [checked, startLooping, flag]
      refine ⟨.inr ⟨by simp [runLoop_cancelled looped flagged], stops⟩, ?_⟩
      rw [runLoop_halts (stops _ (by simp [checked, startLooping, flag])) looped]
      exact List.not_mem_nil

def newRun (strategy : DeepResearchLoopStrategy) (spec : DeepResearchHarnessSpec) (roles : DeepResearchRoles)
    (termination : DeepResearchTermination) (fuel : Nat) (run : ResearchRun) : Option RunReport :=
  (runHarness spec roles termination run fuel (.new strategy)).map Prod.fst

variable {runs : List ResearchRun} {reports : List RunReport}

theorem runAll_cons {rest : List ResearchRun}
    (ran : runAll spec roles termination fuel (run :: rest) harness = some reports) :
    ∃ report next reports', runHarness spec roles termination run fuel harness = some (report, next) ∧
      runAll spec roles termination fuel rest next = some reports' ∧ reports = report :: reports' := by
  rw [runAll] at ran
  split at ran
  · cases ran
  · next report next here =>
    obtain ⟨reports', later, rfl⟩ := Option.map_eq_some_iff.mp ran
    exact ⟨report, next, reports', here, later, rfl⟩

theorem uncancelled_tail {first : ResearchRun} {rest : List ResearchRun}
    (uncancelled : ∀ later ∈ (first :: rest).dropLast, Uncancelled later) :
    ∀ later ∈ rest.dropLast, Uncancelled later := by
  intro later member
  cases rest with
  | nil => cases member
  | cons second rest => exact uncancelled later (List.mem_cons_of_mem first member)

theorem uncancelled_head {first : ResearchRun} {rest : List ResearchRun}
    (uncancelled : ∀ later ∈ (first :: rest).dropLast, Uncancelled later) (more : rest ≠ []) :
    Uncancelled first := by
  obtain ⟨second, rest', rfl⟩ := List.exists_cons_of_ne_nil more
  exact uncancelled first List.mem_cons_self

theorem stops_next {rest : List ResearchRun}
    (cancels : StopsCancelled termination ∨ ∀ later ∈ (run :: rest).dropLast, Uncancelled later) (more : rest ≠ [])
    (ran : runHarness spec roles termination run fuel harness = some (report, next))
    (stops : harness.cancel = true → StopsCancelled termination) :
    next.cancel = true → StopsCancelled termination := by
  rcases cancels with heeded | uncancelled
  · exact fun _ => heeded
  · rw [runHarness_cancel (uncancelled_head uncancelled more) ran]
    exact stops

theorem spoilt_runs (staged : Staged strategy past) (spoilt : Spoilt past termination harness)
    (cancels : StopsCancelled termination ∨ ∀ run ∈ runs.dropLast, Uncancelled run)
    (stops : runs ≠ [] → harness.cancel = true → StopsCancelled termination)
    (ran : runAll spec roles termination fuel runs harness = some reports) :
    runs.map (newRun strategy spec roles termination fuel) = reports.map some ↔
      ∀ run ∈ runs, Halts spec termination strategy run := by
  induction runs generalizing harness reports with
  | nil =>
    cases ran
    simp
  | cons run rest ih =>
    obtain ⟨report, next, reports', here, later, rfl⟩ := runAll_cons ran
    obtain ⟨spoilt', uncalled⟩ := spoilt_run staged spoilt here
    have stopsHere := stops (List.cons_ne_nil run rest)
    have tail := ih spoilt' (cancels.imp_right uncancelled_tail)
      (fun more => stops_next cancels more here stopsHere) later
    rw [List.map_cons, List.map_cons, List.cons.injEq, tail, List.forall_mem_cons]
    refine and_congr_left fun _ => ⟨fun same => ?_, fun halts => ?_⟩
    · by_contra goes
      obtain ⟨fresh, ran', rfl⟩ := Option.map_eq_some_iff.mp same
      exact uncalled ((new_run staged ran').2.2 goes).1
    · have same := here.symm.trans (runHarness_halts halts stopsHere)
      obtain ⟨fresh, ran', agrees⟩ := Option.map_eq_some_iff.mp same.symm
      rw [newRun, ran', Option.map_some]
      exact congrArg some (congrArg Prod.fst agrees)

def Undisturbed (strategy : DeepResearchLoopStrategy) (spec : DeepResearchHarnessSpec) (roles : DeepResearchRoles)
    (termination : DeepResearchTermination) (earlier later : ResearchRun) : Prop :=
  (Halts spec termination strategy earlier ∨ Unready spec roles strategy earlier) ∧ ¬ Cancels earlier ∨
    Halts spec termination strategy later

theorem new_runs (staged : Staged strategy past)
    (cancels : StopsCancelled termination ∨ ∀ run ∈ runs.dropLast, Uncancelled run)
    (ran : runAll spec roles termination fuel runs (.new strategy) = some reports) :
    runs.map (newRun strategy spec roles termination fuel) = reports.map some ↔
      runs.Pairwise (Undisturbed strategy spec roles termination) := by
  induction runs generalizing reports with
  | nil =>
    cases ran
    simp
  | cons run rest ih =>
    obtain ⟨report, next, reports', here, later, rfl⟩ := runAll_cons ran
    obtain ⟨stays, flagged, leaves⟩ := new_run staged here
    have same : newRun strategy spec roles termination fuel run = some report := by
      rw [newRun, here, Option.map_some]
    rw [List.map_cons, List.map_cons, same, List.cons.injEq, and_iff_right rfl, List.pairwise_cons]
    by_cases left : (Halts spec termination strategy run ∨ Unready spec roles strategy run) ∧ ¬ Cancels run
    · rw [stays left.1 left.2] at later
      rw [ih (cancels.imp_right uncancelled_tail) later]
      exact ⟨fun pairs => ⟨fun _ _ => .inl left, pairs⟩, And.right⟩
    by_cases more : rest = []
    · subst more
      cases later
      simp
    -- the run leaves the strategy past the clarifier, or the flag set
    have spoilt : Spoilt past termination next := by
      by_cases cancelled : Cancels run
      · refine .inr ⟨flagged cancelled, cancels.resolve_right fun uncancelled => ?_⟩
        exact (uncancelled_head uncancelled more).not_cancels cancelled
      · obtain ⟨goes, ready⟩ := not_or.mp fun ends => left ⟨ends, cancelled⟩
        exact .inl ((leaves goes).2 ready)
    rw [spoilt_runs staged spoilt (cancels.imp_right uncancelled_tail)
      (fun more => stops_next cancels more here nofun) later]
    constructor
    · intro halt
      refine ⟨fun second member => .inr (halt second member), ?_⟩
      exact List.pairwise_of_forall_mem_list fun _ _ second member => .inr (halt second member)
    · intro pairs second member
      exact (pairs.1 second member).resolve_left left

end Runs

/-- Every run of a sequence gives what it gives on a new harness exactly when no run that gets past the clarifier or
is cancelled comes before one that takes a step. -/
theorem runs_independent_iff (strategy : DeepResearchLoopStrategy) (member : strategy ∈ loopStrategies)
    (spec : DeepResearchHarnessSpec) (roles : DeepResearchRoles) (termination : DeepResearchTermination)
    (fuel : Nat) (runs : List ResearchRun) (reports : List RunReport)
    (cancels : StopsCancelled termination ∨ ∀ run ∈ runs.dropLast, Uncancelled run)
    (ran : runAll spec roles termination fuel runs (.new strategy) = some reports) :
    runs.map (newRun strategy spec roles termination fuel) = reports.map some ↔
      runs.Pairwise (Undisturbed strategy spec roles termination) := by
  obtain ⟨past, staged⟩ := loopStrategies_staged strategy member
  exact new_runs staged cancels ran

def plainRun : ResearchRun where
  request := .new "q"
  cancelled := fun _ => false
  cancelledAfter := false
  stored := fun _ => .ok ()

def plainSpec : DeepResearchHarnessSpec where
  modelId := none
  initialBudget := 0

-- Roles that find nothing to ask, one thing to research, and nothing to criticise.
def plainRoles : DeepResearchRoles where
  clarifier _ r := (.ok .ready, r)
  planner _ r := (.ok { Plan.new with subQuestions := [{
    id := "sq-1"
    text := "q"
    rationale := none
    «section» := none
    status := .pending }] }, r)
  researcher _ _ r := (.ok (), r)
  researchAll _ _ r := (.ok (), r)
  writer _ _ r := (.ok (), { r with finalReport := some "report" })
  critic _ r := (.ok { summary := "fine", gaps := [], done := true }, r)
  verifier _ r := (.ok (), r)

def askingRoles : DeepResearchRoles :=
  { plainRoles with clarifier := fun _ r => (.ok (.needAnswers ["which one?"]), r) }

theorem strategyControlled_stopsCancelled : StopsCancelled strategyControlledTermination := by
  intro state requested
  rw [strategyControlledTermination, if_pos requested]
  rfl

theorem asking_runs_independent :
    ∃ reports, runAll plainSpec askingRoles strategyControlledTermination 2 [plainRun, plainRun]
        (.new PlanAndExecuteLoop.strategy) = some reports ∧
      [plainRun, plainRun].map (newRun PlanAndExecuteLoop.strategy plainSpec askingRoles
        strategyControlledTermination 2) = reports.map some := by
  refine ⟨_, rfl, (runs_independent_iff PlanAndExecuteLoop.strategy (by simp [loopStrategies]) plainSpec
    askingRoles strategyControlledTermination 2 [plainRun, plainRun] _
    (.inl strategyControlled_stopsCancelled) rfl).mpr ?_⟩
  simp [Undisturbed, Unready, askingRoles, Cancels, plainRun]

/-- The second of two runs does nothing. -/
theorem second_run_idle :
    ∃ first second new, runAll plainSpec plainRoles strategyControlledTermination 9 [plainRun, plainRun]
        (.new PlanAndExecuteLoop.strategy) = some [first, second] ∧
      newRun PlanAndExecuteLoop.strategy plainSpec plainRoles strategyControlledTermination 9 plainRun
        = some new ∧
      RoleCall.plan ∈ new.calls ∧ RoleCall.verify ∈ new.calls ∧ second.calls = [] := by
  -- the list of calls is computed up to the one looked for
  refine ⟨_, _, _, rfl, rfl, ?_, ?_, rfl⟩ <;>
    repeat first | exact .head _ | apply List.Mem.tail

end AtomrAgents.DeepResearch
