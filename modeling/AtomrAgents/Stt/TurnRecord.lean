import AtomrAgents.Shared.Tiling
import AtomrAgents.Stt.Harness

set_option autoImplicit false

namespace AtomrAgents.Stt

open Shared

def committedOf : SttHarnessEvent → Option CommittedTurn
  | .utteranceCommitted turn => some turn
  | _ => none

def isInterim : SttHarnessEvent → Bool
  | .interim _ _ _ => true
  | _ => false

namespace SttRun

def turns (run : SttRun) : List CommittedTurn := run.state.conversation.turns

def told (run : SttRun) : List CommittedTurn := run.emitted.filterMap committedOf

structure Recorded (run : SttRun) : Prop where
  numbered : Numbered (fun turn : CommittedTurn => turn.index) run.turns
  told : run.told = run.turns

inductive Advances (s t : SttRun) : Prop where
  | kept (turns : t.turns = s.turns) (told : t.told = s.told) : Advances s t
  | committed (turn : CommittedTurn) (index : turn.index = s.turns.length) (turns : t.turns = s.turns ++ [turn])
    (told : t.told = s.told ++ [turn]) : Advances s t

variable {s t : SttRun} {coalesce : VoiceMode} {event : StreamEvent}

theorem told_emit (run : SttRun) (event : SttHarnessEvent) :
    (run.emit event).told = run.told ++ (committedOf event).toList := by
  rw [told, told, emit, List.filterMap_append]
  cases committed : committedOf event <;> simp [committed]

theorem told_emit_other (run : SttRun) {event : SttHarnessEvent} (other : committedOf event = none) :
    (run.emit event).told = run.told := by
  rw [told_emit, other, Option.toList_none, List.append_nil]

theorem advances_fold (folded : s.fold coalesce event = .ok t) : Advances s t := by
  cases event with
  | interim text startMs endMs words =>
    cases coalesce with
    | live =>
      cases folded
      exact .kept rfl (told_emit_other _ rfl)
    | turnBased =>
      cases folded
      exact .kept rfl rfl
  | final segment =>
    rw [fold] at folded
    split at folded
    · cases folded
    · next stage resolved _ =>
      cases folded
      exact .committed (s.state.conversation.segmentTurn resolved) rfl rfl (told_emit _ _)
  | speakerTurn speaker atMs =>
    cases folded
    exact .kept rfl (told_emit_other _ rfl)
  | utteranceEnd atMs =>
    rw [fold, Conversation.closeOpenTurn] at folded
    cases opened : s.state.conversation.openPartial with
    | none =>
      simp only [opened] at folded
      cases folded
      exact .kept rfl (told_emit_other _ rfl)
    | some buf =>
      simp only [opened] at folded
      cases folded
      refine .committed (s.state.conversation.interimTurn buf) rfl rfl ?_
      rw [told_emit_other _ rfl, commit, told_emit]
      rfl
  | metadata data =>
    cases folded
    exact .kept rfl (told_emit_other _ rfl)

theorem Recorded.advance (recorded : Recorded s) (advances : Advances s t) : Recorded t := by
  cases advances with
  | kept turns told => exact ⟨by rw [turns]; exact recorded.numbered, by rw [told, turns, recorded.told]⟩
  | committed turn index turns told =>
    refine ⟨?_, by rw [told, turns, recorded.told]⟩
    rw [turns]
    exact recorded.numbered.concat index

theorem Advances.prefix (advances : Advances s t) : s.turns <+: t.turns := by
  cases advances with
  | kept turns told => exact turns ▸ List.prefix_refl _
  | committed turn index turns told => exact turns ▸ List.prefix_append _ _

end SttRun

namespace SttHarness

open SttRun

variable {harness : SttHarness}

theorem keeps_of_advances {invariant : SttRun → Prop}
    (kept : ∀ s t, invariant s → Advances s t → invariant t) : BurstLoop.Keeps harness.body invariant where
  stop s reason t holds stops := by
    simp only [body] at stops
    split at stops
    · cases stops
    · cases stops
      exact kept _ _ holds (.kept rfl (told_emit_other _ rfl))
  enter s holds := kept _ _ holds (.kept rfl rfl)
  fold s event t holds folded := kept _ _ holds (advances_fold folded)
  leave s holds := kept _ _ holds (.kept rfl rfl)
  ended s holds := kept _ _ holds (.kept rfl (told_emit_other _ rfl))
  feed s pcm holds := kept _ _ holds (.kept rfl rfl)

/-- After any turns of the session and the loop: the turns are numbered by their positions, the committed
utterances that were told are the turns in their order, and whatever comes later only adds turns behind them. -/
theorem committed_turns_recorded (harness : SttHarness) (id backend : String) (support : DiarizationSupport)
    (budget : Nat) (schedule more : Schedule) :
    let run := (harness.after (harness.initial id backend support budget) schedule).state
    Numbered SttTurn.index (run.turns.map CommittedTurn.toSttTurn) ∧ run.told = run.turns ∧
      run.turns <+: (harness.after (harness.initial id backend support budget) (schedule ++ more)).state.turns := by
  intro run
  have quiet : (harness.initial id backend support budget).told = [] := by
    rw [told, initial]
    cases harness.policy <;> cases support <;> rfl
  have begins : Recorded (harness.initial id backend support budget) :=
    ⟨fun i turn found => by simp [SttRun.turns, initial, Conversation.new] at found, quiet⟩
  have recorded : Recorded run :=
    (keeps_of_advances fun s t holds advances => Recorded.advance holds advances).final begins schedule
  refine ⟨fun i turn found => ?_, recorded.told, ?_⟩
  · rw [List.getElem?_map, Option.map_eq_some_iff] at found
    obtain ⟨committed, here, rfl⟩ := found
    exact recorded.numbered i committed here
  · rw [after, BurstLoop.after, Operations.final_append]
    exact (keeps_of_advances fun s t front advances => List.IsPrefix.trans front advances.prefix).final
      (List.prefix_refl _) more

end SttHarness

namespace SttRun

def withoutInterims (run : SttRun) : SttRun :=
  { run with emitted := run.emitted.filter fun event => !isInterim event }

variable (run : SttRun)

theorem withoutInterims_emit {event : SttHarnessEvent} (told : isInterim event = false) :
    (run.emit event).withoutInterims = run.withoutInterims.emit event := by
  simp [withoutInterims, emit, List.filter_append, told]

theorem withoutInterims_commit (turn : CommittedTurn) (conversation : Conversation) :
    (run.commit turn conversation).withoutInterims = run.withoutInterims.commit turn conversation := by
  rw [commit, withoutInterims_emit _ rfl]
  rfl

theorem withoutInterims_finish (reason : RunEnd) :
    (run.finish reason).withoutInterims = run.withoutInterims.finish reason := by
  rw [finish, withoutInterims_emit _ rfl]
  rfl

theorem fold_withoutInterims (silenceMs : Nat) (event : StreamEvent) :
    run.withoutInterims.fold (.turnBased silenceMs) event = (run.fold .live event).map withoutInterims := by
  cases event with
  | interim text startMs endMs words =>
    simp [fold, Except.map, withoutInterims, emit, setConversation, isInterim]
  | final segment =>
    rw [fold, fold]
    have same : run.withoutInterims.stage = run.stage := rfl
    rw [same]
    cases run.stage.resolveSegment segment with
    | error e => rfl
    | ok resolved =>
      refine congrArg Except.ok ?_
      rw [withoutInterims_commit]
      rfl
  | speakerTurn speaker atMs =>
    refine congrArg Except.ok ?_
    rw [withoutInterims_emit _ rfl]
    rfl
  | utteranceEnd atMs =>
    rw [fold, fold]
    have same : run.withoutInterims.state = run.state := rfl
    rw [same, Conversation.closeOpenTurn]
    cases run.state.conversation.openPartial with
    | none =>
      refine congrArg Except.ok ?_
      rw [withoutInterims_emit _ rfl]
    | some buf =>
      refine congrArg Except.ok ?_
      rw [withoutInterims_emit _ rfl, withoutInterims_commit]
  | metadata data =>
    refine congrArg Except.ok ?_
    rw [withoutInterims_emit _ rfl]

end SttRun

namespace SttHarness

open SttRun

theorem simulates_turnBased (policy : DiarizationPolicy) (termination : SttTermination) (silenceMs : Nat) :
    BurstLoop.Simulates (body { coalesce := .live, policy, termination })
      (body { coalesce := .turnBased silenceMs, policy, termination })
      (fun run quiet => quiet = run.withoutInterims) Eq where
  stop run quiet same := by
    subst same
    simp only [body]
    have state : run.withoutInterims.state = run.state := rfl
    rw [state]
    cases termination run.state with
    | none => exact .inl ⟨rfl, rfl⟩
    | some reason =>
      exact .inr ⟨_, _, _, _, rfl, rfl, rfl,
        (withoutInterims_finish (run.emitIteration ("terminated:" ++ reason)) _).symm⟩
  enter run quiet same := by
    subst same
    rfl
  fold run quiet event same := by
    subst same
    have folded := fold_withoutInterims run silenceMs event
    cases live : run.fold .live event with
    | error e =>
      rw [live] at folded
      exact .inl ⟨e, live, folded⟩
    | ok next =>
      rw [live] at folded
      exact .inr ⟨next, _, live, folded, rfl⟩
  leave run quiet same := by
    subst same
    rfl
  ended run quiet same := by
    subst same
    exact ⟨rfl, (withoutInterims_finish run.close _).symm⟩
  feed run quiet pcm same := by
    subst same
    rfl

/-- Turn by turn or live: in the same schedule the two modes are always in the same phase, with the same
conversation, history and iterations; turn by turn tells all that live does, except what is still open. -/
theorem turnBased_eq_live (policy : DiarizationPolicy) (termination : SttTermination) (silenceMs : Nat)
    (id backend : String) (support : DiarizationSupport) (budget : Nat) (schedule : Schedule) :
    let live : SttHarness := { coalesce := .live, policy, termination }
    let turnBased : SttHarness := { coalesce := .turnBased silenceMs, policy, termination }
    (turnBased.after (turnBased.initial id backend support budget) schedule).phase =
        (live.after (live.initial id backend support budget) schedule).phase ∧
      (turnBased.after (turnBased.initial id backend support budget) schedule).state =
        (live.after (live.initial id backend support budget) schedule).state.withoutInterims := by
  intro live turnBased
  have begins : turnBased.initial id backend support budget =
      (live.initial id backend support budget).withoutInterims := by
    cases policy <;> cases support <;> rfl
  have related := BurstLoop.related_after (simulates_turnBased policy termination silenceMs) begins schedule
  exact ⟨related.phase.eq.symm, related.state⟩

end SttHarness

end AtomrAgents.Stt
