import AtomrAgents.Meetings.LiveExtraction

set_option autoImplicit false

namespace AtomrAgents.Meetings

open Shared

-- A turn's index is its position in the conversation.
structure Transcript extends SttConversation where
  numbered : Numbered SttTurn.index turns

inductive RunMode where
  | batch
  | live (segmentTurnCount : Nat)

def RunMode.segmentTurnCount : RunMode → Nat
  | .batch => 8
  | .live count => max count 1

structure MeetingsStepEvent where
  iteration : Nat
  outcome : String
  timestampMs : Int

structure MeetingsLoopState where
  run : MeetingsRun
  history : List MeetingsStepEvent
  remainingBudget : Nat
  cancelRequested : Bool

inductive Termination where
  | «continue»
  | done (reason : String)

def StreamEndTermination.shouldTerminate (state : MeetingsLoopState) : Termination :=
  if state.cancelRequested then .done "cancelled"
  else if state.run.state.streamClosed then .done "stream_end"
  else .«continue»

def IterationCapTermination.shouldTerminate (cap : Nat) (state : MeetingsLoopState) : Termination :=
  if cap ≤ state.run.state.iteration then .done "iteration_cap"
  else if state.cancelRequested then .done "cancelled"
  else .«continue»

def BudgetTermination.shouldTerminate (state : MeetingsLoopState) : Termination :=
  if state.cancelRequested then .done "cancelled"
  else if state.remainingBudget = 0 then .done "budget_exhausted"
  else .«continue»

-- The first to fire wins.
def CompositeTermination.shouldTerminate :
    List (MeetingsLoopState → Termination) → MeetingsLoopState → Termination
  | [], _ => .«continue»
  | strat :: rest, state =>
    match strat state with
    | .done reason => .done reason
    | .«continue» => shouldTerminate rest state

structure LoopInput where
  cancelled : Bool
  received : Option (Except RecvError SttHarnessEvent)
  loaded : Except String (Option Transcript)
  stored : Except String Unit
  now : Int

namespace LoopInput

variable (input : LoopInput)

def step : StepInput where
  received := input.received
  loaded := input.loaded.map fun found => found.map Transcript.toSttConversation
  stored := input.stored

def finished : Bool := (StreamingExtractionLoop.heard input.received).any fun heard => heard.1

-- The turns that the step extracts from. `none`: it does not extract.
def visible : Option (List SttTurn) :=
  match StreamingExtractionLoop.heard input.received, input.loaded with
  | some _, .ok found => some ((found.map fun conv => conv.turns).getD [])
  | _, _ => none

end LoopInput

def outcomeLabel : MeetingsStepOutcome → String
  | .«continue» label => label
  | .done label => label

def BatchExtractionLoop.step (world : ExtractorWorld) (segmentTurnCount : Nat) (input : StepInput)
    (run : MeetingsRun) : Except MeetingsHarnessError MeetingsStepOutcome × MeetingsRun :=
  let request : ExtractionRequest := { window := .all, finalize := true, live := false, segmentTurnCount }
  let state := { run.state with analysis := { run.state.analysis with state := .streaming } }
  match RuleBasedExtractor.extract world request run.handle with
  | (.error e, handle) => (.error e, { state, handle })
  | (.ok (), handle) =>
    let run : MeetingsRun := { state := { state with analysis := handle.analysis }, handle }
    match input.stored with
    | .error e => (.error (.persistence e), run)
    | .ok () => (.ok (.done "batch_complete"), run)

inductive LoopStrategy where
  | batch
  | streaming (sourceConversationId : String)

def LoopStrategy.step (world : ExtractorWorld) (segmentTurnCount : Nat) :
    LoopStrategy → StepInput → MeetingsRun → Except MeetingsHarnessError MeetingsStepOutcome × MeetingsRun
  | .batch => BatchExtractionLoop.step world segmentTurnCount
  | .streaming source => StreamingExtractionLoop.step world segmentTurnCount source

-- `none`: it waits for what comes from outside.
def runLoop (world : ExtractorWorld) (strategy : LoopStrategy) (termination : MeetingsLoopState → Termination)
    (segmentTurnCount : Nat) :
    List LoopInput → MeetingsLoopState → Except MeetingsHarnessError (Option String) × MeetingsLoopState
  | [], state => (.ok none, state)
  | input :: rest, state =>
    let state := if input.cancelled then { state with cancelRequested := true } else state
    match termination state with
    | .done reason => (.ok (some reason), state)
    | .«continue» =>
      let next := { state.run.state with iteration := state.run.state.iteration + 1 }
      match strategy.step world segmentTurnCount input.step { state.run with state := next } with
      | (.error e, run) => (.error e, { state with run })
      | (.ok outcome, run) =>
        let event : MeetingsStepEvent := {
          iteration := run.state.iteration
          outcome := outcomeLabel outcome
          timestampMs := input.now }
        let state := { state with run, history := state.history ++ [event] }
        match outcome with
        | .done _ => (.ok (some "complete"), state)
        | .«continue» _ => runLoop world strategy termination segmentTurnCount rest state

-- The state in the harness is a function of the loop's state, which has the number of the turn.
structure MeetingsHarness where
  modelId : String
  mode : RunMode
  initialBudget : Nat
  strategy : LoopStrategy
  termination : MeetingsLoopState → Termination
  world : ExtractorWorld

structure RunAnswers where
  transcript : Except String (Option Transcript)
  createdAt : Int
  pendingStored : Except String Unit
  finishedAt : Int
  finalStored : Except String Unit

inductive MeetingsRunError where
  | transcriptNotFound (id : String)
  | harness (error : MeetingsHarnessError)

namespace MeetingsHarness

variable (harness : MeetingsHarness) (answers : RunAnswers) (inputs : List LoopInput)

def loopFrom (conv : Transcript) : Except MeetingsHarnessError (Option String) × MeetingsLoopState :=
  runLoop harness.world harness.strategy harness.termination harness.mode.segmentTurnCount inputs {
    run := startMeeting conv.toSttConversation harness.modelId answers.createdAt
    history := []
    remainingBudget := harness.initialBudget
    cancelRequested := false }

-- `none`: the loop still waits.
def run (sourceConversationId : String) : Except MeetingsRunError (Option MeetingAnalysis) :=
  match answers.transcript with
  | .error e => .error (.harness (.stt e))
  | .ok none => .error (.transcriptNotFound sourceConversationId)
  | .ok (some conv) =>
    match answers.pendingStored with
    | .error e => .error (.harness (.persistence e))
    | .ok () =>
      match harness.loopFrom answers inputs conv with
      | (.error e, _) => .error (.harness e)
      | (.ok none, _) => .ok none
      | (.ok (some _), state) =>
        let finalAnalysis := { state.run.handle.analysis with state := .final }.touch answers.finishedAt
        match answers.finalStored with
        | .error e => .error (.harness (.persistence e))
        | .ok () => .ok (some finalAnalysis)

def took : List LoopInput :=
  match answers.transcript with
  | .ok (some conv) => inputs.take (harness.loopFrom answers inputs conv).2.run.state.iteration
  | _ => []

end MeetingsHarness

-- Turns seen so far, and where the ones begin that no frozen segment has.
structure Tail where
  start : Nat
  seen : Nat

def Tail.grow (count : Nat) (tail : Tail) (visible : Nat) : Tail :=
  if visible ≤ tail.seen then tail
  else { start := if count ≤ visible - tail.start then visible else tail.start, seen := visible }

def Tail.after (count : Nat) (tail : Tail) (took : List LoopInput) : Tail :=
  (took.filterMap LoopInput.visible).foldl (fun tail turns => tail.grow count turns.length) tail

namespace LoopStrategy

def lastVisible (conv : Transcript) (took : List LoopInput) : LoopStrategy → Option (List SttTurn)
  | .batch => if took.isEmpty then none else some conv.turns
  | .streaming _ => (took.filterMap LoopInput.visible).getLast?

-- The last step was the extractor's, or it came when the segment that was open had just got its length.
def EndsClosed (count : Nat) (took : List LoopInput) : LoopStrategy → Prop
  | .batch => True
  | .streaming _ =>
    let tail := Tail.after count { start := 0, seen := 0 } took
    took.any LoopInput.finished ∨ tail.start = tail.seen

end LoopStrategy

structure ReallyFinal (analysis : MeetingAnalysis) (lastVisible : Option (List SttTurn)) : Prop where
  finalized : ∀ segment ∈ analysis.segments, segment.finalized = true
  running : analysis.summaryLevels.running.getD "" =
    "\n\n".intercalate (analysis.segments.map SegmentSummary.text)
  covered : ∀ turns ∈ lastVisible, ∀ turn ∈ turns, ∃ segment ∈ analysis.segments,
    segment.startTurnIndex ≤ turn.index ∧ turn.index ≤ segment.endTurnIndex

section Tracking

variable {count : Nat} {tail : Tail} {analysis : MeetingAnalysis} {handle : ToolHandle}

structure Tracked (count : Nat) (tail : Tail) (analysis : MeetingAnalysis) : Prop where
  watermark : (analysis.lastProcessedTurnIndex.map fun w => w + 1).getD 0 = tail.seen
  segments : if tail.start = tail.seen then Closed count analysis tail.seen
    else ∃ front last, OpenTail count analysis.segments front last ∧
      last.startTurnIndex = tail.start ∧ last.endTurnIndex + 1 = tail.seen

theorem Tracked.live (tracked : Tracked count tail analysis) :
    LiveSegments count analysis.segments tail.seen := by
  have segments := tracked.segments
  split at segments
  next => exact .closed segments.frozen
  next =>
    obtain ⟨front, last, opened, -, covered⟩ := segments
    exact .opened front last opened covered

theorem Tracked.begins (tracked : Tracked count tail analysis) :
    (analysis.summaryLevels.tail.map SegmentSummary.startTurnIndex).or (some tail.seen) = some tail.start := by
  have segments := tracked.segments
  split at segments
  next closed =>
    have none_ : analysis.summaryLevels.tail = none := segments.frozen.tail_none
    rw [none_, closed]
    rfl
  next =>
    obtain ⟨front, last, opened, starts, -⟩ := segments
    have some_ : analysis.summaryLevels.tail = some last := opened.tail
    rw [some_, ← starts]
    rfl

theorem Tracked.start_le (tracked : Tracked count tail analysis) : tail.start ≤ tail.seen := by
  have segments := tracked.segments
  split at segments
  next closed => exact closed.le
  next =>
    obtain ⟨front, last, opened, starts, covered⟩ := segments
    have ordered := opened.ordered
    omega

theorem Tracked.kept {after : MeetingAnalysis} (tracked : Tracked count tail analysis)
    (kept : LevelsKept analysis after) : Tracked count tail after := by
  have segments : after.segments = analysis.segments := by
    rw [MeetingAnalysis.segments, kept.levels]
    rfl
  refine ⟨?_, ?_⟩
  · rw [kept.watermark]
    exact tracked.watermark
  · have before := tracked.segments
    split at before
    next closed =>
      rw [if_pos closed]
      refine ⟨?_, ?_⟩
      · rw [segments]
        exact before.frozen
      · rw [segments, kept.levels]
        exact before.running
    next opened =>
      rw [if_neg opened, segments]
      exact before

theorem Tail.le_grow (count : Nat) (tail : Tail) (visible : Nat) :
    tail.seen ≤ (tail.grow count visible).seen ∧ visible ≤ (tail.grow count visible).seen := by
  rw [Tail.grow]
  split
  next old => exact ⟨le_rfl, old⟩
  next fresh => exact ⟨Nat.le_of_not_le fresh, le_rfl⟩

theorem covered_of_tiles {b : Nat} (tiles : Tiles SegmentSummary.bounds 0 analysis.segments b)
    {lastVisible : Option (List SttTurn)} (below : ∀ turns ∈ lastVisible, ∀ turn ∈ turns, turn.index < b) :
    ∀ turns ∈ lastVisible, ∀ turn ∈ turns, ∃ segment ∈ analysis.segments,
      segment.startTurnIndex ≤ turn.index ∧ turn.index ≤ segment.endTurnIndex :=
  fun turns last turn member => tiles.covers (Nat.zero_le _) (below turns last turn member)

theorem Tracked.final_iff (tracked : Tracked count tail analysis) {lastVisible : Option (List SttTurn)}
    (below : ∀ turns ∈ lastVisible, ∀ turn ∈ turns, turn.index < tail.seen) :
    ReallyFinal analysis lastVisible ↔ tail.start = tail.seen := by
  have segments := tracked.segments
  split at segments
  next closed =>
    refine iff_of_true ⟨segments.frozen.frozen, segments.running, ?_⟩ closed
    exact covered_of_tiles segments.frozen.tiles below
  next unclosed =>
    obtain ⟨front, last, opened, -, -⟩ := segments
    refine iff_of_false (fun final => ?_) unclosed
    have frozen := final.finalized last (by rw [opened.split]; exact List.mem_append_right front (by simp))
    rw [opened.unfinalized] at frozen
    cases frozen

end Tracking

section Steps

variable {count : Nat} {tail : Tail} {handle : ToolHandle}

variable (world : ExtractorWorld)

theorem liveSegments_tracked (request : ExtractionRequest) (conv : SttConversation)
    (numbered : Numbered SttTurn.index conv.turns)
    (tracked : Tracked request.segmentTurnCount tail handle.analysis) :
    ∃ handle', RuleBasedExtractor.liveSegments world request conv (conv.turns.drop tail.seen) handle =
        (.ok (), handle') ∧
      Tracked request.segmentTurnCount (tail.grow request.segmentTurnCount conv.turns.length) handle'.analysis := by
  by_cases old : conv.turns.length ≤ tail.seen
  · rw [List.drop_eq_nil_of_le old, Tail.grow, if_pos old]
    exact ⟨handle, liveSegments_nil world conv, tracked⟩
  · have seen : (conv.turns.take tail.seen).length = tail.seen := by
      rw [List.length_take]
      omega
    have fresh : conv.turns.drop tail.seen ≠ [] := by
      rw [ne_eq, List.drop_eq_nil_iff]
      exact old
    have split := List.take_append_drop tail.seen conv.turns
    obtain ⟨e, first, last, -, highest, ends, later⟩ := fresh_ends (split.symm ▸ numbered) fresh
    rw [seen] at first later
    rw [split] at ends
    obtain ⟨handle', segmented, watermark, became⟩ :=
      liveSegments_cases world conv tracked.live tracked.begins first last later highest
    refine ⟨handle', segmented, ?_⟩
    have start := tracked.start_le
    have span : e - tail.start + 1 = conv.turns.length - tail.start := by omega
    rw [Reached, span] at became
    rw [Tail.grow, if_neg old]
    refine ⟨by rw [watermark]; exact ends, ?_⟩
    split at became
    next full =>
      simp only [if_pos full, if_true]
      exact ends ▸ became
    next short =>
      obtain ⟨front, open_, opened, starts, reaches⟩ := became
      have unclosed : tail.start ≠ conv.turns.length := by omega
      simp only [if_neg short, if_neg unclosed]
      exact ⟨front, open_, opened, starts, by rw [reaches, ends]⟩

variable (handle) in
theorem extract_tracked (finalize : Bool) (numbered : Numbered SttTurn.index handle.transcript.turns)
    (tracked : Tracked count tail handle.analysis) :
    ∃ handle', RuleBasedExtractor.extract world
        { window := .after handle.analysis.lastProcessedTurnIndex, finalize, live := true, segmentTurnCount := count }
        handle = (.ok (), if finalize then RuleBasedExtractor.finish world handle' else handle') ∧
      Tracked count (tail.grow count handle.transcript.turns.length) handle'.analysis := by
  have window := window_after handle.transcript tracked.watermark numbered
  rw [RuleBasedExtractor.extract]
  simp only [window]
  by_cases idle : ((handle.transcript.turns.drop tail.seen).isEmpty && !finalize) = true
  · rw [if_pos idle]
    simp only [Bool.and_eq_true, List.isEmpty_iff, Bool.not_eq_true', List.drop_eq_nil_iff] at idle
    rw [Tail.grow, if_pos idle.1, idle.2]
    exact ⟨handle, rfl, tracked⟩
  · rw [if_neg idle]
    obtain ⟨acted, appended, -, kept⟩ := appendActions_window handle world handle.transcript
      (handle.transcript.turns.drop tail.seen)
    obtain ⟨segmented, ran, tracked'⟩ := liveSegments_tracked world {
      window := .after handle.analysis.lastProcessedTurnIndex, finalize, live := true,
      segmentTurnCount := count } handle.transcript numbered (tracked.kept kept)
    rw [appended]
    simp only [if_true, ran]
    exact ⟨segmented, rfl, tracked'⟩

structure TrackedRun (count : Nat) (tail : Tail) (run : MeetingsRun) : Prop where
  tracked : Tracked count tail run.handle.analysis
  same : run.state.analysis.lastProcessedTurnIndex = run.handle.analysis.lastProcessedTurnIndex

inductive Stepped (count : Nat) (tail : Tail) (run : MeetingsRun) (input : LoopInput) :
    MeetingsStepOutcome → MeetingsRun → Prop where
  | closed (run' : MeetingsRun) (unheard : input.visible = none) (unfinished : input.finished = false)
      (same : run'.handle = run.handle) : Stepped count tail run input (.done "stream_closed") run'
  | extracted (turns : List SttTurn) (handle' : ToolHandle) (outcome : MeetingsStepOutcome) (run' : MeetingsRun)
      (heard : input.visible = some turns) (numbered : Numbered SttTurn.index turns)
      (tracked : Tracked count (tail.grow count turns.length) handle'.analysis)
      (handled : run'.handle = if input.finished then RuleBasedExtractor.finish world handle' else handle')
      (same : run'.state.analysis = run'.handle.analysis)
      (ends : (∃ label, outcome = .done label) ↔ input.finished = true) :
      Stepped count tail run input outcome run'

theorem step_stepped (source : String) (input : LoopInput) {run run' : MeetingsRun}
    {outcome : MeetingsStepOutcome} (tracked : TrackedRun count tail run)
    (stepped : StreamingExtractionLoop.step world count source input.step run = (.ok outcome, run')) :
    Stepped world count tail run input outcome run' ∧ run'.state.iteration = run.state.iteration := by
  have iteration : (if run.state.iteration = 1 then
      { run.state with analysis := { run.state.analysis with state := .streaming } }
      else run.state).iteration = run.state.iteration := by
    split <;> rfl
  have watermark : (if run.state.iteration = 1 then
      { run.state with analysis := { run.state.analysis with state := .streaming } }
      else run.state).analysis.lastProcessedTurnIndex = run.handle.analysis.lastProcessedTurnIndex := by
    split <;> exact tracked.same
  rw [StreamingExtractionLoop.step] at stepped
  cases hears : StreamingExtractionLoop.heard input.received with
  | none =>
    simp only [LoopInput.step, hears] at stepped
    cases stepped
    exact ⟨.closed _ (by rw [LoopInput.visible, hears]) (by rw [LoopInput.finished, hears]; rfl) rfl, iteration⟩
  | some heard =>
    obtain ⟨finalize, label⟩ := heard
    have finished : input.finished = finalize := by
      rw [LoopInput.finished, hears]
      rfl
    cases loads : input.loaded with
    | error e =>
      simp only [LoopInput.step, hears, loads, Except.map] at stepped
      cases stepped
    | ok found =>
      have visible : input.visible = some (((found.map Transcript.toSttConversation).getD
          (SttConversation.new source)).turns) := by
        simp only [LoopInput.visible, hears, loads]
        cases found <;> rfl
      have numbered : Numbered SttTurn.index (((found.map Transcript.toSttConversation).getD
          (SttConversation.new source)).turns) := by
        cases found with
        | none => rintro i x ⟨⟩
        | some conv => exact conv.numbered
      obtain ⟨handle', extracted, tracked'⟩ := extract_tracked
        { run.handle with
          transcript := (found.map Transcript.toSttConversation).getD (SttConversation.new source) }
        world finalize numbered tracked.tracked
      simp only [LoopInput.step, hears, loads, Except.map, watermark] at stepped
      rw [extracted] at stepped
      cases stores : input.stored with
      | error e =>
        rw [stores] at stepped
        cases stepped
      | ok _ =>
        rw [stores] at stepped
        cases stepped
        refine ⟨.extracted _ handle' _ _ visible numbered tracked' ?_ rfl ?_, iteration⟩
        · rw [finished]
        · rw [finished]
          cases finalize with
          | true => exact iff_of_true ⟨label, rfl⟩ rfl
          | false => exact iff_of_false (by rintro ⟨_, ⟨⟩⟩) Bool.false_ne_true

theorem LoopInput.cancelled_run (input : LoopInput) (state : MeetingsLoopState) :
    (if input.cancelled then { state with cancelRequested := true } else state).run = state.run := by
  split <;> rfl

theorem finish_final {b : Nat} {handle : ToolHandle} (live : LiveSegments count handle.analysis.segments b)
    {lastVisible : Option (List SttTurn)} (below : ∀ turns ∈ lastVisible, ∀ turn ∈ turns, turn.index < b) :
    ReallyFinal (RuleBasedExtractor.finish world handle).analysis lastVisible := by
  obtain ⟨frozen, -, -, running⟩ := finish_spec world live
  refine ⟨frozen.frozen, ?_, covered_of_tiles frozen.tiles below⟩
  rw [running]
  rfl

theorem after_cons (input : LoopInput) (rest : List LoopInput) :
    tail.after count (input :: rest) =
      ((input.visible.map fun turns => tail.grow count turns.length).getD tail).after count rest := by
  rw [Tail.after, List.filterMap_cons]
  cases input.visible <;> rfl

theorem lastVisible_cons (input : LoopInput) (rest : List LoopInput) (lastVisible : Option (List SttTurn)) :
    ((input :: rest).filterMap LoopInput.visible).getLast?.or lastVisible =
      (rest.filterMap LoopInput.visible).getLast?.or (input.visible.or lastVisible) := by
  rw [List.filterMap_cons]
  cases input.visible with
  | none => rfl
  | some turns =>
    simp only
    rw [List.getLast?_cons]
    cases (rest.filterMap LoopInput.visible).getLast? <;> rfl

/-- By induction on the inputs, from what each step is. -/
theorem runLoop_streaming (source : String) (termination : MeetingsLoopState → Termination)
    (inputs : List LoopInput) {state last : MeetingsLoopState} {reason : String}
    (tracked : TrackedRun count tail state.run) {lastVisible : Option (List SttTurn)}
    (below : ∀ turns ∈ lastVisible, ∀ turn ∈ turns, turn.index < tail.seen)
    (ran : runLoop world (.streaming source) termination count inputs state = (.ok (some reason), last)) :
    ∃ k, last.run.state.iteration = state.run.state.iteration + k ∧
      (ReallyFinal last.run.handle.analysis
          (((inputs.take k).filterMap LoopInput.visible).getLast?.or lastVisible) ↔
        (inputs.take k).any LoopInput.finished = true ∨
          (tail.after count (inputs.take k)).start = (tail.after count (inputs.take k)).seen) := by
  induction inputs generalizing state tail lastVisible with
  | nil => cases ran
  | cons input rest ih =>
    have stops : ReallyFinal state.run.handle.analysis lastVisible ↔
        ([] : List LoopInput).any LoopInput.finished = true ∨ tail.start = tail.seen :=
      (tracked.tracked.final_iff below).trans ⟨.inr, fun either => either.resolve_left Bool.false_ne_true⟩
    rw [runLoop] at ran
    have same := input.cancelled_run state
    generalize (if input.cancelled then { state with cancelRequested := true } else state) = heard at same ran
    cases fires : termination heard with
    | done _ =>
      simp only [fires] at ran
      cases ran
      refine ⟨0, by rw [same]; rfl, ?_⟩
      rw [same]
      exact stops
    | «continue» =>
      simp only [fires, same] at ran
      split at ran
      next => cases ran
      next outcome run' stepped =>
        have started : TrackedRun count tail
            { state.run with state := { state.run.state with iteration := state.run.state.iteration + 1 } } :=
          ⟨tracked.tracked, tracked.same⟩
        obtain ⟨how, iteration⟩ := step_stepped world source input started stepped
        cases how with
        | closed _ unheard unfinished handled =>
          cases ran
          refine ⟨1, iteration, ?_⟩
          rw [List.take_succ_cons, List.take_zero, lastVisible_cons, after_cons, unheard, List.any_cons,
            unfinished]
          simp only [handled]
          exact stops
        | extracted turns handle' _ _ visible numbered tracked' handled same' ends =>
          have below' : ∀ seen ∈ some turns, ∀ turn ∈ seen, turn.index < (tail.grow count turns.length).seen := by
            intro seen isLast turn member
            cases isLast
            exact (numbered.lt member).trans_le (tail.le_grow count turns.length).2
          by_cases finished : input.finished = true
          · obtain ⟨label, rfl⟩ := ends.mpr finished
            cases ran
            refine ⟨1, iteration, iff_of_true ?_ (.inl ?_)⟩
            · rw [List.take_succ_cons, List.take_zero, lastVisible_cons, visible]
              simp only [handled, if_pos finished]
              exact finish_final world tracked'.live below'
            · rw [List.take_succ_cons, List.any_cons, finished, Bool.true_or]
          · have unfinished : input.finished = false := Bool.eq_false_iff.mpr finished
            rw [if_neg finished] at handled
            cases outcome with
            | done label => exact absurd (ends.mp ⟨label, rfl⟩) finished
            | «continue» label =>
              obtain ⟨k, count', iff_⟩ := ih
                ⟨handled ▸ tracked', by rw [same']⟩ below' ran
              refine ⟨k + 1, ?_, ?_⟩
              · rw [count', iteration]
                simp only
                omega
              · rw [List.take_succ_cons, lastVisible_cons, after_cons, visible, List.any_cons, unfinished,
                  Bool.false_or]
                exact iff_

end Steps

section Batch

variable {count : Nat} {handle : ToolHandle} {request : ExtractionRequest}

variable (world : ExtractorWorld)

theorem batchChunks_frozen (conv : SttConversation) {lastIndex : Nat} (positive : 0 < request.segmentTurnCount)
    {fuel cursor : Nat} (enough : lastIndex < cursor + fuel) (inside : cursor ≤ lastIndex + 1)
    (frozen : FrozenUpTo 0 handle.analysis.segments cursor) :
    ∃ handle', RuleBasedExtractor.batchChunks world request conv lastIndex fuel cursor handle = (.ok (), handle') ∧
      FrozenUpTo 0 handle'.analysis.segments (lastIndex + 1) := by
  induction fuel generalizing cursor handle with
  | zero =>
    obtain rfl : cursor = lastIndex + 1 := by omega
    exact ⟨handle, rfl, frozen⟩
  | succ fuel ih =>
    rw [RuleBasedExtractor.batchChunks]
    by_cases more : cursor ≤ lastIndex
    · have ordered : cursor ≤ min (cursor + request.segmentTurnCount - 1) lastIndex := by omega
      have begins : (handle.analysis.summaryLevels.tail.map SegmentSummary.startTurnIndex).or (some cursor) =
          some cursor := by
        have none_ : handle.analysis.summaryLevels.tail = none := frozen.tail_none
        rw [none_]
        rfl
      have bounded : min (cursor + request.segmentTurnCount - 1) lastIndex ≤ lastIndex := Nat.min_le_right _ _
      generalize min (cursor + request.segmentTurnCount - 1) lastIndex = chunkEnd at ordered bounded ⊢
      obtain ⟨front, tail, opened, starts, ends⟩ := reviseTailSegment_opens (.closed frozen) ordered begins
        (summarizeSegment (RuleBasedExtractor.segmentSlice conv cursor chunkEnd))
        (world.answers handle.ticks).uuid
      have before : FrozenUpTo 0 front (MeetingAnalysis.freeze tail).startTurnIndex := opened.frozen
      have next := before.concat rfl opened.ordered (Nat.zero_le _)
      rw [← opened.finalizeSegment, show (MeetingAnalysis.freeze tail).endTurnIndex = chunkEnd from ends] at next
      simp only [if_pos more, ToolHandle.reviseTailSegment, if_neg (Nat.not_lt.mpr ordered)]
      exact ih (by omega) (by omega) next
    · rw [if_neg more]
      obtain rfl : cursor = lastIndex + 1 := by omega
      exact ⟨handle, rfl, frozen⟩

variable (request) in
theorem batchSegments_frozen (conv : SttConversation) (positive : 0 < request.segmentTurnCount)
    (numbered : Numbered SttTurn.index conv.turns) (frozen : FrozenUpTo 0 handle.analysis.segments 0) :
    ∃ handle', RuleBasedExtractor.batchSegments world request conv conv.turns handle = (.ok (), handle') ∧
      FrozenUpTo 0 handle'.analysis.segments conv.turns.length := by
  rw [RuleBasedExtractor.batchSegments]
  by_cases none_ : conv.turns = []
  · rw [none_]
    exact ⟨handle, rfl, frozen⟩
  · obtain ⟨e, begins, ends, -, -, length, -⟩ := fresh_ends (show Numbered SttTurn.index ([] ++ conv.turns) from
      numbered) none_
    obtain ⟨first, isFirst, firstIndex⟩ := Option.map_eq_some_iff.mp begins
    obtain ⟨last, isLast, rfl⟩ := Option.map_eq_some_iff.mp ends
    rw [List.length_nil] at firstIndex
    obtain ⟨handle', chunked, frozen'⟩ := batchChunks_frozen world conv positive
      (show last.index < 0 + (last.index + 1) by omega) (Nat.zero_le _) frozen
    simp only [isFirst, isLast, firstIndex, Nat.sub_zero, chunked]
    exact ⟨_, rfl, length ▸ frozen'⟩

variable (handle) in
theorem extract_batch (positive : 0 < count) (numbered : Numbered SttTurn.index handle.transcript.turns)
    (frozen : FrozenUpTo 0 handle.analysis.segments 0) :
    ∃ handle', RuleBasedExtractor.extract world
        { window := .all, finalize := true, live := false, segmentTurnCount := count } handle =
          (.ok (), RuleBasedExtractor.finish world handle') ∧
      FrozenUpTo 0 handle'.analysis.segments handle.transcript.turns.length := by
  have window : ExtractionWindow.all.turns handle.transcript = handle.transcript.turns := by
    refine List.filter_eq_self.mpr fun t member => ?_
    have less := numbered.lt member
    have below : t.index < u64Max := (less.trans handle.transcript.fits).trans (by decide)
    simp [ExtractionWindow.all, below]
  rw [RuleBasedExtractor.extract]
  simp only [window, Bool.not_true, Bool.and_false, Bool.false_eq_true, if_false, if_true]
  obtain ⟨acted, appended, -, kept⟩ := appendActions_window handle world handle.transcript handle.transcript.turns
  have frozen' : FrozenUpTo 0 acted.analysis.segments 0 := by
    rw [MeetingAnalysis.segments, kept.levels]
    exact frozen
  obtain ⟨segmented, ran, reached⟩ := batchSegments_frozen
    { window := .all, finalize := true, live := false, segmentTurnCount := count } world
    handle.transcript positive numbered frozen'
  rw [appended]
  simp only [ran]
  exact ⟨segmented, rfl, reached⟩

theorem runLoop_batch (termination : MeetingsLoopState → Termination) (positive : 0 < count)
    (inputs : List LoopInput) {state last : MeetingsLoopState} {reason : String}
    (numbered : Numbered SttTurn.index state.run.handle.transcript.turns)
    (empty : Closed 0 state.run.handle.analysis 0)
    (ran : runLoop world .batch termination count inputs state = (.ok (some reason), last)) :
    ∃ k, last.run.state.iteration = state.run.state.iteration + k ∧
      ReallyFinal last.run.handle.analysis
        (if (inputs.take k).isEmpty then none else some state.run.handle.transcript.turns) := by
  cases inputs with
  | nil => cases ran
  | cons input rest =>
    rw [runLoop] at ran
    have same := input.cancelled_run state
    generalize (if input.cancelled then { state with cancelRequested := true } else state) = heard at same ran
    cases fires : termination heard with
    | done _ =>
      simp only [fires] at ran
      cases ran
      refine ⟨0, by rw [same]; rfl, ?_⟩
      rw [same]
      exact ⟨empty.frozen.frozen, empty.running, by rintro _ ⟨⟩⟩
    | «continue» =>
      obtain ⟨handle', extracted, frozen⟩ := extract_batch state.run.handle world positive numbered empty.frozen
      simp only [fires, same, LoopStrategy.step, BatchExtractionLoop.step, extracted] at ran
      cases stores : input.step.stored with
      | error e =>
        simp only [stores] at ran
        cases ran
      | ok _ =>
        simp only [stores] at ran
        cases ran
        refine ⟨1, rfl, finish_final world (.closed frozen) ?_⟩
        intro turns visible turn member
        cases visible
        exact numbered.lt member

end Batch

theorem reallyFinal_congr {before after : MeetingAnalysis} (levels : after.summaryLevels = before.summaryLevels)
    (lastVisible : Option (List SttTurn)) : ReallyFinal after lastVisible ↔ ReallyFinal before lastVisible := by
  have segments : after.segments = before.segments := congrArg SummaryLevels.segments levels
  constructor
  · rintro ⟨finalized, running, covered⟩
    rw [segments] at finalized running covered
    exact ⟨finalized, levels ▸ running, covered⟩
  · rintro ⟨finalized, running, covered⟩
    rw [← segments] at finalized running covered
    exact ⟨finalized, levels ▸ running, covered⟩

theorem segmentTurnCount_pos (mode : RunMode) : 0 < mode.segmentTurnCount := by
  cases mode with
  | batch => exact Nat.succ_pos 7
  | live count => exact Nat.lt_of_lt_of_le Nat.one_pos (Nat.le_max_right count 1)

theorem startMeeting_closed (count : Nat) (conv : SttConversation) (modelId : String) (now : Int) :
    Closed count (startMeeting conv modelId now).handle.analysis 0 where
  frozen := ⟨rfl, by rintro _ ⟨⟩, by rintro _ ⟨⟩⟩
  running := rfl

theorem loopFrom_final_iff (harness : MeetingsHarness) (answers : RunAnswers) (inputs : List LoopInput)
    (conv : Transcript) {reason : String} {last : MeetingsLoopState}
    (ran : harness.loopFrom answers inputs conv = (.ok (some reason), last)) :
    ReallyFinal last.run.handle.analysis
        (harness.strategy.lastVisible conv (inputs.take last.run.state.iteration)) ↔
      harness.strategy.EndsClosed harness.mode.segmentTurnCount (inputs.take last.run.state.iteration) := by
  have empty (count : Nat) := startMeeting_closed count conv.toSttConversation harness.modelId answers.createdAt
  rw [MeetingsHarness.loopFrom] at ran
  cases strategy : harness.strategy with
  | batch =>
    rw [strategy] at ran
    obtain ⟨k, taken, final⟩ := runLoop_batch harness.world harness.termination
      (segmentTurnCount_pos harness.mode) inputs conv.numbered (empty 0) ran
    rw [taken, show (startMeeting _ _ _).state.iteration = 0 from rfl, Nat.zero_add]
    exact iff_of_true final trivial
  | streaming source =>
    rw [strategy] at ran
    have tracked : TrackedRun harness.mode.segmentTurnCount { start := 0, seen := 0 }
        (startMeeting conv.toSttConversation harness.modelId answers.createdAt) :=
      ⟨⟨rfl, empty _⟩, rfl⟩
    have unseen : ∀ turns ∈ (none : Option (List SttTurn)), ∀ turn ∈ turns, turn.index < 0 := by rintro _ ⟨⟩
    obtain ⟨k, taken, final⟩ :=
      runLoop_streaming harness.world source harness.termination inputs tracked unseen ran
    rw [taken, show (startMeeting _ _ _).state.iteration = 0 from rfl, Nat.zero_add]
    rw [Option.or_none] at final
    exact final

/-- Of the runs that return, the analysis is really final in those whose loop did not stop over an open segment. -/
theorem final_analysis_iff (harness : MeetingsHarness) (answers : RunAnswers) (inputs : List LoopInput)
    (sourceConversationId : String) {analysis : MeetingAnalysis}
    (returned : harness.run answers inputs sourceConversationId = .ok (some analysis)) :
    analysis.state = .final ∧ ∃ conv, answers.transcript = .ok (some conv) ∧
      (ReallyFinal analysis (harness.strategy.lastVisible conv (harness.took answers inputs)) ↔
        harness.strategy.EndsClosed harness.mode.segmentTurnCount (harness.took answers inputs)) := by
  rw [MeetingsHarness.run] at returned
  split at returned
  next => cases returned
  next => cases returned
  next conv found =>
    rw [MeetingsHarness.took, found]
    split at returned
    next => cases returned
    next =>
      split at returned
      next => cases returned
      next => cases returned
      next reason last ran =>
        split at returned
        next => cases returned
        next =>
          cases returned
          simp only [ran]
          refine ⟨rfl, conv, rfl, ?_⟩
          rw [← loopFrom_final_iff harness answers inputs conv ran]
          apply reallyFinal_congr
          rfl

def oneTurn : Transcript where
  toSttConversation := kickoff [spoken 0 "hi"]
  numbered := by
    intro i turn found
    match i with
    | 0 =>
      cases found
      rfl
    | i + 1 => cases found

def liveHarness (count : Nat) (termination : MeetingsLoopState → Termination) : MeetingsHarness where
  modelId := "model"
  mode := .live count
  initialBudget := 100
  strategy := .streaming "call"
  termination := termination
  world := quietExtractor

def storesAnswer : RunAnswers where
  transcript := .ok (some oneTurn)
  createdAt := 0
  pendingStored := .ok ()
  finishedAt := 0
  finalStored := .ok ()

def hears (cancelled : Bool) (event : Except RecvError SttHarnessEvent) : LoopInput where
  cancelled := cancelled
  received := some event
  loaded := .ok (some oneTurn)
  stored := .ok ()
  now := 0

theorem final_analysis_iff_full :
    ∃ analysis, (liveHarness 1 StreamEndTermination.shouldTerminate).run storesAnswer
        [hears false (.ok .other), hears false (.error .closed)] "call" = .ok (some analysis) ∧
      ReallyFinal analysis (some [spoken 0 "hi"]) := by
  obtain ⟨analysis, ran⟩ : ∃ analysis, (liveHarness 1 StreamEndTermination.shouldTerminate).run storesAnswer
      [hears false (.ok .other), hears false (.error .closed)] "call" = .ok (some analysis) := ⟨_, rfl⟩
  obtain ⟨-, conv, found, iff_⟩ := final_analysis_iff (liveHarness 1 StreamEndTermination.shouldTerminate)
    storesAnswer [hears false (.ok .other), hears false (.error .closed)] "call" ran
  cases found
  exact ⟨analysis, ran, iff_.mpr (.inr rfl)⟩

def LeavesOpen (termination : MeetingsLoopState → Termination) (inputs : List LoopInput) : Prop :=
  ∃ analysis, (liveHarness 8 termination).run storesAnswer inputs "call" = .ok (some analysis) ∧
    analysis.state = .final ∧
    ¬ ReallyFinal analysis
      ((liveHarness 8 termination).strategy.lastVisible oneTurn ((liveHarness 8 termination).took storesAnswer inputs))

theorem leavesOpen {termination : MeetingsLoopState → Termination} {inputs : List LoopInput}
    {analysis : MeetingAnalysis} {segment : SegmentSummary}
    (ran : (liveHarness 8 termination).run storesAnswer inputs "call" = .ok (some analysis))
    (state : analysis.state = .final) (only : analysis.segments = [segment]) (open_ : segment.finalized = false) :
    LeavesOpen termination inputs := by
  refine ⟨analysis, ran, state, fun final => ?_⟩
  have frozen := final.finalized segment (by rw [only]; exact List.mem_singleton_self segment)
  rw [open_] at frozen
  cases frozen

/-- A closed stream, a cancellation and a cap on the iterations all end the run over the open segment. -/
theorem final_analysis_open :
    LeavesOpen StreamEndTermination.shouldTerminate [hears false (.ok .other), hears false (.error .closed)] ∧
      LeavesOpen StreamEndTermination.shouldTerminate [hears false (.ok .other), hears true (.ok .other)] ∧
      LeavesOpen (CompositeTermination.shouldTerminate
          [BudgetTermination.shouldTerminate, IterationCapTermination.shouldTerminate 1])
        [hears false (.ok .other), hears false (.ok .other)] :=
  ⟨leavesOpen rfl rfl rfl rfl, leavesOpen rfl rfl rfl rfl, leavesOpen rfl rfl rfl rfl⟩

end AtomrAgents.Meetings
