import AtomrAgents.Meetings.LiveRecord

set_option autoImplicit false

/-! A run of the streaming loop takes bursts of any size and ends with the last step after `Finished`. The
transcript only grows at its end meanwhile. -/

namespace AtomrAgents

open Shared

section Steps

-- A step that is not the last one: an event or a lag, and the transcript as it is by then.
structure Burst where
  lagged : Bool
  loaded : Option SttConversation

def visible (loaded : Option SttConversation) : List SttTurn := (loaded.map SttConversation.turns).getD []

def Burst.input (burst : Burst) : StepInput where
  received := some (if burst.lagged then .error .lagged else .ok .other)
  loaded := .ok burst.loaded
  stored := .ok ()

def finishedInput (loaded : Option SttConversation) : StepInput where
  received := some (.ok .finished)
  loaded := .ok loaded
  stored := .ok ()

structure RunRecord (count : Nat) (turns : List SttTurn) (run : MeetingsRun) : Prop where
  record : LiveRecord count turns run.handle.analysis
  same : run.state.analysis.lastProcessedTurnIndex = run.handle.analysis.lastProcessedTurnIndex

structure FinishedRecord (count : Nat) (turns : List SttTurn) (analysis : MeetingAnalysis) : Prop where
  notes : analysis.notes.map Note.content = (turns.filter SttTurn.hasText).map SttTurn.noteContent
  watermark : analysis.lastProcessedTurnIndex = turns.getLast?.map SttTurn.index
  segments : Sealed count analysis turns.length
  running : analysis.summaryLevels.running =
    some ("\n\n".intercalate (analysis.segments.map SegmentSummary.text))

variable {count : Nat} {old : List SttTurn} {run : MeetingsRun} {loaded : Option SttConversation}

variable (world : ExtractorWorld) (source : String)

theorem turns_getD (loaded : Option SttConversation) :
    (loaded.getD (SttConversation.new source)).turns = visible loaded := by
  cases loaded <;> rfl

variable {received : Option (Except RecvError SttHarnessEvent)} {finalize : Bool} {label : String}

variable (received) in
theorem step_record (hears : StreamingExtractionLoop.heard received = some (finalize, label))
    (record : RunRecord count old run) (grown : old <+: visible loaded)
    (numbered : Numbered SttTurn.index (visible loaded)) :
    ∃ handle' run', StreamingExtractionLoop.step world count source
        { received, loaded := .ok loaded, stored := .ok () } run =
          (.ok (if finalize then .done label else .«continue» label), run') ∧
      LiveRecord count (visible loaded) handle'.analysis ∧
      run'.handle = (if finalize then RuleBasedExtractor.finish world handle' else handle') ∧
      run'.state.analysis = run'.handle.analysis := by
  obtain ⟨fresh, extended⟩ := grown
  rw [← turns_getD source loaded] at extended numbered
  have watermark : (if run.state.iteration = 1 then
      { run.state with analysis := { run.state.analysis with state := .streaming } }
      else run.state).analysis.lastProcessedTurnIndex = run.handle.analysis.lastProcessedTurnIndex := by
    split <;> exact record.same
  obtain ⟨handle', extracted, record'⟩ := extract_grow
    { run.handle with transcript := loaded.getD (SttConversation.new source) } world finalize record.record
    extended.symm numbered
  rw [extended, turns_getD] at record'
  apply Exists.intro handle'
  apply Exists.intro
  refine ⟨?_, record', ?_, ?_⟩
  · rw [StreamingExtractionLoop.step]
    simp only [hears, watermark]
    rw [extracted]
  · rfl
  · rfl

theorem step_burst (burst : Burst) (record : RunRecord count old run) (grown : old <+: visible burst.loaded)
    (numbered : Numbered SttTurn.index (visible burst.loaded)) :
    ∃ label run', StreamingExtractionLoop.step world count source burst.input run =
      (.ok (.«continue» label), run') ∧ RunRecord count (visible burst.loaded) run' := by
  obtain ⟨label, hears⟩ : ∃ label,
      StreamingExtractionLoop.heard burst.input.received = some (false, label) := by
    rw [Burst.input]
    cases burst.lagged with
    | true => exact ⟨"lagged", rfl⟩
    | false => exact ⟨"burst", rfl⟩
  obtain ⟨handle', run', stepped, record', handled, same⟩ :=
    step_record world source _ hears record grown numbered
  rw [if_neg Bool.false_ne_true] at handled
  refine ⟨label, run', stepped, ?_, ?_⟩
  · rw [handled]
    exact record'
  · rw [same]

theorem step_finished (record : RunRecord count old run) (grown : old <+: visible loaded)
    (numbered : Numbered SttTurn.index (visible loaded)) :
    ∃ run', StreamingExtractionLoop.step world count source (finishedInput loaded) run =
      (.ok (.done "finished"), run') ∧ FinishedRecord count (visible loaded) run'.handle.analysis := by
  obtain ⟨handle', run', stepped, record', handled, -⟩ :=
    step_record world source (some (.ok .finished)) rfl record grown numbered
  obtain ⟨frozen, notes, watermark, running⟩ := finish_spec world record'.segments
  rw [if_pos rfl] at handled
  refine ⟨run', stepped, ⟨?_, ?_, ?_, ?_⟩⟩ <;> rw [handled]
  · rw [notes]
    exact record'.notes
  · rw [watermark]
    exact record'.watermark
  · exact frozen
  · exact running

theorem runSteps_append {inputs : List StepInput} {run' : MeetingsRun}
    (ran : StreamingExtractionLoop.runSteps world count source inputs run = (.ok none, run'))
    (more : List StepInput) :
    StreamingExtractionLoop.runSteps world count source (inputs ++ more) run =
      StreamingExtractionLoop.runSteps world count source more run' := by
  induction inputs generalizing run with
  | nil =>
    cases ran
    rfl
  | cons input rest ih =>
    rw [List.cons_append, StreamingExtractionLoop.runSteps]
    rw [StreamingExtractionLoop.runSteps] at ran
    split at ran
    next => cases ran
    next => cases ran
    next => exact ih ran

theorem bursts_run (bursts : List Burst) (record : RunRecord count old run)
    (growing : (old :: bursts.map fun burst => visible burst.loaded).Pairwise (· <+: ·))
    (numbered : ∀ burst ∈ bursts, Numbered SttTurn.index (visible burst.loaded)) :
    ∃ run', StreamingExtractionLoop.runSteps world count source (bursts.map Burst.input) run = (.ok none, run') ∧
      RunRecord count ((bursts.map fun burst => visible burst.loaded).getLastD old) run' := by
  induction bursts generalizing old run with
  | nil => exact ⟨run, rfl, record⟩
  | cons burst rest ih =>
    rw [List.map_cons, List.pairwise_cons] at growing
    have started : RunRecord count old
        { run with state := { run.state with iteration := run.state.iteration + 1 } } :=
      ⟨record.record, record.same⟩
    obtain ⟨label, next, stepped, record'⟩ := step_burst world source burst started
      (growing.1 _ List.mem_cons_self) (numbered burst List.mem_cons_self)
    obtain ⟨run', ran, last⟩ := ih record' growing.2
      fun other member => numbered other (List.mem_cons_of_mem burst member)
    refine ⟨run', ?_, ?_⟩
    · rw [List.map_cons, StreamingExtractionLoop.runSteps, stepped]
      exact ran
    · rw [List.map_cons, List.getLastD_cons]
      exact last

theorem startMeeting_record (conv : SttConversation) (modelId : String) (now : Int) :
    RunRecord count [] (startMeeting conv modelId now) where
  record := {
    notes := rfl
    watermark := rfl
    segments := .closed ⟨rfl, by rintro _ ⟨⟩, by rintro _ ⟨⟩⟩ }
  same := rfl

theorem getLastD_prefix {front rest : List (List SttTurn)} (growing : (front ++ rest).Pairwise (· <+: ·)) :
    front.getLastD [] <+: (front ++ rest).getLastD [] := by
  cases rest using List.reverseRecOn with
  | nil => simpa only [List.append_nil] using List.prefix_rfl
  | append_singleton rest last _ =>
    cases front using List.reverseRecOn with
    | nil => exact List.nil_prefix
    | append_singleton front here _ =>
      rw [List.getLastD_concat, ← List.append_assoc, List.getLastD_concat]
      exact (List.pairwise_append.mp growing).2.2 here (by simp) last (by simp)

theorem watermark_le {turns later : List SttTurn} (grown : turns <+: later)
    (numbered : Numbered SttTurn.index later) :
    ∀ w ∈ turns.getLast?.map SttTurn.index, ∃ w' ∈ later.getLast?.map SttTurn.index, w ≤ w' := by
  intro w processed
  obtain ⟨turn, last, rfl⟩ := Option.map_eq_some_iff.mp processed
  have ends := (numbered.of_prefix grown).getLast last
  have longer := grown.length_le
  cases last' : later.getLast? with
  | none =>
    rw [List.getLast?_eq_none_iff.mp last'] at longer
    rw [List.length_nil] at longer
    omega
  | some turn' =>
    have ends' := numbered.getLast last'
    exact ⟨turn'.index, rfl, by omega⟩

section Run

variable (conv : SttConversation) (modelId : String) (now : Int) (count) {bursts : List Burst}
  {last : Option SttConversation}

def loadedTurns (bursts : List Burst) (last : Option SttConversation) : List (List SttTurn) :=
  (bursts.map fun burst => visible burst.loaded) ++ [visible last]

def liveInputs (bursts : List Burst) (last : Option SttConversation) : List StepInput :=
  bursts.map Burst.input ++ [finishedInput last]

def liveRun (inputs : List StepInput) : Except MeetingsHarnessError (Option String) × MeetingsRun :=
  StreamingExtractionLoop.runSteps world count source inputs (startMeeting conv modelId now)

variable (growing : (loadedTurns bursts last).Pairwise (· <+: ·))
  (numbered : Numbered SttTurn.index (visible last))

include growing numbered

theorem live_bursts (k : Nat) (early : k ≤ bursts.length) :
    ∃ run', liveRun count world source conv modelId now ((liveInputs bursts last).take k) = (.ok none, run') ∧
      RunRecord count (((loadedTurns bursts last).take k).getLastD []) run' := by
  have grown : ∀ burst ∈ bursts, visible burst.loaded <+: visible last := fun burst member =>
    (List.pairwise_append.mp growing).2.2 _ (List.mem_map_of_mem member) _ (by simp)
  have first : ([] :: (bursts.take k).map fun burst => visible burst.loaded).Pairwise (· <+: ·) := by
    rw [List.pairwise_cons, List.map_take]
    exact ⟨fun _ _ => List.nil_prefix,
      (List.pairwise_append.mp growing).1.sublist (List.take_sublist k _)⟩
  rw [liveInputs, loadedTurns, List.take_append_of_le_length (by simpa using early),
    List.take_append_of_le_length (by simpa using early), ← List.map_take, ← List.map_take]
  exact bursts_run world source (bursts.take k) (startMeeting_record conv modelId now) first
    fun burst member => numbered.of_prefix (grown burst (List.mem_of_mem_take member))

theorem live_finished :
    ∃ run', liveRun count world source conv modelId now (liveInputs bursts last) = (.ok (some "finished"), run') ∧
      FinishedRecord count (visible last) run'.handle.analysis := by
  obtain ⟨before, ran, record⟩ := live_bursts count world source conv modelId now growing numbered
    bursts.length le_rfl
  have grown : (((loadedTurns bursts last).take bursts.length).getLastD []) <+: visible last := by
    have split : (loadedTurns bursts last).take bursts.length ++ (loadedTurns bursts last).drop bursts.length =
        loadedTurns bursts last := List.take_append_drop _ _
    have front := getLastD_prefix (split.symm ▸ growing)
    rw [split, loadedTurns, List.getLastD_concat] at front
    exact front
  have started : RunRecord count (((loadedTurns bursts last).take bursts.length).getLastD [])
      { before with state := { before.state with iteration := before.state.iteration + 1 } } :=
    ⟨record.record, record.same⟩
  obtain ⟨run', stepped, finished⟩ := step_finished world source started grown numbered
  refine ⟨run', ?_, finished⟩
  have inputs : (liveInputs bursts last).take bursts.length = bursts.map Burst.input := by
    rw [liveInputs, List.take_left' (by simp)]
  rw [inputs] at ran
  rw [liveRun, liveInputs, runSteps_append world source ran, StreamingExtractionLoop.runSteps, stepped]

theorem live_watermark (k : Nat) :
    (liveRun count world source conv modelId now
      ((liveInputs bursts last).take k)).2.handle.analysis.lastProcessedTurnIndex =
      (((loadedTurns bursts last).take k).getLastD []).getLast?.map SttTurn.index := by
  rcases Nat.lt_or_ge bursts.length k with all | early
  · obtain ⟨run', ran, finished⟩ := live_finished count world source conv modelId now growing numbered
    rw [List.take_of_length_le (by simp [liveInputs]; omega), ran, finished.watermark,
      List.take_of_length_le (by simp [loadedTurns]; omega), loadedTurns, List.getLastD_concat]
  · obtain ⟨run', ran, record⟩ := live_bursts count world source conv modelId now growing numbered k early
    rw [ran, record.record.watermark]

/-- From bursts of any kind and a last step after `Finished`, whatever the transcripts grow by, the record has
each turn once, and its segments tile the turns. -/
theorem live_extraction :
    (∃ run', liveRun count world source conv modelId now (liveInputs bursts last) = (.ok (some "finished"), run') ∧
      FinishedRecord count (visible last) run'.handle.analysis) ∧
    ∀ k l, k ≤ l →
      ∀ w ∈ (liveRun count world source conv modelId now
        ((liveInputs bursts last).take k)).2.handle.analysis.lastProcessedTurnIndex,
      ∃ w' ∈ (liveRun count world source conv modelId now
        ((liveInputs bursts last).take l)).2.handle.analysis.lastProcessedTurnIndex, w ≤ w' := by
  refine ⟨live_finished count world source conv modelId now growing numbered, ?_⟩
  intro k l later
  rw [live_watermark count world source conv modelId now growing numbered,
    live_watermark count world source conv modelId now growing numbered]
  have split : (loadedTurns bursts last).take l ++ (loadedTurns bursts last).drop l = loadedTurns bursts last :=
    List.take_append_drop _ _
  have upTo := getLastD_prefix (split.symm ▸ growing)
  rw [split] at upTo
  nth_rewrite 2 [loadedTurns] at upTo
  rw [List.getLastD_concat] at upTo
  obtain ⟨rest, extended⟩ := List.take_prefix_take_left (l := loadedTurns bursts last) later
  have between : ((loadedTurns bursts last).take l).Pairwise (· <+: ·) :=
    growing.sublist (List.take_sublist l _)
  have grown := getLastD_prefix (extended.symm ▸ between)
  rw [extended] at grown
  exact watermark_le grown (numbered.of_prefix upTo)

end Run

end Steps

def quietExtractor : ExtractorWorld where
  toLowercase := id
  commitmentRe := fun _ => []
  answers := fun _ => { now := 0, uuid := "u" }

def spoken (index : Nat) (text : String) : SttTurn where
  index := index
  speaker := .diarized { id := 0, label := none }
  text := text
  startMs := 0
  endMs := 0

def kickoff (turns : List SttTurn) (fits : turns.length < 2 ^ 63 := by decide) : SttConversation where
  id := "call"
  turns := turns
  speakerLabels := fun _ => none
  fits := fits

theorem numbered_three (first second third : String) :
    Numbered SttTurn.index [spoken 0 first, spoken 1 second, spoken 2 third] := by
  intro i turn found
  match i with
  | 0 | 1 | 2 =>
    cases found
    rfl
  | i + 3 => cases found

theorem live_extraction_kickoff :
    ∃ run', liveRun 2 quietExtractor "call" (kickoff []) "model" 0
        (liveInputs [⟨false, some (kickoff [spoken 0 "hi"])⟩, ⟨true, some (kickoff [spoken 0 "hi"])⟩]
          (some (kickoff [spoken 0 "hi", spoken 1 "", spoken 2 "bye"]))) = (.ok (some "finished"), run') ∧
      FinishedRecord 2 [spoken 0 "hi", spoken 1 "", spoken 2 "bye"] run'.handle.analysis := by
  have growing : (loadedTurns
      [⟨false, some (kickoff [spoken 0 "hi"])⟩, ⟨true, some (kickoff [spoken 0 "hi"])⟩]
      (some (kickoff [spoken 0 "hi", spoken 1 "", spoken 2 "bye"]))).Pairwise (· <+: ·) := by
    simp [loadedTurns, visible, kickoff]
  exact (live_extraction 2 quietExtractor "call" (kickoff []) "model" 0 growing
    (numbered_three "hi" "" "bye")).1

end AtomrAgents
