import AtomrAgents.Stt.Harness

set_option autoImplicit false

namespace AtomrAgents.Stt

open Shared

def interimOf : StreamEvent → Option InterimBuf
  | .interim text startMs endMs words => some { text, startMs, endMs, words }
  | _ => none

def commits : StreamEvent → Bool
  | .final _ | .utteranceEnd _ => true
  | _ => false

def speakerOf : StreamEvent → Option SpeakerTag
  | .speakerTurn speaker _ => some speaker
  | _ => none

-- The last interim text, unless something was committed since.
def openAfter (front : List StreamEvent) : Option InterimBuf :=
  (front.reverse.find? fun event => (interimOf event).isSome || commits event).bind interimOf

def speakerAfter (front : List StreamEvent) : Option SpeakerTag := front.reverse.findSome? speakerOf

def finalTurn (index : Nat) (speaker : SpeakerRef) (segment : Segment) : CommittedTurn where
  index := index
  speaker := speaker
  text := segment.text
  startMs := segment.startMs
  endMs := segment.endMs
  words := segment.words
  confidence := segment.confidence

def utterance (resolve : Segment → Segment) (opened : Option InterimBuf) (speaker : Option SpeakerTag)
    (index : Nat) : StreamEvent → Option CommittedTurn
  | .final segment => some (finalTurn index (speakerRef ((resolve segment).speaker.or speaker)) segment)
  | .utteranceEnd _ =>
    opened.map fun buf =>
      { index, speaker := speakerRef speaker
        text := buf.text, startMs := buf.startMs, endMs := buf.endMs, words := buf.words, confidence := none }
  | _ => none

def turnsFrom (resolve : Segment → Segment) (front : List StreamEvent) (index : Nat) :
    List StreamEvent → List CommittedTurn
  | [] => []
  | event :: rest =>
    match utterance resolve (openAfter front) (speakerAfter front) index event with
    | none => turnsFrom resolve (front ++ [event]) index rest
    | some turn => turn :: turnsFrom resolve (front ++ [event]) (index + 1) rest

def turnsOf (resolve : Segment → Segment) (events : List StreamEvent) : List CommittedTurn :=
  turnsFrom resolve [] 0 events

-- Without a layered diarizer the speakers of the segments do not depend on the audio.
def DiarizationPolicy.resolve : DiarizationPolicy → Segment → Segment
  | .off, segment => { segment with speaker := none }
  | _, segment => segment

def DiarizationPolicy.isLayered : DiarizationPolicy → Bool
  | .layered _ => true
  | _ => false

def CommittedTurn.unattributed (turn : CommittedTurn) : CommittedTurn := { turn with speaker := .unknown }

variable {resolve : Segment → Segment} {f : CommittedTurn → CommittedTurn} {run next : SttRun}
  {coalesce : VoiceMode} {event : StreamEvent}

theorem turnsFrom_concat (events front : List StreamEvent) (index : Nat) :
    turnsFrom resolve front index (events ++ [event]) =
      turnsFrom resolve front index events ++
        (utterance resolve (openAfter (front ++ events)) (speakerAfter (front ++ events))
          (index + (turnsFrom resolve front index events).length) event).toList := by
  induction events generalizing front index with
  | nil =>
    simp only [List.nil_append, turnsFrom, List.append_nil, List.length_nil, Nat.add_zero]
    split
    · next nothing => rw [nothing, Option.toList_none]
    · next turn said => rw [said, Option.toList_some]
  | cons first events ih =>
    rw [List.cons_append, turnsFrom, turnsFrom]
    split
    · rw [ih, List.append_assoc, List.singleton_append]
    · rw [ih, List.append_assoc, List.singleton_append, List.length_cons, List.cons_append]
      have shifted : index + 1 + (turnsFrom resolve (front ++ [first]) (index + 1) events).length =
          index + ((turnsFrom resolve (front ++ [first]) (index + 1) events).length + 1) := by omega
      rw [shifted]

theorem turnsOf_concat (events : List StreamEvent) :
    turnsOf resolve (events ++ [event]) = turnsOf resolve events ++
      (utterance resolve (openAfter events) (speakerAfter events) (turnsOf resolve events).length event).toList := by
  simpa [turnsOf] using turnsFrom_concat events [] 0

theorem openAfter_concat (events : List StreamEvent) :
    openAfter (events ++ [event]) = if commits event then none else (interimOf event).or (openAfter events) := by
  rw [openAfter, List.reverse_append, List.reverse_singleton, List.singleton_append, List.find?_cons]
  cases event <;> rfl

theorem speakerAfter_concat (events : List StreamEvent) :
    speakerAfter (events ++ [event]) = (speakerOf event).or (speakerAfter events) := by
  rw [speakerAfter, List.reverse_append, List.reverse_singleton, List.singleton_append, List.findSome?_cons]
  cases event <;> rfl

structure StreamView where
  turns : List CommittedTurn
  opened : Option InterimBuf
  speaker : Option SpeakerTag

def streamView (f : CommittedTurn → CommittedTurn) (run : SttRun) : StreamView where
  turns := run.state.conversation.turns.map f
  opened := run.state.conversation.openPartial
  speaker := run.state.conversation.currentSpeaker

def StreamView.apply (f : CommittedTurn → CommittedTurn) (resolve : Segment → Segment) (view : StreamView)
    (event : StreamEvent) : StreamView where
  turns := view.turns ++ ((utterance resolve view.opened view.speaker view.turns.length event).map f).toList
  opened := if commits event then none else (interimOf event).or view.opened
  speaker := (speakerOf event).or view.speaker

theorem foldl_apply (events : List StreamEvent) :
    events.foldl (StreamView.apply f resolve) { turns := [], opened := none, speaker := none } =
      { turns := (turnsOf resolve events).map f, opened := openAfter events, speaker := speakerAfter events } := by
  induction events using List.reverseRecOn with
  | nil => rfl
  | append_singleton events event ih =>
    rw [List.foldl_append, ih, List.foldl_cons, List.foldl_nil, StreamView.apply, openAfter_concat,
      speakerAfter_concat, turnsOf_concat, List.map_append, List.length_map]
    cases utterance resolve (openAfter events) (speakerAfter events) (turnsOf resolve events).length event <;> rfl

theorem policy_drainPcm (stage : DiarizationStage) : stage.drainPcm.policy = stage.policy := by
  have general : ∀ (buffers : List PcmBuffer) (stage : DiarizationStage), (buffers.foldl (fun stage pcm =>
      { stage with
        sampleRate := if 0 < pcm.sampleRate then pcm.sampleRate else stage.sampleRate
        accum := stage.accum ++ pcm.samples }) stage).policy = stage.policy := by
    intro buffers
    induction buffers with
    | nil => exact fun _ => rfl
    | cons pcm buffers ih => exact fun stage => ih _
  exact general _ _

theorem applySpansToSegment_eq (segment : Segment) (spans : List DiarizationSpan) (utteranceMs : Nat) :
    applySpansToSegment segment spans utteranceMs =
      { segment with speaker := (applySpansToSegment segment spans utteranceMs).speaker } := by
  cases spans <;> rfl

theorem resolveSegment_ok {stage stage' : DiarizationStage} {segment resolved : Segment}
    (ok : stage.resolveSegment segment = .ok (stage', resolved)) :
    stage'.policy = stage.policy ∧ resolved = { segment with speaker := resolved.speaker } ∧
      (stage.policy.isLayered = false → resolved.speaker = (stage.policy.resolve segment).speaker) := by
  rw [DiarizationStage.resolveSegment] at ok
  split at ok
  · next off =>
    cases ok
    exact ⟨rfl, rfl, fun _ => by rw [off]; rfl⟩
  · next backend =>
    cases ok
    exact ⟨rfl, rfl, fun _ => by rw [backend]; rfl⟩
  · next diarizer layered =>
    dsimp only at ok
    split at ok
    · cases ok
    · next spans _ =>
      cases ok
      refine ⟨policy_drainPcm stage, applySpansToSegment_eq _ _ _, fun plain => ?_⟩
      simp [layered, DiarizationPolicy.isLayered] at plain

def Blind (policy : DiarizationPolicy) (f : CommittedTurn → CommittedTurn) : Prop :=
  policy.isLayered = true → ∀ turn speaker, f { turn with speaker } = f turn

theorem streamView_fold {policy : DiarizationPolicy} (blind : Blind policy f) (same : run.stage.policy = policy)
    (folded : run.fold coalesce event = .ok next) :
    next.stage.policy = policy ∧
      streamView f next = (streamView f run).apply f policy.resolve event := by
  cases event with
  | interim text startMs endMs words =>
    cases coalesce with
    | live | turnBased =>
      cases folded
      exact ⟨same, by simp [streamView, StreamView.apply, utterance, commits, interimOf, speakerOf, SttRun.emit,
        SttRun.setConversation, Conversation.applyPartial, Conversation.bumpAudio]⟩
  | final segment =>
    rw [SttRun.fold] at folded
    split at folded
    · cases folded
    · next stage resolved ok =>
      obtain ⟨kept, only, plain⟩ := resolveSegment_ok ok
      cases folded
      refine ⟨kept.trans same, ?_⟩
      have told : f (run.state.conversation.segmentTurn resolved) =
          f (finalTurn run.state.conversation.turns.length
            (speakerRef ((policy.resolve segment).speaker.or run.state.conversation.currentSpeaker)) segment) := by
        rw [only]
        cases layered : policy.isLayered with
        | true => exact blind layered (finalTurn _ _ segment) _
        | false =>
          rw [same] at plain
          rw [plain layered]
          rfl
      simp [streamView, StreamView.apply, utterance, commits, speakerOf, SttRun.emit, SttRun.commit,
        SttRun.setConversation, Conversation.bumpAudio, told]
  | speakerTurn speaker atMs =>
    cases folded
    exact ⟨same, by simp [streamView, StreamView.apply, utterance, commits, interimOf, speakerOf, SttRun.emit,
      SttRun.setConversation, Conversation.noteSpeakerChange]⟩
  | utteranceEnd atMs =>
    rw [SttRun.fold, Conversation.closeOpenTurn] at folded
    cases opened : run.state.conversation.openPartial with
    | none =>
      simp only [opened] at folded
      cases folded
      exact ⟨same, by simp [streamView, StreamView.apply, utterance, commits, speakerOf, SttRun.emit, opened]⟩
    | some buf =>
      simp only [opened] at folded
      cases folded
      exact ⟨same, by simp [streamView, StreamView.apply, utterance, commits, speakerOf, SttRun.emit, opened,
        SttRun.commit, SttRun.setConversation, Conversation.interimTurn, Conversation.bumpAudio]⟩
  | metadata data =>
    cases folded
    exact ⟨same, by simp [streamView, StreamView.apply, utterance, commits, interimOf, speakerOf, SttRun.emit]⟩

namespace SttHarness

variable {harness : SttHarness}

theorem views (blind : Blind harness.policy f) :
    BurstLoop.Views harness.body (fun run => run.stage.policy = harness.policy) (streamView f)
      (StreamView.apply f harness.policy.resolve) where
  keeps := by
    refine ⟨fun s reason t same stops => ?_, fun s same => same, fun s event t same folded => ?_,
      fun s same => same, fun s same => same, fun s pcm same => ?_⟩
    · simp only [body] at stops
      split at stops
      · cases stops
      · cases stops
        exact same
    · exact (streamView_fold blind same folded).1
    · simp only [body, DiarizationStage.forward]
      split <;> exact same
  stop s reason t stops := by
    simp only [body] at stops
    split at stops
    · cases stops
    · cases stops
      rfl
  enter s := rfl
  fold s event t same folded := (streamView_fold blind same folded).2
  leave s := rfl
  ended s := rfl
  feed s pcm := rfl

/-- A run that reached the end of the stream, however its events came: the turns are those of all the events that
were forwarded. A layered diarizer decides no more than their speakers. -/
theorem turns_of_stream (harness : SttHarness) (id backend : String) (support : DiarizationSupport) (budget : Nat)
    (schedule : Schedule)
    (ended : (harness.after (harness.initial id backend support budget) schedule).phase = .finished .streamEnd) :
    ∃ events : List StreamEvent, BurstLoop.sent schedule = events.map .ok ∧
      let turns := (harness.after (harness.initial id backend support budget) schedule).state.state.conversation.turns
      turns.map CommittedTurn.unattributed =
          (turnsOf harness.policy.resolve events).map CommittedTurn.unattributed ∧
        (harness.policy.isLayered = false → turns = turnsOf harness.policy.resolve events) := by
  have caps : ∀ s r t, harness.body.stop s = some (r, t) → ¬r = .streamEnd := by
    intro s r t stops
    simp only [body] at stops
    split at stops
    · cases stops
    · cases stops
      exact RunEnd.noConfusion
  have done : (BurstLoop.after harness.body (harness.initial id backend support budget) schedule).phase =
      .finished .streamEnd := ended
  have seen (f : CommittedTurn → CommittedTurn) (blind : Blind harness.policy f) :
      ∃ events : List StreamEvent, BurstLoop.sent schedule = events.map .ok ∧
        (harness.after (harness.initial id backend support budget) schedule).state.state.conversation.turns.map f =
          (turnsOf harness.policy.resolve events).map f := by
    obtain ⟨events, came, view⟩ := BurstLoop.view_ended (views blind) caps rfl done rfl
    have began : streamView f (harness.initial id backend support budget) =
        { turns := [], opened := none, speaker := none } := rfl
    rw [began, foldl_apply] at view
    exact ⟨events, came, congrArg StreamView.turns view⟩
  obtain ⟨events, came, bare⟩ := seen CommittedTurn.unattributed fun _ _ _ => rfl
  refine ⟨events, came, bare, fun plain => ?_⟩
  obtain ⟨events', came', exactly⟩ := seen (fun turn => turn) fun layered => by
    rw [plain] at layered
    cases layered
  have same : events' = events :=
    List.map_injective_iff.mpr (fun _ _ => Except.ok.inj) (came'.symm.trans came)
  simpa [same] using exactly

def liveHarness : SttHarness where
  coalesce := .live
  policy := .backend
  termination := SttTermination.streamEnd

-- A text that is still open when the utterance ends; the loop takes both events in one burst.
def helloSchedule : Schedule :=
  [.send (.ok (.interim "hello" 0 100 [])), .turn, .turn, .send (.ok (.utteranceEnd 100)), .turn, .turn, .turn, .turn,
    .turn, .close, .turn, .turn]

theorem turns_of_stream_hello : ∃ events : List StreamEvent, BurstLoop.sent helloSchedule = events.map .ok ∧
    (liveHarness.after (liveHarness.initial "c" "mock" .none 0) helloSchedule).state.state.conversation.turns =
      turnsOf DiarizationPolicy.backend.resolve events := by
  obtain ⟨events, came, -, turns⟩ := turns_of_stream liveHarness "c" "mock" .none 0 helloSchedule rfl
  exact ⟨events, came, turns rfl⟩

end SttHarness

end AtomrAgents.Stt
