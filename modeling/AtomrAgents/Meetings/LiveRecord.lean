import AtomrAgents.Meetings.Extractor
import AtomrAgents.Meetings.Ledger
import AtomrAgents.Shared.Tiling

set_option autoImplicit false

namespace AtomrAgents

open Shared

def SegmentSummary.bounds (segment : SegmentSummary) : Nat × Nat := (segment.startTurnIndex, segment.endTurnIndex)

def SegmentSummary.span (segment : SegmentSummary) : Nat := segment.endTurnIndex - segment.startTurnIndex + 1

def Note.content (note : Note) : String × List Nat × Option Nat × Option Nat :=
  (note.text, note.sourceTurnIndices, note.startMs, note.endMs)

namespace SttTurn

def hasText (turn : SttTurn) : Bool := trim turn.text ≠ ""

def noteContent (turn : SttTurn) : String × List Nat × Option Nat × Option Nat :=
  (trim turn.text, [turn.index], some turn.startMs, some turn.endMs)

end SttTurn

section Attendees

variable (world : ExtractorWorld)

structure LevelsKept (before after : MeetingAnalysis) : Prop where
  levels : after.summaryLevels = before.summaryLevels
  watermark : after.lastProcessedTurnIndex = before.lastProcessedTurnIndex

theorem LevelsKept.trans {before after last : MeetingAnalysis} (first : LevelsKept before after)
    (second : LevelsKept after last) : LevelsKept before last :=
  ⟨second.levels.trans first.levels, second.watermark.trans first.watermark⟩

def OwnersKnown (owners : UInt8 → Option String) (analysis : MeetingAnalysis) : Prop :=
  ∀ sid oid, owners sid = some oid → oid ∈ analysis.attendees.map Attendee.id

variable {world} {conv : SttConversation} {owners : UInt8 → Option String} {handle : ToolHandle}

theorem OwnersKnown.update {analysis : MeetingAnalysis} (known : OwnersKnown owners analysis) (sid : UInt8)
    {oid : String} (member : oid ∈ analysis.attendees.map Attendee.id) :
    OwnersKnown (Function.update owners sid (some oid)) analysis := by
  intro other oid' found
  by_cases same : other = sid
  · rw [same, Function.update_self, Option.some_inj] at found
    rw [← found]
    exact member
  · rw [Function.update_of_ne same] at found
    exact known other oid' found

theorem withAnalysis_analysis {R : Type} (f : String → MeetingAnalysis → R × MeetingAnalysis) :
    (handle.withAnalysis world f).2.analysis =
      (f (world.answers handle.ticks).uuid handle.analysis).2.touch (world.answers handle.ticks).now := rfl

theorem mineAttendee_known (known : OwnersKnown owners handle.analysis) (turn : SttTurn) :
    OwnersKnown (RuleBasedExtractor.mineAttendee world conv (owners, handle) turn).1
      (RuleBasedExtractor.mineAttendee world conv (owners, handle) turn).2.analysis := by
  rw [RuleBasedExtractor.mineAttendee]
  split
  next => exact known
  next sid _ =>
    have roster := attendees_upsertAttendee world.toLowercase (conv.effectiveLabel sid) none [sid] none
      (world.answers handle.ticks).uuid handle.analysis
    have member := mem_attendees_upsertAttendee world.toLowercase (conv.effectiveLabel sid) none [sid] none
      (world.answers handle.ticks).uuid handle.analysis
    exact OwnersKnown.update (fun other oid found => roster.subset (known other oid found)) sid member

variable (world conv) in
theorem mineAttendee_rest (found : (UInt8 → Option String) × ToolHandle) (turn : SttTurn) :
    (RuleBasedExtractor.mineAttendee world conv found turn).2.analysis.notes = found.2.analysis.notes ∧
      LevelsKept found.2.analysis (RuleBasedExtractor.mineAttendee world conv found turn).2.analysis := by
  rw [RuleBasedExtractor.mineAttendee]
  split
  next => exact ⟨rfl, rfl, rfl⟩
  next sid _ =>
    have rest := upsertAttendee_rest world.toLowercase (conv.effectiveLabel sid) none [sid] none
      (world.answers found.2.ticks).uuid found.2.analysis
    simp only [ToolHandle.upsertAttendee, withAnalysis_analysis, MeetingAnalysis.touch]
    rw [rest]
    exact ⟨rfl, rfl, rfl⟩

variable (world conv) in
theorem mineAttendees_spec (inWindow : List SttTurn) (found : (UInt8 → Option String) × ToolHandle)
    (known : OwnersKnown found.1 found.2.analysis) :
    OwnersKnown (inWindow.foldl (RuleBasedExtractor.mineAttendee world conv) found).1
        (inWindow.foldl (RuleBasedExtractor.mineAttendee world conv) found).2.analysis ∧
      (inWindow.foldl (RuleBasedExtractor.mineAttendee world conv) found).2.analysis.notes =
        found.2.analysis.notes ∧
      LevelsKept found.2.analysis
        (inWindow.foldl (RuleBasedExtractor.mineAttendee world conv) found).2.analysis := by
  induction inWindow generalizing found with
  | nil => exact ⟨known, rfl, rfl, rfl⟩
  | cons turn rest ih =>
    obtain ⟨notes, kept⟩ := mineAttendee_rest world conv found turn
    obtain ⟨known', notes', kept'⟩ := ih _ (mineAttendee_known known turn)
    exact ⟨known', notes'.trans notes, kept.trans kept'⟩

theorem seedOwners_known {analysis : MeetingAnalysis} (known : OwnersKnown owners analysis) :
    OwnersKnown (RuleBasedExtractor.seedOwners analysis.attendees owners) analysis := by
  have seeds : ∀ seed ∈ analysis.attendees.flatMap fun att => att.speakerTags.map fun tag => (tag, att.id),
      seed.2 ∈ analysis.attendees.map Attendee.id := by
    intro seed member
    obtain ⟨att, present, tagged⟩ := List.mem_flatMap.mp member
    obtain ⟨tag, -, rfl⟩ := List.mem_map.mp tagged
    exact List.mem_map_of_mem present
  rw [RuleBasedExtractor.seedOwners]
  generalize analysis.attendees.flatMap _ = pending at seeds
  induction pending generalizing owners with
  | nil => exact known
  | cons seed rest ih =>
    rw [List.foldl_cons]
    refine ih ?_ fun other member => seeds other (List.mem_cons_of_mem seed member)
    rw [RuleBasedExtractor.seedOwner]
    split
    · exact known
    · exact known.update seed.1 (seeds seed List.mem_cons_self)

theorem drafts_known {analysis : MeetingAnalysis} (known : OwnersKnown owners analysis) {turn : SttTurn}
    {draft : String × Option String × SttTurn} (member : draft ∈ RuleBasedExtractor.drafts world owners turn) :
    ∀ oid ∈ draft.2.1, oid ∈ analysis.attendees.map Attendee.id := by
  obtain ⟨group, -, drafted⟩ := List.mem_filterMap.mp member
  simp only [Option.ite_none_left_eq_some, Option.some_inj] at drafted
  obtain ⟨-, rfl⟩ := drafted
  intro oid owner
  obtain ⟨sid, -, found⟩ := Option.bind_eq_some_iff.mp owner
  exact known sid oid found

end Attendees

section NotesAndActions

variable {world : ExtractorWorld} {handle : ToolHandle}

variable (world) in
theorem noteTurns_spec (inWindow : List SttTurn) (handle : ToolHandle) :
    (inWindow.foldl (RuleBasedExtractor.noteTurn world) handle).analysis.notes.map Note.content =
        handle.analysis.notes.map Note.content ++ (inWindow.filter SttTurn.hasText).map SttTurn.noteContent ∧
      (inWindow.foldl (RuleBasedExtractor.noteTurn world) handle).analysis.attendees =
        handle.analysis.attendees ∧
      LevelsKept handle.analysis (inWindow.foldl (RuleBasedExtractor.noteTurn world) handle).analysis := by
  induction inWindow generalizing handle with
  | nil => exact ⟨by simp, rfl, rfl, rfl⟩
  | cons turn rest ih =>
    obtain ⟨notes, attendees, kept⟩ := ih (RuleBasedExtractor.noteTurn world handle turn)
    rw [List.foldl_cons, notes, attendees]
    by_cases blank : trim turn.text = ""
    · have skipped : RuleBasedExtractor.noteTurn world handle turn = handle := by
        rw [RuleBasedExtractor.noteTurn, if_pos blank]
      rw [skipped] at kept ⊢
      rw [List.filter_cons_of_neg (by simp [SttTurn.hasText, blank])]
      exact ⟨rfl, rfl, kept⟩
    · have noted : RuleBasedExtractor.noteTurn world handle turn =
          (handle.appendNote world (trim turn.text) [turn.index] (some turn.startMs) (some turn.endMs)).2 := by
        rw [RuleBasedExtractor.noteTurn, if_neg blank]
      rw [noted] at kept ⊢
      rw [List.filter_cons_of_pos (by simp [SttTurn.hasText, blank])]
      have noteKept : LevelsKept handle.analysis (handle.appendNote world (trim turn.text) [turn.index]
        (some turn.startMs) (some turn.endMs)).2.analysis := ⟨rfl, rfl⟩
      refine ⟨?_, rfl, noteKept.trans kept⟩
      simp [ToolHandle.appendNote, withAnalysis_analysis, MeetingAnalysis.appendNote, MeetingAnalysis.touch,
        Note.content, SttTurn.noteContent]

variable (world) in
theorem appendAction_ok {owner : Option String}
    (known : ∀ oid ∈ owner, oid ∈ handle.analysis.attendees.map Attendee.id)
    (description : String) (dueIso supportingQuote : Option String) (sourceTurnIndex : Option Nat) :
    ∃ id handle', handle.appendAction world description owner dueIso supportingQuote sourceTurnIndex =
        (.ok id, handle') ∧
      handle'.analysis.notes = handle.analysis.notes ∧
      handle'.analysis.attendees = handle.analysis.attendees ∧ LevelsKept handle.analysis handle'.analysis := by
  cases owner with
  | none => exact ⟨_, _, rfl, rfl, rfl, rfl, rfl⟩
  | some oid =>
    have found := (attendee_isSome_iff handle.analysis oid).mpr (known oid rfl)
    simp only [ToolHandle.appendAction, ToolHandle.withAnalysis, found, if_true]
    exact ⟨_, _, rfl, rfl, rfl, rfl, rfl⟩

theorem appendActions_ok (drafts : List (String × Option String × SttTurn))
    (known : ∀ draft ∈ drafts, ∀ oid ∈ draft.2.1, oid ∈ handle.analysis.attendees.map Attendee.id) :
    ∃ handle', RuleBasedExtractor.appendActions world drafts handle = (.ok (), handle') ∧
      handle'.analysis.notes = handle.analysis.notes ∧ LevelsKept handle.analysis handle'.analysis := by
  induction drafts generalizing handle with
  | nil => exact ⟨handle, rfl, rfl, rfl, rfl⟩
  | cons draft rest ih =>
    obtain ⟨desc, owner, turn⟩ := draft
    obtain ⟨id, next, appended, notes, attendees, kept⟩ := appendAction_ok world
      (known (desc, owner, turn) List.mem_cons_self) desc none (some turn.text) (some turn.index)
    have known' : ∀ draft ∈ rest, ∀ oid ∈ draft.2.1, oid ∈ next.analysis.attendees.map Attendee.id := by
      intro draft member
      rw [attendees]
      exact known draft (List.mem_cons_of_mem _ member)
    obtain ⟨last, rest', notes', kept'⟩ := ih known'
    refine ⟨last, ?_, notes'.trans notes, kept.trans kept'⟩
    rw [RuleBasedExtractor.appendActions, appended]
    exact rest'

end NotesAndActions

section Segments

variable {count b s e : Nat} {front : List SegmentSummary} {last : SegmentSummary} {levels : SummaryLevels}
  {analysis : MeetingAnalysis}

structure FrozenUpTo (count : Nat) (segments : List SegmentSummary) (b : Nat) : Prop where
  tiles : Tiles SegmentSummary.bounds 0 segments b
  frozen : ∀ segment ∈ segments, segment.finalized = true
  long : ∀ segment ∈ segments, count ≤ segment.span

structure OpenTail (count : Nat) (segments front : List SegmentSummary) (last : SegmentSummary) : Prop where
  split : segments = front ++ [last]
  frozen : FrozenUpTo count front last.startTurnIndex
  unfinalized : last.finalized = false
  ordered : last.startTurnIndex ≤ last.endTurnIndex

-- The segments tile the turns below `b`, and the last one may be open.
inductive LiveSegments (count : Nat) (segments : List SegmentSummary) (b : Nat) : Prop where
  | closed (frozen : FrozenUpTo count segments b)
  | opened (front : List SegmentSummary) (last : SegmentSummary) (tail : OpenTail count segments front last)
    (covered : last.endTurnIndex + 1 = b)

theorem FrozenUpTo.tail_none (frozen : FrozenUpTo count levels.segments b) : levels.tail = none :=
  findLast_eq_none fun segment member => by rw [frozen.frozen segment member]; rfl

theorem FrozenUpTo.tailMut (frozen : FrozenUpTo count levels.segments b)
    (change : SegmentSummary → SegmentSummary) : levels.tailMut change = levels := by
  rw [SummaryLevels.tailMut, modifyLast_of_none]
  intro segment member
  rw [frozen.frozen segment member]
  rfl

theorem OpenTail.tail (opened : OpenTail count levels.segments front last) : levels.tail = some last := by
  rw [SummaryLevels.tail, opened.split, findLast_concat, opened.unfinalized]
  rfl

theorem OpenTail.tailMut (opened : OpenTail count levels.segments front last)
    (change : SegmentSummary → SegmentSummary) :
    levels.tailMut change = { levels with segments := front ++ [change last] } := by
  rw [SummaryLevels.tailMut, opened.split, modifyLast_concat, opened.unfinalized]
  rfl

theorem FrozenUpTo.tiles_concat (frozen : FrozenUpTo count front last.startTurnIndex)
    (ordered : last.startTurnIndex ≤ last.endTurnIndex) :
    Tiles SegmentSummary.bounds 0 (front ++ [last]) (last.endTurnIndex + 1) := by
  have tiles : Tiles SegmentSummary.bounds 0 front last.bounds.1 := frozen.tiles
  exact tiles.concat ordered

theorem FrozenUpTo.concat (frozen : FrozenUpTo count front last.startTurnIndex) (finalized : last.finalized = true)
    (ordered : last.startTurnIndex ≤ last.endTurnIndex) (long : count ≤ last.span) :
    FrozenUpTo count (front ++ [last]) (last.endTurnIndex + 1) where
  tiles := frozen.tiles_concat ordered
  frozen := by
    rw [List.forall_mem_append, List.forall_mem_singleton]
    exact ⟨frozen.frozen, finalized⟩
  long := by
    rw [List.forall_mem_append, List.forall_mem_singleton]
    exact ⟨frozen.long, long⟩

theorem reviseTailSegment_opens (live : LiveSegments count analysis.segments b) (fresh : b ≤ e)
    (begins : (analysis.summaryLevels.tail.map SegmentSummary.startTurnIndex).or (some b) = some s)
    (text uuid : String) :
    ∃ front last, OpenTail count (analysis.reviseTailSegment text s e uuid).2.segments front last ∧
      last.startTurnIndex = s ∧ last.endTurnIndex = e := by
  cases live with
  | closed frozen =>
    rw [frozen.tail_none, Option.map_none, Option.none_or, Option.some_inj] at begins
    rw [MeetingAnalysis.reviseTailSegment, frozen.tail_none]
    exact ⟨analysis.segments, _, ⟨rfl, begins ▸ frozen, rfl, begins ▸ fresh⟩, rfl, rfl⟩
  | opened front last tail covered =>
    rw [tail.tail, Option.map_some, Option.some_or, Option.some_inj] at begins
    have later : last.endTurnIndex ≤ e := by omega
    have ordered := tail.ordered
    rw [MeetingAnalysis.reviseTailSegment, tail.tail]
    refine ⟨front, MeetingAnalysis.reviseSegment text s e last, ⟨?_, ?_, tail.unfinalized, ?_⟩, ?_, ?_⟩
    · simp only [MeetingAnalysis.segments]
      rw [tail.tailMut]
    · rw [MeetingAnalysis.reviseSegment, begins, min_self]
      exact begins ▸ tail.frozen
    · simp only [MeetingAnalysis.reviseSegment]
      omega
    · simp only [MeetingAnalysis.reviseSegment]
      omega
    · simp only [MeetingAnalysis.reviseSegment]
      omega

theorem notes_reviseTailSegment (text : String) (startTurnIndex endTurnIndex : Nat) (uuid : String) :
    (analysis.reviseTailSegment text startTurnIndex endTurnIndex uuid).2.notes = analysis.notes := by
  rw [MeetingAnalysis.reviseTailSegment]
  split <;> rfl

theorem OpenTail.finalizeSegment (opened : OpenTail count analysis.segments front last) :
    analysis.finalizeSegment.2.segments = front ++ [MeetingAnalysis.freeze last] := by
  rw [MeetingAnalysis.segments, MeetingAnalysis.finalizeSegment, opened.tailMut]

theorem FrozenUpTo.finalizeSegment (frozen : FrozenUpTo count analysis.segments b) :
    analysis.finalizeSegment.2.segments = analysis.segments := by
  rw [MeetingAnalysis.segments, MeetingAnalysis.finalizeSegment, frozen.tailMut, MeetingAnalysis.segments]

end Segments

section Extraction

variable {count b s e : Nat} {handle : ToolHandle} {request : ExtractionRequest} {inWindow : List SttTurn}

variable (world : ExtractorWorld) (conv : SttConversation)

theorem map_text_frozen {segments : List SegmentSummary}
    (frozen : ∀ segment ∈ segments, segment.finalized = true) :
    (segments.filter SegmentSummary.finalized).map SegmentSummary.text = segments.map SegmentSummary.text := by
  rw [List.filter_eq_self.mpr frozen]

-- A freeze leaves the texts of all segments in `running`.
structure Closed (count : Nat) (analysis : MeetingAnalysis) (b : Nat) : Prop where
  frozen : FrozenUpTo count analysis.segments b
  running : analysis.summaryLevels.running.getD "" =
    "\n\n".intercalate (analysis.segments.map SegmentSummary.text)

def Reached (count s e : Nat) (analysis : MeetingAnalysis) : Prop :=
  if count ≤ e - s + 1 then Closed count analysis (e + 1)
  else
    ∃ front tail, OpenTail count analysis.segments front tail ∧
      tail.startTurnIndex = s ∧ tail.endTurnIndex = e

theorem liveSegment_cases (live : LiveSegments request.segmentTurnCount handle.analysis.segments b)
    (begins : (handle.analysis.summaryLevels.tail.map SegmentSummary.startTurnIndex).or (some b) = some s)
    (first : inWindow.head?.map SttTurn.index = some b)
    (last : inWindow.getLast?.map SttTurn.index = some e) (fresh : b ≤ e) :
    ∃ handle', RuleBasedExtractor.liveSegment world request conv inWindow handle = (.ok (), handle') ∧
      handle'.analysis.notes = handle.analysis.notes ∧
      Reached request.segmentTurnCount s e handle'.analysis := by
  obtain ⟨front, tail, opened, starts, ends⟩ := reviseTailSegment_opens live fresh begins
    (summarizeSegment (RuleBasedExtractor.segmentSlice conv s e)) (world.answers handle.ticks).uuid
  have ordered := opened.ordered
  rw [starts, ends] at ordered
  rw [RuleBasedExtractor.liveSegment]
  simp only [first, last, begins, ToolHandle.reviseTailSegment, if_neg (Nat.not_lt.mpr ordered)]
  by_cases full : request.segmentTurnCount ≤ e - s + 1
  · simp only [Reached, if_pos full]
    have long : request.segmentTurnCount ≤ (MeetingAnalysis.freeze tail).span := by
      rw [SegmentSummary.span, MeetingAnalysis.freeze, starts, ends]
      exact full
    have before : FrozenUpTo request.segmentTurnCount front (MeetingAnalysis.freeze tail).startTurnIndex :=
      opened.frozen
    have frozen := before.concat rfl opened.ordered long
    rw [← opened.finalizeSegment, show (MeetingAnalysis.freeze tail).endTurnIndex = e from ends] at frozen
    refine ⟨_, rfl, notes_reviseTailSegment _ s e _, frozen, ?_⟩
    exact congrArg ("\n\n".intercalate ·) (map_text_frozen frozen.frozen)
  · simp only [Reached, if_neg full]
    exact ⟨_, rfl, notes_reviseTailSegment _ s e _, front, tail, opened, starts, ends⟩

theorem liveSegment_spec (live : LiveSegments request.segmentTurnCount handle.analysis.segments b)
    (first : inWindow.head?.map SttTurn.index = some b)
    (last : inWindow.getLast?.map SttTurn.index = some e) (fresh : b ≤ e) :
    ∃ handle', RuleBasedExtractor.liveSegment world request conv inWindow handle = (.ok (), handle') ∧
      handle'.analysis.notes = handle.analysis.notes ∧
      LiveSegments request.segmentTurnCount handle'.analysis.segments (e + 1) := by
  obtain ⟨s, begins⟩ : ∃ s, (handle.analysis.summaryLevels.tail.map SegmentSummary.startTurnIndex).or
      (some b) = some s := by
    cases handle.analysis.summaryLevels.tail with
    | none => exact ⟨b, rfl⟩
    | some tail => exact ⟨tail.startTurnIndex, rfl⟩
  obtain ⟨handle', segmented, notes, became⟩ := liveSegment_cases world conv live begins first last fresh
  refine ⟨handle', segmented, notes, ?_⟩
  rw [Reached] at became
  split at became
  next => exact .closed became.frozen
  next =>
    obtain ⟨front, tail, opened, -, ends⟩ := became
    exact .opened front tail opened (by rw [ends])

theorem liveSegments_spec (live : LiveSegments request.segmentTurnCount handle.analysis.segments b)
    (first : inWindow.head?.map SttTurn.index = some b)
    (last : inWindow.getLast?.map SttTurn.index = some e) (fresh : b ≤ e)
    (highest : (inWindow.map SttTurn.index).max? = some e) :
    ∃ handle', RuleBasedExtractor.liveSegments world request conv inWindow handle = (.ok (), handle') ∧
      handle'.analysis.notes = handle.analysis.notes ∧
      handle'.analysis.lastProcessedTurnIndex = some e ∧
      LiveSegments request.segmentTurnCount handle'.analysis.segments (e + 1) := by
  obtain ⟨next, segmented, notes, live'⟩ := liveSegment_spec world conv live first last fresh
  rw [RuleBasedExtractor.liveSegments, segmented, highest]
  exact ⟨_, rfl, notes, rfl, live'⟩

theorem liveSegments_cases (live : LiveSegments request.segmentTurnCount handle.analysis.segments b)
    (begins : (handle.analysis.summaryLevels.tail.map SegmentSummary.startTurnIndex).or (some b) = some s)
    (first : inWindow.head?.map SttTurn.index = some b)
    (last : inWindow.getLast?.map SttTurn.index = some e) (fresh : b ≤ e)
    (highest : (inWindow.map SttTurn.index).max? = some e) :
    ∃ handle', RuleBasedExtractor.liveSegments world request conv inWindow handle = (.ok (), handle') ∧
      handle'.analysis.lastProcessedTurnIndex = some e ∧
      Reached request.segmentTurnCount s e handle'.analysis := by
  obtain ⟨next, segmented, -, became⟩ := liveSegment_cases world conv live begins first last fresh
  rw [RuleBasedExtractor.liveSegments, segmented, highest]
  refine ⟨_, rfl, rfl, ?_⟩
  by_cases full : request.segmentTurnCount ≤ e - s + 1
  · simp only [Reached, if_pos full] at became ⊢
    exact ⟨became.frozen, became.running⟩
  · simp only [Reached, if_neg full] at became ⊢
    exact became

-- Everything is frozen. The last segment may be shorter than `count`.
structure Sealed (count : Nat) (analysis : MeetingAnalysis) (b : Nat) : Prop where
  tiles : Tiles SegmentSummary.bounds 0 analysis.segments b
  frozen : ∀ segment ∈ analysis.segments, segment.finalized = true
  long : ∀ segment ∈ analysis.segments.dropLast, count ≤ segment.span

theorem finalizeSegment_sealed {analysis : MeetingAnalysis} (live : LiveSegments count analysis.segments b) :
    Sealed count analysis.finalizeSegment.2 b := by
  cases live with
  | closed frozen =>
    refine ⟨?_, ?_, ?_⟩ <;> rw [frozen.finalizeSegment]
    · exact frozen.tiles
    · exact frozen.frozen
    · exact fun segment member => frozen.long segment ((List.dropLast_sublist _).subset member)
  | opened front last tail covered =>
    refine ⟨?_, ?_, ?_⟩ <;> rw [tail.finalizeSegment]
    · have before : FrozenUpTo count front (MeetingAnalysis.freeze last).startTurnIndex := tail.frozen
      rw [← covered]
      exact before.tiles_concat tail.ordered
    · rw [List.forall_mem_append, List.forall_mem_singleton]
      exact ⟨tail.frozen.frozen, rfl⟩
    · rw [List.dropLast_concat]
      exact tail.frozen.long

theorem map_freeze {segments : List SegmentSummary} (frozen : ∀ segment ∈ segments, segment.finalized = true) :
    segments.map MeetingAnalysis.freeze = segments := by
  conv_rhs => rw [← List.map_id segments]
  refine List.map_congr_left fun segment member => ?_
  rw [MeetingAnalysis.freeze, ← frozen segment member, id]

theorem finish_spec (live : LiveSegments count handle.analysis.segments b) :
    Sealed count (RuleBasedExtractor.finish world handle).analysis b ∧
      (RuleBasedExtractor.finish world handle).analysis.notes = handle.analysis.notes ∧
      (RuleBasedExtractor.finish world handle).analysis.lastProcessedTurnIndex =
        handle.analysis.lastProcessedTurnIndex ∧
      (RuleBasedExtractor.finish world handle).analysis.summaryLevels.running =
        some ("\n\n".intercalate
          ((RuleBasedExtractor.finish world handle).analysis.segments.map SegmentSummary.text)) := by
  have frozen := finalizeSegment_sealed live
  have levels : ∃ tldr, (RuleBasedExtractor.finish world handle).analysis.summaryLevels = {
      segments := handle.analysis.finalizeSegment.2.segments.map MeetingAnalysis.freeze
      running := some (handle.analysis.finalizeSegment.2.touch
        (world.answers handle.ticks).now).regenerateRunning.1
      tldr } := by
    simp only [RuleBasedExtractor.finish]
    split <;> exact ⟨_, rfl⟩
  have rest : (RuleBasedExtractor.finish world handle).analysis.notes = handle.analysis.notes ∧
      (RuleBasedExtractor.finish world handle).analysis.lastProcessedTurnIndex =
        handle.analysis.lastProcessedTurnIndex := by
    simp only [RuleBasedExtractor.finish]
    split <;> exact ⟨rfl, rfl⟩
  obtain ⟨tldr, levels⟩ := levels
  rw [map_freeze frozen.frozen] at levels
  have segments : (RuleBasedExtractor.finish world handle).analysis.segments =
      handle.analysis.finalizeSegment.2.segments := by rw [MeetingAnalysis.segments, levels]
  refine ⟨⟨?_, ?_, ?_⟩, rest.1, rest.2, ?_⟩
  · rw [segments]
    exact frozen.tiles
  · rw [segments]
    exact frozen.frozen
  · rw [segments]
    exact frozen.long
  · rw [segments, levels, ← map_text_frozen frozen.frozen]
    rfl

theorem liveSegments_nil : RuleBasedExtractor.liveSegments world request conv [] handle = (.ok (), handle) := by
  simp only [RuleBasedExtractor.liveSegments, RuleBasedExtractor.liveSegment, List.head?_nil, List.getLast?_nil,
    Option.map_none]
  cases handle.analysis.summaryLevels.tail <;> rfl

theorem fresh_ends {old fresh : List SttTurn} (numbered : Numbered SttTurn.index (old ++ fresh))
    (some_ : fresh ≠ []) :
    ∃ e, fresh.head?.map SttTurn.index = some old.length ∧ fresh.getLast?.map SttTurn.index = some e ∧
      (old ++ fresh).getLast?.map SttTurn.index = some e ∧ (fresh.map SttTurn.index).max? = some e ∧
      e + 1 = (old ++ fresh).length ∧ old.length ≤ e := by
  obtain ⟨turn, rest, rfl⟩ := List.exists_cons_of_ne_nil some_
  obtain ⟨last, isLast⟩ : ∃ last, (turn :: rest).getLast? = some last := ⟨_, List.getLast?_cons⟩
  have lastOfAll : (old ++ turn :: rest).getLast? = some last := by
    rw [List.getLast?_append, isLast, Option.some_or]
  have ends := numbered.getLast lastOfAll
  have begins : turn.index = old.length := numbered old.length turn (by simp)
  have highest : ((turn :: rest).map SttTurn.index).max? = some last.index := by
    rw [List.max?_eq_some_iff]
    constructor
    · exact List.mem_map_of_mem (List.mem_of_getLast? isLast)
    · intro index member
      obtain ⟨other, inRest, rfl⟩ := List.mem_map.mp member
      have less := numbered.lt (List.mem_append_right old inRest)
      omega
  refine ⟨last.index, by rw [List.head?_cons, Option.map_some, begins], by rw [isLast, Option.map_some],
    by rw [lastOfAll, Option.map_some], highest, ends, ?_⟩
  rw [List.length_append, List.length_cons] at ends
  omega

theorem liveSegments_grow {old fresh : List SttTurn}
    (live : LiveSegments request.segmentTurnCount handle.analysis.segments old.length)
    (watermark : handle.analysis.lastProcessedTurnIndex = old.getLast?.map SttTurn.index)
    (numbered : Numbered SttTurn.index (old ++ fresh)) :
    ∃ handle', RuleBasedExtractor.liveSegments world request conv fresh handle = (.ok (), handle') ∧
      handle'.analysis.notes = handle.analysis.notes ∧
      handle'.analysis.lastProcessedTurnIndex = (old ++ fresh).getLast?.map SttTurn.index ∧
      LiveSegments request.segmentTurnCount handle'.analysis.segments (old ++ fresh).length := by
  by_cases none_ : fresh = []
  · rw [none_, List.append_nil]
    exact ⟨handle, liveSegments_nil world conv, rfl, watermark, live⟩
  · obtain ⟨e, first, last, lastOfAll, highest, ends, later⟩ := fresh_ends numbered none_
    obtain ⟨handle', segmented, notes, watermark', live'⟩ :=
      liveSegments_spec world conv live first last later highest
    rw [lastOfAll, ← ends]
    exact ⟨handle', segmented, notes, watermark', live'⟩

structure LiveRecord (count : Nat) (turns : List SttTurn) (analysis : MeetingAnalysis) : Prop where
  notes : analysis.notes.map Note.content = (turns.filter SttTurn.hasText).map SttTurn.noteContent
  watermark : analysis.lastProcessedTurnIndex = turns.getLast?.map SttTurn.index
  segments : LiveSegments count analysis.segments turns.length

theorem window_after {watermark : Option Nat} {k : Nat} (processed : (watermark.map fun w => w + 1).getD 0 = k)
    (numbered : Numbered SttTurn.index conv.turns) :
    (ExtractionWindow.after watermark).turns conv = conv.turns.drop k := by
  have window : (ExtractionWindow.after watermark).turns conv = conv.turns.filter fun t => k ≤ t.index := by
    simp only [ExtractionWindow.turns, ExtractionWindow.after, processed, Option.getD_none]
    refine List.filter_congr fun t member => ?_
    have less := numbered.lt member
    have below : t.index < u64Max := (less.trans conv.fits).trans (by decide)
    simp [below]
  rw [window, numbered.filter_le]

theorem window_turns {old fresh : List SttTurn} {watermark : Option Nat}
    (processed : watermark = old.getLast?.map SttTurn.index) (turns : conv.turns = old ++ fresh)
    (numbered : Numbered SttTurn.index conv.turns) :
    (ExtractionWindow.after watermark).turns conv = fresh := by
  have since : (watermark.map fun w => w + 1).getD 0 = old.length := by
    rw [processed]
    cases last : old.getLast? with
    | none =>
      rw [List.getLast?_eq_none_iff.mp last]
      rfl
    | some turn =>
      rw [turns] at numbered
      exact numbered.front.getLast last
  rw [window_after conv since numbered, turns, List.drop_left]

variable (handle) in
theorem appendActions_window (inWindow : List SttTurn) :
    ∃ acted, RuleBasedExtractor.appendActions world
          (inWindow.flatMap (RuleBasedExtractor.drafts world (RuleBasedExtractor.seedOwners
            (RuleBasedExtractor.mineAttendees world conv inWindow handle).2.analysis.attendees
            (RuleBasedExtractor.mineAttendees world conv inWindow handle).1)))
          (inWindow.foldl (RuleBasedExtractor.noteTurn world)
            (RuleBasedExtractor.mineAttendees world conv inWindow handle).2) = (.ok (), acted) ∧
      acted.analysis.notes.map Note.content =
        handle.analysis.notes.map Note.content ++ (inWindow.filter SttTurn.hasText).map SttTurn.noteContent ∧
      LevelsKept handle.analysis acted.analysis := by
  obtain ⟨known, mined, minedKept⟩ := mineAttendees_spec world conv inWindow (fun _ => none, handle)
    (by rintro _ _ ⟨⟩)
  rw [RuleBasedExtractor.mineAttendees]
  generalize inWindow.foldl (RuleBasedExtractor.mineAttendee world conv) (fun _ => none, handle) = found
    at known mined minedKept ⊢
  obtain ⟨noted, roster, notedKept⟩ := noteTurns_spec world inWindow found.2
  have drafted : ∀ draft ∈ inWindow.flatMap (RuleBasedExtractor.drafts world
      (RuleBasedExtractor.seedOwners found.2.analysis.attendees found.1)), ∀ oid ∈ draft.2.1,
      oid ∈ (inWindow.foldl (RuleBasedExtractor.noteTurn world) found.2).analysis.attendees.map Attendee.id := by
    intro draft member
    obtain ⟨turn, -, member⟩ := List.mem_flatMap.mp member
    rw [roster]
    exact drafts_known (seedOwners_known known) member
  obtain ⟨acted, appended, notes, actedKept⟩ := appendActions_ok _ drafted
  refine ⟨acted, appended, ?_, (minedKept.trans notedKept).trans actedKept⟩
  rw [notes, noted, mined]

variable (request) in
theorem extract_turns {old fresh : List SttTurn} (record : LiveRecord request.segmentTurnCount old handle.analysis)
    (numbered : Numbered SttTurn.index (old ++ fresh)) :
    ∃ acted segmented,
      RuleBasedExtractor.appendActions world
          (fresh.flatMap (RuleBasedExtractor.drafts world (RuleBasedExtractor.seedOwners
            (RuleBasedExtractor.mineAttendees world conv fresh handle).2.analysis.attendees
            (RuleBasedExtractor.mineAttendees world conv fresh handle).1)))
          (fresh.foldl (RuleBasedExtractor.noteTurn world)
            (RuleBasedExtractor.mineAttendees world conv fresh handle).2) = (.ok (), acted) ∧
      RuleBasedExtractor.liveSegments world request conv fresh acted = (.ok (), segmented) ∧
      LiveRecord request.segmentTurnCount (old ++ fresh) segmented.analysis := by
  obtain ⟨acted, appended, noted, kept⟩ := appendActions_window handle world conv fresh
  have live : LiveSegments request.segmentTurnCount acted.analysis.segments old.length := by
    rw [MeetingAnalysis.segments, kept.levels]
    exact record.segments
  obtain ⟨segmented, ran, notes, watermark, segments⟩ := liveSegments_grow world conv live
    (kept.watermark.trans record.watermark) numbered
  refine ⟨acted, segmented, appended, ran, ⟨?_, watermark, segments⟩⟩
  rw [notes, noted, record.notes, List.filter_append, List.map_append]

variable (handle) in
theorem extract_grow (finalize : Bool) {old fresh : List SttTurn}
    (record : LiveRecord count old handle.analysis) (turns : handle.transcript.turns = old ++ fresh)
    (numbered : Numbered SttTurn.index handle.transcript.turns) :
    ∃ handle', RuleBasedExtractor.extract world
        { window := .after handle.analysis.lastProcessedTurnIndex, finalize, live := true, segmentTurnCount := count }
        handle = (.ok (), if finalize then RuleBasedExtractor.finish world handle' else handle') ∧
      LiveRecord count (old ++ fresh) handle'.analysis := by
  have window := window_turns handle.transcript record.watermark turns numbered
  rw [RuleBasedExtractor.extract]
  simp only [window]
  by_cases idle : (fresh.isEmpty && !finalize) = true
  · rw [if_pos idle]
    simp only [Bool.and_eq_true, List.isEmpty_iff, Bool.not_eq_true'] at idle
    rw [idle.1, idle.2, List.append_nil]
    exact ⟨handle, rfl, record⟩
  · rw [if_neg idle]
    rw [turns] at numbered
    obtain ⟨acted, segmented, appended, ran, record'⟩ := extract_turns {
      window := .after handle.analysis.lastProcessedTurnIndex, finalize, live := true,
      segmentTurnCount := count } world handle.transcript record numbered
    rw [appended]
    simp only [if_true, ran]
    exact ⟨segmented, rfl, record'⟩

end Extraction

end AtomrAgents
