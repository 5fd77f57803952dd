import AtomrAgents.Meetings.Analysis
import AtomrAgents.Shared.Operations

set_option autoImplicit false

namespace AtomrAgents

open Shared

def MeetingAnalysis.segments (analysis : MeetingAnalysis) : List SegmentSummary := analysis.summaryLevels.segments

structure WellFormedLedger (analysis : MeetingAnalysis) : Prop where
  owners : ∀ action ∈ analysis.actions, ∀ oid ∈ action.ownerAttendeeId,
    oid ∈ analysis.attendees.map Attendee.id
  tail : ∀ segment ∈ analysis.segments.dropLast, segment.finalized = true

structure LedgerGrown (before after : MeetingAnalysis) : Prop where
  notes : before.notes.map Note.id <+: after.notes.map Note.id
  actions : before.actions.map Action.id <+: after.actions.map Action.id
  attendees : before.attendees.map Attendee.id <+: after.attendees.map Attendee.id
  frozen : ∀ (i : Nat) segment, before.segments[i]? = some segment → segment.finalized = true →
    after.segments[i]? = some segment

def MeetingAnalysis.ledger (analysis : MeetingAnalysis) :
    List Note × List Action × List Attendee × SummaryLevels :=
  (analysis.notes, analysis.actions, analysis.attendees, analysis.summaryLevels)

variable {analysis before after : MeetingAnalysis}

theorem LedgerGrown.of_ledger (same : after.ledger = before.ledger) : LedgerGrown before after := by
  simp only [MeetingAnalysis.ledger, Prod.mk.injEq] at same
  obtain ⟨notes, actions, attendees, levels⟩ := same
  refine ⟨notes ▸ List.prefix_rfl, actions ▸ List.prefix_rfl, attendees ▸ List.prefix_rfl, ?_⟩
  intro i segment found _
  rw [MeetingAnalysis.segments, levels]
  exact found

theorem LedgerGrown.trans {last : MeetingAnalysis} (first : LedgerGrown before after)
    (second : LedgerGrown after last) : LedgerGrown before last where
  notes := first.notes.trans second.notes
  actions := first.actions.trans second.actions
  attendees := first.attendees.trans second.attendees
  frozen i segment found finalized := second.frozen i segment (first.frozen i segment found finalized) finalized

theorem WellFormedLedger.of_ledger (wellFormed : WellFormedLedger before)
    (same : after.ledger = before.ledger) : WellFormedLedger after := by
  simp only [MeetingAnalysis.ledger, Prod.mk.injEq] at same
  obtain ⟨-, actions, attendees, levels⟩ := same
  constructor
  · rw [actions, attendees]
    exact wellFormed.owners
  · rw [MeetingAnalysis.segments, levels]
    exact wellFormed.tail

theorem attendee_isSome_iff (analysis : MeetingAnalysis) (oid : String) :
    (analysis.attendee oid).isSome = true ↔ oid ∈ analysis.attendees.map Attendee.id := by
  simp [MeetingAnalysis.attendee, List.find?_isSome]

section Roster

variable (toLowercase : String → String) (displayName : String) (role : Option String)
  (speakerTags : List UInt8) (email : Option String) (uuid : String)

theorem map_id_mergeAttendee (found : Attendee → Bool) (attendees : List Attendee) :
    (modifyFirst found (MeetingAnalysis.mergeAttendee toLowercase displayName role speakerTags email)
      attendees).map Attendee.id = attendees.map Attendee.id :=
  map_modifyFirst Attendee.id fun _ => rfl

theorem attendees_upsertAttendee (analysis : MeetingAnalysis) :
    analysis.attendees.map Attendee.id <+:
      (analysis.upsertAttendee toLowercase displayName role speakerTags email uuid).2.attendees.map
        Attendee.id := by
  rw [MeetingAnalysis.upsertAttendee]
  split
  · simp only [map_id_mergeAttendee, List.prefix_rfl]
  · simp

theorem mem_attendees_upsertAttendee (analysis : MeetingAnalysis) :
    (analysis.upsertAttendee toLowercase displayName role speakerTags email uuid).1 ∈
      (analysis.upsertAttendee toLowercase displayName role speakerTags email uuid).2.attendees.map
        Attendee.id := by
  rw [MeetingAnalysis.upsertAttendee]
  split
  next existing found =>
    simp only [map_id_mergeAttendee]
    exact List.mem_map_of_mem (List.mem_of_find?_eq_some found)
  next => simp

theorem upsertAttendee_rest (analysis : MeetingAnalysis) :
    (analysis.upsertAttendee toLowercase displayName role speakerTags email uuid).2 =
      { analysis with attendees :=
        (analysis.upsertAttendee toLowercase displayName role speakerTags email uuid).2.attendees } := by
  rw [MeetingAnalysis.upsertAttendee]
  split <;> rfl

end Roster

section Segments

theorem getElem?_tailMut (levels : SummaryLevels) (change : SegmentSummary → SegmentSummary) {i : Nat}
    {segment : SegmentSummary} (found : levels.segments[i]? = some segment) (finalized : segment.finalized = true) :
    (levels.tailMut change).segments[i]? = some segment :=
  getElem?_modifyLast found (by rw [finalized]; rfl)

theorem dropLast_tailMut (levels : SummaryLevels) (change : SegmentSummary → SegmentSummary)
    (frozen : ∀ segment ∈ levels.segments.dropLast, segment.finalized = true) :
    (levels.tailMut change).segments.dropLast = levels.segments.dropLast :=
  dropLast_modifyLast fun segment before => by rw [frozen segment before]; rfl

theorem finalized_of_tail_none (levels : SummaryLevels) (noTail : levels.tail = none) :
    ∀ segment ∈ levels.segments, segment.finalized = true := by
  intro segment member
  rw [SummaryLevels.tail, findLast, List.find?_eq_none] at noTail
  simpa using noTail segment (List.mem_reverse.mpr member)

theorem reviseTailSegment_grown (text : String) (startTurnIndex endTurnIndex : Nat) (uuid : String) :
    LedgerGrown analysis (analysis.reviseTailSegment text startTurnIndex endTurnIndex uuid).2 := by
  rw [MeetingAnalysis.reviseTailSegment]
  split
  · refine ⟨List.prefix_rfl, List.prefix_rfl, List.prefix_rfl, ?_⟩
    intro i segment found finalized
    exact getElem?_tailMut analysis.summaryLevels _ found finalized
  · refine ⟨List.prefix_rfl, List.prefix_rfl, List.prefix_rfl, ?_⟩
    intro i segment found _
    exact (List.getElem?_append_left (List.getElem?_eq_some_iff.mp found).1).trans found

theorem reviseTailSegment_wellFormed (wellFormed : WellFormedLedger analysis) (text : String)
    (startTurnIndex endTurnIndex : Nat) (uuid : String) :
    WellFormedLedger (analysis.reviseTailSegment text startTurnIndex endTurnIndex uuid).2 := by
  rw [MeetingAnalysis.reviseTailSegment]
  split
  · refine ⟨wellFormed.owners, ?_⟩
    rw [MeetingAnalysis.segments, dropLast_tailMut _ _ wellFormed.tail]
    exact wellFormed.tail
  next noTail =>
    refine ⟨wellFormed.owners, ?_⟩
    rw [MeetingAnalysis.segments, List.dropLast_concat]
    exact finalized_of_tail_none analysis.summaryLevels noTail

theorem finalizeSegment_grown : LedgerGrown analysis analysis.finalizeSegment.2 := by
  refine ⟨List.prefix_rfl, List.prefix_rfl, List.prefix_rfl, ?_⟩
  intro i segment found finalized
  exact getElem?_tailMut analysis.summaryLevels _ found finalized

theorem finalizeSegment_wellFormed (wellFormed : WellFormedLedger analysis) :
    WellFormedLedger analysis.finalizeSegment.2 := by
  refine ⟨wellFormed.owners, ?_⟩
  rw [MeetingAnalysis.segments, MeetingAnalysis.finalizeSegment, dropLast_tailMut _ _ wellFormed.tail]
  exact wellFormed.tail

theorem finalize_grown (tldr : Option String) : LedgerGrown analysis (analysis.finalize tldr).2 := by
  refine ⟨List.prefix_rfl, List.prefix_rfl, List.prefix_rfl, ?_⟩
  intro i segment found finalized
  rw [MeetingAnalysis.segments, MeetingAnalysis.finalize, List.getElem?_map]
  rw [MeetingAnalysis.segments] at found
  rw [found, Option.map_some, MeetingAnalysis.freeze, ← finalized]

theorem finalize_wellFormed (wellFormed : WellFormedLedger analysis) (tldr : Option String) :
    WellFormedLedger (analysis.finalize tldr).2 := by
  refine ⟨wellFormed.owners, ?_⟩
  intro segment member
  obtain ⟨before, -, rfl⟩ := List.mem_map.mp ((List.dropLast_sublist _).subset member)
  rfl

end Segments

section Perform

variable {toLowercase : String → String} {answer : LedgerAnswer} {call : ToolCall}

theorem updateAction_cases {actionId : String} {status : Option ActionStatus}
    {ownerAttendeeId dueIso supportingQuote : Option String}
    (patched : analysis.updateAction actionId status ownerAttendeeId dueIso supportingQuote = some after) :
    after = { analysis with
      actions := modifyFirst (fun a => a.id == actionId)
        (MeetingAnalysis.patchAction status ownerAttendeeId dueIso supportingQuote) analysis.actions } := by
  rw [MeetingAnalysis.updateAction, Option.ite_none_right_eq_some, Option.some_inj] at patched
  exact patched.2.symm

theorem map_id_patchAction (found : Action → Bool) (status : Option ActionStatus)
    (ownerAttendeeId dueIso supportingQuote : Option String) (actions : List Action) :
    (modifyFirst found (MeetingAnalysis.patchAction status ownerAttendeeId dueIso supportingQuote)
      actions).map Action.id = actions.map Action.id :=
  map_modifyFirst Action.id fun _ => rfl

theorem perform_grown (call : ToolCall) : LedgerGrown analysis (call.perform toLowercase answer analysis).2 := by
  cases call with
  | upsertAttendee displayName role speakerTags email =>
    have roster := attendees_upsertAttendee toLowercase displayName role speakerTags email answer.uuid analysis
    have rest := upsertAttendee_rest toLowercase displayName role speakerTags email answer.uuid analysis
    have upserted : LedgerGrown analysis
        (analysis.upsertAttendee toLowercase displayName role speakerTags email answer.uuid).2 := by
      rw [rest]
      exact ⟨List.prefix_rfl, List.prefix_rfl, roster, fun _ _ found _ => found⟩
    exact upserted.trans (.of_ledger rfl)
  | appendNote text sourceTurnIndices startMs endMs =>
    refine ⟨?_, List.prefix_rfl, List.prefix_rfl, fun _ _ found _ => found⟩
    simp [ToolCall.perform, MeetingAnalysis.appendNote, MeetingAnalysis.touch]
  | appendAction description ownerAttendeeId dueIso supportingQuote sourceTurnIndex =>
    refine ⟨List.prefix_rfl, ?_, List.prefix_rfl, fun _ _ found _ => found⟩
    simp [ToolCall.perform, MeetingAnalysis.appendAction, MeetingAnalysis.touch]
  | updateAction actionId status ownerAttendeeId dueIso supportingQuote =>
    rw [ToolCall.perform]
    split
    next after patched =>
      rw [updateAction_cases patched]
      refine ⟨List.prefix_rfl, ?_, List.prefix_rfl, fun _ _ found _ => found⟩
      simp only [MeetingAnalysis.touch, map_id_patchAction, List.prefix_rfl]
    next => exact .of_ledger rfl
  | reviseTailSegment text startTurnIndex endTurnIndex =>
    rw [ToolCall.perform]
    split
    · exact .of_ledger rfl
    · exact (reviseTailSegment_grown text startTurnIndex endTurnIndex answer.uuid).trans (.of_ledger rfl)
  | finalizeSegment => exact finalizeSegment_grown.trans (.of_ledger rfl)
  | regenerateRunning =>
    exact ⟨List.prefix_rfl, List.prefix_rfl, List.prefix_rfl, fun _ _ found _ => found⟩
  | setTitle title => exact .of_ledger rfl
  | finalize tldr => exact (finalize_grown tldr).trans (.of_ledger rfl)
  | advanceWatermark turnIndex => exact .of_ledger rfl

theorem perform_wellFormed (wellFormed : WellFormedLedger analysis)
    (resolved : ∀ oid ∈ call.owner, oid ∈ analysis.attendees.map Attendee.id) :
    WellFormedLedger (call.perform toLowercase answer analysis).2 := by
  cases call with
  | upsertAttendee displayName role speakerTags email =>
    have roster := attendees_upsertAttendee toLowercase displayName role speakerTags email answer.uuid analysis
    have rest := upsertAttendee_rest toLowercase displayName role speakerTags email answer.uuid analysis
    have upserted : WellFormedLedger
        (analysis.upsertAttendee toLowercase displayName role speakerTags email answer.uuid).2 := by
      rw [rest]
      exact ⟨fun action member oid owner => roster.subset (wellFormed.owners action member oid owner),
        wellFormed.tail⟩
    exact upserted.of_ledger rfl
  | appendNote text sourceTurnIndices startMs endMs => exact ⟨wellFormed.owners, wellFormed.tail⟩
  | appendAction description ownerAttendeeId dueIso supportingQuote sourceTurnIndex =>
    refine ⟨?_, wellFormed.tail⟩
    intro action member
    rcases List.mem_append.mp member with before | last
    · exact wellFormed.owners action before
    · rw [List.mem_singleton.mp last]
      exact resolved
  | updateAction actionId status ownerAttendeeId dueIso supportingQuote =>
    rw [ToolCall.perform]
    split
    next after patched =>
      rw [updateAction_cases patched]
      refine ⟨?_, wellFormed.tail⟩
      intro action member oid owner
      rcases mem_modifyFirst member with before | ⟨old, before, rfl⟩
      · exact wellFormed.owners action before oid owner
      · rcases Option.or_eq_some_iff.mp owner with new | ⟨-, old'⟩
        · exact resolved oid new
        · exact wellFormed.owners old before oid old'
    next => exact wellFormed.of_ledger rfl
  | reviseTailSegment text startTurnIndex endTurnIndex =>
    rw [ToolCall.perform]
    split
    · exact wellFormed
    · exact (reviseTailSegment_wellFormed wellFormed text startTurnIndex endTurnIndex answer.uuid).of_ledger rfl
  | finalizeSegment => exact (finalizeSegment_wellFormed wellFormed).of_ledger rfl
  | regenerateRunning => exact ⟨wellFormed.owners, wellFormed.tail⟩
  | setTitle title => exact wellFormed.of_ledger rfl
  | finalize tldr => exact (finalize_wellFormed wellFormed tldr).of_ledger rfl
  | advanceWatermark turnIndex => exact wellFormed.of_ledger rfl

theorem perform_error {e : MeetingsHarnessError}
    (failed : (call.perform toLowercase answer analysis).1 = .error e) :
    (call.perform toLowercase answer analysis).2.ledger = analysis.ledger := by
  cases call with
  | updateAction actionId status ownerAttendeeId dueIso supportingQuote =>
    rw [ToolCall.perform] at failed ⊢
    split at failed
    next => cases failed
    next => rfl
  | reviseTailSegment text startTurnIndex endTurnIndex =>
    rw [ToolCall.perform] at failed ⊢
    split at failed
    next reversed =>
      rw [if_pos reversed]
    next => cases failed
  | upsertAttendee | appendNote | appendAction | finalizeSegment | regenerateRunning | setTitle | finalize
  | advanceWatermark => cases failed

end Perform

section Turns

variable {toLowercase : String → String} {answer : LedgerAnswer} {task task' : ToolTask}

def ToolTask.Sound (task : ToolTask) (analysis : MeetingAnalysis) : Prop :=
  match task.phase with
  | .resolved => ∀ oid ∈ task.call.owner, oid ∈ analysis.attendees.map Attendee.id
  | _ => True

theorem ToolTask.Sound.grown (sound : task.Sound before) (grown : LedgerGrown before after) :
    task.Sound after := by
  obtain ⟨call, phase⟩ := task
  cases phase with
  | resolved => exact fun oid owner => grown.attendees.subset (sound oid owner)
  | called | returned => trivial

structure LedgerTurn (before : MeetingAnalysis) (task' : ToolTask) (after : MeetingAnalysis) : Prop where
  grown : LedgerGrown before after
  wellFormed : WellFormedLedger after
  sound : task'.Sound after
  writes : after.ledger = before.ledger ∨ ∃ result, task'.phase = .returned (.ok result)

theorem performTurn_ledger (wellFormed : WellFormedLedger before)
    (resolved : ∀ oid ∈ task.call.owner, oid ∈ before.attendees.map Attendee.id) :
    LedgerTurn before (task.performTurn toLowercase answer before).1
      (task.performTurn toLowercase answer before).2 := by
  refine ⟨perform_grown task.call, perform_wellFormed wellFormed resolved, trivial, ?_⟩
  cases result : (task.call.perform toLowercase answer before).1 with
  | error e => exact .inl (perform_error result)
  | ok value => exact .inr ⟨value, congrArg ToolPhase.returned result⟩

theorem turn_ledger (wellFormed : WellFormedLedger before) (sound : task.Sound before)
    (turned : task.turn toLowercase answer before = some (task', after)) : LedgerTurn before task' after := by
  obtain ⟨call, phase⟩ := task
  cases phase with
  | returned => cases turned
  | resolved =>
    cases turned
    exact performTurn_ledger wellFormed sound
  | called =>
    simp only [ToolTask.turn] at turned
    split at turned
    next ownerless =>
      cases turned
      exact performTurn_ledger wellFormed fun oid owner => by rw [ownerless] at owner; cases owner
    next oid owner =>
      cases turned
      refine ⟨.of_ledger rfl, wellFormed.of_ledger rfl, ?_, .inl rfl⟩
      simp only [ToolTask.Sound]
      split
      next resolved =>
        split at resolved
        next found =>
          rw [owner]
          rintro _ ⟨⟩
          exact (attendee_isSome_iff before oid).mp found
        next => cases resolved
      next => trivial

def ledgerRun (toLowercase : String → String) (conversationId : String) (now : Int) (calls : List ToolCall)
    (schedule : List (Nat × LedgerAnswer)) : Threads MeetingAnalysis ToolTask :=
  Operations.final (Threads.heard (ToolTask.turn toLowercase))
    { shared := MeetingAnalysis.new conversationId now, locals := calls.map fun call => ⟨call, .called⟩ } schedule

def SoundLedger (threads : Threads MeetingAnalysis ToolTask) : Prop :=
  WellFormedLedger threads.shared ∧
    ∀ (j : Nat) task, threads.locals[j]? = some task → task.Sound threads.shared

variable {threads : Threads MeetingAnalysis ToolTask}

variable (toLowercase) in
theorem heard_ledger (sound : SoundLedger threads) (event : Nat × LedgerAnswer) :
    SoundLedger (Threads.heard (ToolTask.turn toLowercase) threads event).2 ∧
      LedgerGrown threads.shared (Threads.heard (ToolTask.turn toLowercase) threads event).2.shared := by
  obtain ⟨i, answer⟩ := event
  rcases Threads.heard_cases threads i answer with ⟨-, same⟩ | ⟨own, own', turned⟩
  · rw [same]
    exact ⟨sound, .of_ledger rfl⟩
  · have step := turn_ledger sound.1 (sound.2 i own turned.before) turned.takes
    refine ⟨⟨step.wellFormed, ?_⟩, step.grown⟩
    exact turned.each (P := fun analysis _ task => task.Sound analysis) step.sound
      fun j other _ found => (sound.2 j other found).grown step.grown

variable (toLowercase) in
theorem final_ledger (sound : SoundLedger threads) (schedule : List (Nat × LedgerAnswer)) :
    SoundLedger (Operations.final (Threads.heard (ToolTask.turn toLowercase)) threads schedule) ∧
      LedgerGrown threads.shared
        (Operations.final (Threads.heard (ToolTask.turn toLowercase)) threads schedule).shared := by
  induction schedule generalizing threads with
  | nil => exact ⟨sound, .of_ledger rfl⟩
  | cons event rest ih =>
    obtain ⟨sound', grown⟩ := heard_ledger toLowercase sound event
    obtain ⟨last, grown'⟩ := ih sound'
    exact ⟨last, grown.trans grown'⟩

theorem startLedger_sound (conversationId : String) (now : Int) (calls : List ToolCall) :
    SoundLedger {
      shared := MeetingAnalysis.new conversationId now
      locals := calls.map fun call => ⟨call, .called⟩ } := by
  refine ⟨⟨by rintro _ ⟨⟩, by rintro _ ⟨⟩⟩, ?_⟩
  intro j task found
  rw [List.getElem?_map, Option.map_eq_some_iff] at found
  obtain ⟨call, -, rfl⟩ := found
  trivial

variable (toLowercase) in
theorem returned_stays {j : Nat} {result : Except MeetingsHarnessError ToolReturn}
    (found : threads.locals[j]? = some task) (returned : task.phase = .returned result)
    (schedule : List (Nat × LedgerAnswer)) :
    (Operations.final (Threads.heard (ToolTask.turn toLowercase)) threads schedule).locals[j]? = some task := by
  refine Operations.final_keeps (fun threads => threads.locals[j]? = some task) ?_ threads schedule found
  rintro threads ⟨i, answer⟩ found
  rcases Threads.heard_cases threads i answer with ⟨-, same⟩ | ⟨own, own', turned⟩
  · rw [same]
    exact found
  · by_cases mine : j = i
    · have takes := turned.takes
      rw [← mine] at turned
      have same := turned.before
      rw [found, Option.some_inj] at same
      rw [← same, ToolTask.turn, returned] at takes
      cases takes
    · rw [turned.others j mine]
      exact found

/-- Whatever the tools do in whichever order, the ledgers and the frozen segments of a snapshot are those of every
later one, owners are on the roster, only the last segment is open, and a call that fails leaves everything. -/
theorem ledger_invariants (toLowercase : String → String) (conversationId : String) (now : Int)
    (calls : List ToolCall) (front back : List (Nat × LedgerAnswer)) :
    LedgerGrown (ledgerRun toLowercase conversationId now calls front).shared
        (ledgerRun toLowercase conversationId now calls (front ++ back)).shared ∧
      WellFormedLedger (ledgerRun toLowercase conversationId now calls (front ++ back)).shared ∧
      ∀ (j : Nat) answer task e,
        (ledgerRun toLowercase conversationId now calls (front ++ (j, answer) :: back)).locals[j]? = some task →
        task.phase = .returned (.error e) →
        (ledgerRun toLowercase conversationId now calls (front ++ [(j, answer)])).shared.ledger =
          (ledgerRun toLowercase conversationId now calls front).shared.ledger := by
  have sound := (final_ledger toLowercase (startLedger_sound conversationId now calls) front).1
  simp only [ledgerRun, Operations.final_append]
  refine ⟨(final_ledger toLowercase sound back).2, (final_ledger toLowercase sound back).1.1, ?_⟩
  intro j answer task e found failed
  generalize Operations.final (Threads.heard (ToolTask.turn toLowercase)) _ front = threads at sound found ⊢
  rcases Threads.heard_cases threads j answer with ⟨-, same⟩ | ⟨own, own', turned⟩
  · exact congrArg (fun threads => threads.shared.ledger) same
  · rcases (turn_ledger sound.1 (sound.2 j own turned.before) turned.takes).writes with same | ⟨value, written⟩
    · exact same
    · rw [Operations.final, returned_stays toLowercase turned.after written back, Option.some_inj] at found
      rw [← found, written] at failed
      cases failed

end Turns

end AtomrAgents
