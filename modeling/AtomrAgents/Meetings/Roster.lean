import AtomrAgents.Meetings.Analysis
import AtomrAgents.Shared.Operations
import Mathlib.Data.List.Pairwise

set_option autoImplicit false

namespace AtomrAgents

open Shared

structure AttendeeUpsert where
  displayName : String
  role : Option String
  speakerTags : List UInt8
  email : Option String

def AttendeeUpsert.call (upsert : AttendeeUpsert) : ToolCall :=
  .upsertAttendee upsert.displayName upsert.role upsert.speakerTags upsert.email

variable (toLowercase : String → String)

def MeetingAnalysis.upserted (analysis : MeetingAnalysis) (op : AttendeeUpsert × LedgerAnswer) :
    Except MeetingsHarnessError ToolReturn × MeetingAnalysis :=
  op.1.call.perform toLowercase op.2 analysis

-- Neither the name nor a tag is that of the other.
def Attendee.Apart (a b : Attendee) : Prop :=
  toLowercase a.displayName ≠ toLowercase b.displayName ∧ ∀ t ∈ a.speakerTags, t ∉ b.speakerTags

structure UnambiguousRoster (analysis : MeetingAnalysis) : Prop where
  apart : analysis.attendees.Pairwise (Attendee.Apart toLowercase)
  speakers : ∀ a ∈ analysis.attendees, ∀ t ∈ a.speakerTags, analysis.attendeeForSpeaker t = some a

-- At most one attendee has the name or one of the tags.
def AttendeeUpsert.PointsAtOne (upsert : AttendeeUpsert) (analysis : MeetingAnalysis) : Prop :=
  (analysis.attendees.filter
    (MeetingAnalysis.matchesAttendee toLowercase upsert.displayName upsert.speakerTags)).length ≤ 1

def AttendeeUpsert.newAttendee (upsert : AttendeeUpsert) (uuid : String) : Attendee where
  id := uuid
  displayName := upsert.displayName
  role := upsert.role
  speakerTags := upsert.speakerTags
  email := upsert.email

variable {toLowercase} {analysis : MeetingAnalysis} {upsert : AttendeeUpsert} {answer : LedgerAnswer}

theorem Attendee.Apart.symm {a b : Attendee} (apart : a.Apart toLowercase b) : b.Apart toLowercase a :=
  ⟨apart.1.symm, fun t there here => apart.2 t here there⟩

theorem matchesAttendee_iff (upsert : AttendeeUpsert) (uuid : String) (x : Attendee) :
    MeetingAnalysis.matchesAttendee toLowercase upsert.displayName upsert.speakerTags x = true ↔
      ¬ x.Apart toLowercase (upsert.newAttendee uuid) := by
  simp only [MeetingAnalysis.matchesAttendee, Attendee.Apart, AttendeeUpsert.newAttendee, Bool.or_eq_true,
    beq_iff_eq, List.any_eq_true, List.contains_eq_mem, decide_eq_true_eq]
  grind

theorem matchesAttendee_eq_false (upsert : AttendeeUpsert) (uuid : String) (x : Attendee) :
    MeetingAnalysis.matchesAttendee toLowercase upsert.displayName upsert.speakerTags x = false ↔
      x.Apart toLowercase (upsert.newAttendee uuid) := by
  rw [← Bool.not_eq_true, matchesAttendee_iff upsert uuid, not_not]

theorem unmatched_iff (attendees : List Attendee) (upsert : AttendeeUpsert) (uuid : String) :
    (∀ x ∈ attendees, x.Apart toLowercase (upsert.newAttendee uuid)) ↔
      (attendees.filter
        (MeetingAnalysis.matchesAttendee toLowercase upsert.displayName upsert.speakerTags)).length = 0 := by
  rw [List.length_eq_zero_iff, List.filter_eq_nil_iff]
  refine forall₂_congr fun x _ => ?_
  rw [matchesAttendee_iff upsert uuid, not_not]

theorem mem_mergedTags (tags speakerTags : List UInt8) (t : UInt8) :
    t ∈ speakerTags.foldl (fun tags tag => if tags.contains tag then tags else tags ++ [tag]) tags ↔
      t ∈ tags ∨ t ∈ speakerTags := by
  induction speakerTags generalizing tags with
  | nil => simp
  | cons tag speakerTags ih =>
    rw [List.foldl_cons, ih, List.mem_cons]
    split
    next known =>
      have inside : tag ∈ tags := by simpa using known
      grind
    next => grind

theorem apart_mergeAttendee_iff {x y : Attendee} (apart : y.Apart toLowercase x) (uuid : String) :
    y.Apart toLowercase (MeetingAnalysis.mergeAttendee toLowercase upsert.displayName upsert.role
      upsert.speakerTags upsert.email x) ↔ y.Apart toLowercase (upsert.newAttendee uuid) := by
  have name : toLowercase (if toLowercase x.displayName ≠ toLowercase upsert.displayName then upsert.displayName
      else x.displayName) = toLowercase upsert.displayName := by
    split
    next => rfl
    next same => exact not_not.mp same
  simp only [Attendee.Apart, MeetingAnalysis.mergeAttendee, AttendeeUpsert.newAttendee, mem_mergedTags, name]
  have tags := apart.2
  grind

theorem speakers_of_apart (apart : analysis.attendees.Pairwise (Attendee.Apart toLowercase)) {a : Attendee}
    (member : a ∈ analysis.attendees) {t : UInt8} (tagged : t ∈ a.speakerTags) :
    analysis.attendeeForSpeaker t = some a := by
  obtain ⟨front, back, split⟩ := List.append_of_mem member
  rw [MeetingAnalysis.attendeeForSpeaker, List.find?_eq_some_iff_append]
  refine ⟨by simpa using tagged, front, back, split, ?_⟩
  intro b before
  rw [split, List.pairwise_append] at apart
  have other := apart.2.2 b before a List.mem_cons_self
  have missing : t ∉ b.speakerTags := fun here => other.2 t here tagged
  grind

theorem unambiguous_iff :
    UnambiguousRoster toLowercase analysis ↔ analysis.attendees.Pairwise (Attendee.Apart toLowercase) := by
  constructor
  · exact UnambiguousRoster.apart
  · exact fun apart => ⟨apart, fun _ member _ tagged => speakers_of_apart apart member tagged⟩

theorem upserted_cases (toLowercase : String → String) (analysis : MeetingAnalysis) (upsert : AttendeeUpsert)
    (answer : LedgerAnswer) :
    (∀ x ∈ analysis.attendees, x.Apart toLowercase (upsert.newAttendee answer.uuid)) ∧
        (analysis.upserted toLowercase (upsert, answer)).2.attendees =
          analysis.attendees ++ [upsert.newAttendee answer.uuid] ∨
      ∃ front x rest, analysis.attendees = front ++ x :: rest ∧
        ¬ x.Apart toLowercase (upsert.newAttendee answer.uuid) ∧
        (analysis.upserted toLowercase (upsert, answer)).2.attendees =
          front ++ MeetingAnalysis.mergeAttendee toLowercase upsert.displayName upsert.role upsert.speakerTags
            upsert.email x :: rest := by
  simp only [MeetingAnalysis.upserted, AttendeeUpsert.call, ToolCall.perform, MeetingAnalysis.upsertAttendee]
  split
  next x found =>
    obtain ⟨matched, front, rest, parts, others⟩ := List.find?_eq_some_iff_append.mp found
    refine .inr ⟨front, x, rest, parts, (matchesAttendee_iff upsert _ x).mp matched, ?_⟩
    rw [MeetingAnalysis.touch, parts]
    exact modifyFirst_append (fun y before => by simpa using others y before) matched rest
  next missing =>
    refine .inl ⟨fun x member => (matchesAttendee_eq_false upsert _ x).mp ?_, rfl⟩
    simpa using List.find?_eq_none.mp missing x member

theorem upserted_unambiguous_iff (unambiguous : UnambiguousRoster toLowercase analysis) :
    UnambiguousRoster toLowercase (analysis.upserted toLowercase (upsert, answer)).2 ↔
      upsert.PointsAtOne toLowercase analysis := by
  have apart := unambiguous.apart
  have symm : ∀ {a b : Attendee}, a.Apart toLowercase b → b.Apart toLowercase a := Attendee.Apart.symm
  rw [unambiguous_iff, AttendeeUpsert.PointsAtOne]
  rcases upserted_cases toLowercase analysis upsert answer with
    ⟨others, result⟩ | ⟨front, x, rest, parts, matched, result⟩
  · have none : analysis.attendees.filter
        (MeetingAnalysis.matchesAttendee toLowercase upsert.displayName upsert.speakerTags) = [] := by
      rw [List.filter_eq_nil_iff]
      intro x member
      rw [matchesAttendee_iff upsert answer.uuid]
      exact not_not.mpr (others x member)
    rw [result, none, List.pairwise_append]
    simp only [List.length_nil, Nat.zero_le, iff_true]
    exact ⟨apart, List.pairwise_singleton _ _, fun x member b last => List.mem_singleton.mp last ▸ others x member⟩
  · rw [parts, List.pairwise_middle symm, List.pairwise_cons] at apart
    rw [result, List.pairwise_middle symm, List.pairwise_cons, parts]
    have here := (matchesAttendee_iff upsert answer.uuid x).mpr matched
    have alone : (∀ y ∈ front ++ rest, y.Apart toLowercase (upsert.newAttendee answer.uuid)) ↔
        ((front ++ x :: rest).filter
          (MeetingAnalysis.matchesAttendee toLowercase upsert.displayName upsert.speakerTags)).length ≤ 1 := by
      rw [List.filter_append, List.filter_cons_of_pos here, List.length_append, List.length_cons]
      rw [List.forall_mem_append, unmatched_iff front, unmatched_iff rest]
      omega
    rw [← alone]
    constructor
    · rintro ⟨merged, -⟩ y member
      exact (apart_mergeAttendee_iff (apart.1 y member).symm answer.uuid).mp (merged y member).symm
    · intro others
      refine ⟨fun y member => ?_, apart.2⟩
      exact ((apart_mergeAttendee_iff (apart.1 y member).symm answer.uuid).mpr (others y member)).symm

/-- All rosters of a run are unambiguous exactly if every call points at one attendee at most. -/
theorem roster_unambiguous_iff (toLowercase : String → String) (analysis : MeetingAnalysis)
    (calls : List (AttendeeUpsert × LedgerAnswer)) :
    (∀ front, front <+: calls → UnambiguousRoster toLowercase
        (Operations.final (MeetingAnalysis.upserted toLowercase) { analysis with attendees := [] } front)) ↔
      Operations.Along (MeetingAnalysis.upserted toLowercase)
        (fun analysis call => call.1.PointsAtOne toLowercase analysis) { analysis with attendees := [] } calls := by
  constructor
  · intro unambiguous
    by_contra broken
    obtain ⟨front, op, rest, rfl, -, fails⟩ := Operations.exists_break _ calls broken
    have before := unambiguous front (List.prefix_append _ _)
    have after := unambiguous (front ++ [op]) ⟨rest, by simp⟩
    rw [Operations.final_append] at after
    exact fails ((upserted_unambiguous_iff before).mp after)
  · rintro along front ⟨rest, rfl⟩
    have start : UnambiguousRoster toLowercase { analysis with attendees := [] } :=
      unambiguous_iff.mpr List.Pairwise.nil
    refine Operations.final_invariant _ (UnambiguousRoster toLowercase) ?_ _ front start
      ((Operations.along_append _ _ _ _).mp along).1
    intro analysis call unambiguous points
    exact (upserted_unambiguous_iff unambiguous).mpr points

def speaks (displayName : String) (tag : UInt8) : AttendeeUpsert × LedgerAnswer :=
  ({ displayName, role := none, speakerTags := [tag], email := none }, { now := 0, uuid := displayName })

theorem tag_shared :
    ¬ UnambiguousRoster id (Operations.final (MeetingAnalysis.upserted id) (MeetingAnalysis.new "call" 0)
      [speaks "alice" 1, speaks "bob" 2, speaks "alice" 2]) := by
  intro unambiguous
  have tags : (Operations.final (MeetingAnalysis.upserted id) (MeetingAnalysis.new "call" 0)
      [speaks "alice" 1, speaks "bob" 2, speaks "alice" 2]).attendees.map Attendee.speakerTags = [[1, 2], [2]] := by
    decide
  have apart : (List.map Attendee.speakerTags _).Pairwise fun a b => ∀ t ∈ a, t ∉ b :=
    List.pairwise_map.mpr (unambiguous.apart.imp fun apart => apart.2)
  rw [tags] at apart
  simp at apart

end AtomrAgents
