import AtomrAgents.Meetings.Extractor
import AtomrAgents.Meetings.Store
import AtomrAgents.Shared.ReadModifyWrite

set_option autoImplicit false

namespace AtomrAgents

open Shared ReadModifyWrite

def Given {α : Type} (patch : Option α) (value : α) : Prop := ∀ x, patch = some x → value = x

def NotBoth {α : Type} (patch other : Option α) : Prop := patch = none ∨ other = none

section Patches

variable {α : Type} {patch other : Option α} {old : α}

theorem given_getD (patch : Option α) (old : α) : Given patch (patch.getD old) := by
  rintro x rfl
  rfl

theorem Given.getD (given : Given other old) (different : NotBoth patch other) :
    Given other (patch.getD old) := by
  rcases different with rfl | rfl
  · exact given
  · intro x absent
    cases absent

theorem or_eq_getD (patch old : Option α) : patch.or old = (patch.map some).getD old := by
  cases patch <;> rfl

theorem NotBoth.map (different : NotBoth patch other) : NotBoth (patch.map some) (other.map some) := by
  rcases different with rfl | rfl
  · exact .inl rfl
  · exact .inr rfl

theorem NotBoth.symm (different : NotBoth patch other) : NotBoth other patch := Or.symm different

end Patches

section Rows

variable {α : Type} {id : α → String} {change : α → α} {rows : List α} {row : α}

theorem find_patched (kept : ∀ x, id (change x) = id x) {k : String}
    (found : (rows.find? fun x => id x == k) = some row) :
    ((modifyFirst (fun x => id x == k) change rows).find? fun x => id x == k) = some (change row) := by
  rw [find?_modifyFirst_self fun x => by rw [kept], found]
  rfl

theorem find_unpatched (kept : ∀ x, id (change x) = id x) {k k' : String} (different : k ≠ k')
    (found : (rows.find? fun x => id x == k') = some row) :
    ((modifyFirst (fun x => id x == k) change rows).find? fun x => id x == k') = some row := by
  rw [find?_modifyFirst_other, found]
  intro x same
  rw [beq_iff_eq] at same
  rw [kept, same, beq_eq_false_iff_ne]
  exact ⟨different, different⟩

theorem patchAttendee_id (displayName role email : Option String) (att : Attendee) :
    (patchAttendee displayName role email att).id = att.id := rfl

theorem patchAction_id (status : Option ActionStatus) (ownerAttendeeId dueIso supportingQuote : Option String)
    (action : Action) :
    (MeetingAnalysis.patchAction status ownerAttendeeId dueIso supportingQuote action).id = action.id := rfl

end Rows

namespace MeetingEdit

def Shows : MeetingEdit → MeetingAnalysis → Prop
  | .updateAttendee attendeeId displayName role email _, a =>
    ∃ att, a.attendee attendeeId = some att ∧ Given displayName att.displayName ∧
      Given (role.map some) att.role ∧ Given (email.map some) att.email
  | .updateAction actionId status ownerAttendeeId dueIso _, a =>
    ∃ action, (a.actions.find? fun act => act.id == actionId) = some action ∧ Given status action.status ∧
      Given (ownerAttendeeId.map some) action.ownerAttendeeId ∧ Given (dueIso.map some) action.dueIso

-- Different rows, or different fields.
def Apart : MeetingEdit → MeetingEdit → Prop
  | .updateAttendee attendeeId displayName role email _,
    .updateAttendee attendeeId' displayName' role' email' _ =>
    attendeeId ≠ attendeeId' ∨ NotBoth displayName displayName' ∧ NotBoth role role' ∧ NotBoth email email'
  | .updateAction actionId status ownerAttendeeId dueIso _,
    .updateAction actionId' status' ownerAttendeeId' dueIso' _ =>
    actionId ≠ actionId' ∨
      NotBoth status status' ∧ NotBoth ownerAttendeeId ownerAttendeeId' ∧ NotBoth dueIso dueIso'
  | _, _ => True

theorem apply_updateAttendee {attendeeId : String} {displayName role email : Option String} {now : Int}
    {a changed : MeetingAnalysis}
    (applied : apply (.updateAttendee attendeeId displayName role email now) a = .ok changed) :
    (∃ att, a.attendee attendeeId = some att) ∧
      changed = { a with
        attendees := modifyFirst (fun att => att.id == attendeeId) (patchAttendee displayName role email)
          a.attendees
        updatedAtMs := now } := by
  rw [apply] at applied
  split at applied
  · cases applied
  · next att found =>
    cases applied
    exact ⟨⟨att, found⟩, rfl⟩

theorem apply_updateAction {actionId : String} {status : Option ActionStatus}
    {ownerAttendeeId dueIso : Option String} {now : Int} {a changed : MeetingAnalysis}
    (applied : apply (.updateAction actionId status ownerAttendeeId dueIso now) a = .ok changed) :
    (∃ action, (a.actions.find? fun act => act.id == actionId) = some action) ∧
      changed = { a with
        actions := modifyFirst (fun act => act.id == actionId)
          (MeetingAnalysis.patchAction status ownerAttendeeId dueIso none) a.actions
        updatedAtMs := now } := by
  rw [apply] at applied
  split at applied
  · cases applied
  · rw [MeetingAnalysis.updateAction] at applied
    by_cases present : a.actions.any fun act => act.id == actionId
    · rw [if_pos present] at applied
      cases applied
      rw [List.any_eq_true, ← List.find?_isSome, Option.isSome_iff_exists] at present
      exact ⟨present, rfl⟩
    · rw [if_neg present] at applied
      cases applied

theorem shows_apply {edit : MeetingEdit} {a changed : MeetingAnalysis}
    (applied : edit.apply a = .ok changed) : edit.Shows changed := by
  cases edit with
  | updateAttendee attendeeId displayName role email now =>
    obtain ⟨⟨att, found⟩, rfl⟩ := apply_updateAttendee applied
    rw [MeetingAnalysis.attendee] at found
    refine ⟨patchAttendee displayName role email att, ?_, given_getD _ _, ?_, ?_⟩
    · exact find_patched (patchAttendee_id displayName role email) found
    · rw [patchAttendee, or_eq_getD]
      exact given_getD _ _
    · rw [patchAttendee, or_eq_getD email]
      exact given_getD _ _
  | updateAction actionId status ownerAttendeeId dueIso now =>
    obtain ⟨⟨action, found⟩, rfl⟩ := apply_updateAction applied
    refine ⟨MeetingAnalysis.patchAction status ownerAttendeeId dueIso none action, ?_, given_getD _ _, ?_, ?_⟩
    · exact find_patched (patchAction_id status ownerAttendeeId dueIso none) found
    · rw [MeetingAnalysis.patchAction, or_eq_getD]
      exact given_getD _ _
    · rw [MeetingAnalysis.patchAction, or_eq_getD dueIso]
      exact given_getD _ _

theorem keeps_attendee {attendeeId : String} {displayName role email : Option String} {now : Int}
    {a changed : MeetingAnalysis}
    (applied : apply (.updateAttendee attendeeId displayName role email now) a = .ok changed)
    {other : MeetingEdit} (apart : Apart (.updateAttendee attendeeId displayName role email now) other)
    (shows : other.Shows a) : other.Shows changed := by
  obtain ⟨-, rfl⟩ := apply_updateAttendee applied
  cases other with
  | updateAction => exact shows
  | updateAttendee attendeeId' displayName' role' email' now' =>
    obtain ⟨att, found, name, role_, email_⟩ := shows
    rw [MeetingAnalysis.attendee] at found
    by_cases same : attendeeId = attendeeId'
    · subst same
      obtain different | ⟨names, roles, emails⟩ := apart
      · exact absurd rfl different
      · refine ⟨patchAttendee displayName role email att, ?_, name.getD names, ?_, ?_⟩
        · exact find_patched (patchAttendee_id displayName role email) found
        · rw [patchAttendee, or_eq_getD]
          exact role_.getD roles.map
        · rw [patchAttendee, or_eq_getD email]
          exact email_.getD emails.map
    · refine ⟨att, ?_, name, role_, email_⟩
      exact find_unpatched (patchAttendee_id displayName role email) same found

theorem keeps_action {actionId : String} {status : Option ActionStatus} {ownerAttendeeId dueIso : Option String}
    {now : Int} {a changed : MeetingAnalysis}
    (applied : apply (.updateAction actionId status ownerAttendeeId dueIso now) a = .ok changed)
    {other : MeetingEdit} (apart : Apart (.updateAction actionId status ownerAttendeeId dueIso now) other)
    (shows : other.Shows a) : other.Shows changed := by
  obtain ⟨-, rfl⟩ := apply_updateAction applied
  cases other with
  | updateAttendee => exact shows
  | updateAction actionId' status' ownerAttendeeId' dueIso' now' =>
    obtain ⟨action, found, status_, owner, due⟩ := shows
    by_cases same : actionId = actionId'
    · subst same
      obtain different | ⟨statuses, owners, dues⟩ := apart
      · exact absurd rfl different
      · refine ⟨MeetingAnalysis.patchAction status ownerAttendeeId dueIso none action, ?_,
          status_.getD statuses, ?_, ?_⟩
        · exact find_patched (patchAction_id status ownerAttendeeId dueIso none) found
        · rw [MeetingAnalysis.patchAction, or_eq_getD]
          exact owner.getD owners.map
        · rw [MeetingAnalysis.patchAction, or_eq_getD dueIso]
          exact due.getD dues.map
    · refine ⟨action, ?_, status_, owner, due⟩
      exact find_unpatched (patchAction_id status ownerAttendeeId dueIso none) same found

theorem effects : Effects apply MeetingAnalysis.id Shows Apart where
  key_apply edit record changed applied := by
    cases edit with
    | updateAttendee =>
      obtain ⟨-, rfl⟩ := apply_updateAttendee applied
      rfl
    | updateAction =>
      obtain ⟨-, rfl⟩ := apply_updateAction applied
      rfl
  shows_apply _ _ _ := shows_apply
  keeps edit other record changed applied apart shows := by
    cases edit with
    | updateAttendee => exact keeps_attendee applied apart shows
    | updateAction => exact keeps_action applied apart shows
  symm edit other apart := by
    cases edit <;> cases other
    · exact apart.imp Ne.symm fun fields => ⟨fields.1.symm, fields.2.1.symm, fields.2.2.symm⟩
    · trivial
    · trivial
    · exact apart.imp Ne.symm fun fields => ⟨fields.1.symm, fields.2.1.symm, fields.2.2.symm⟩

end MeetingEdit

-- `rename_speaker`.
structure SpeakerRename where
  speakerId : UInt8
  label : String

def SttConversation.renameSpeaker (conv : SttConversation) (speakerId : UInt8) (label : String) :
    SttConversation :=
  { conv with speakerLabels := Function.update conv.speakerLabels speakerId (some label) }

abbrev InMemoryConversationStore := Table SttConversation.id

namespace SpeakerRename

def apply (rename : SpeakerRename) (conv : SttConversation) : Except Empty SttConversation :=
  .ok (conv.renameSpeaker rename.speakerId rename.label)

def Shows (rename : SpeakerRename) (conv : SttConversation) : Prop :=
  conv.speakerLabels rename.speakerId = some rename.label

def Apart (rename other : SpeakerRename) : Prop := rename.speakerId ≠ other.speakerId

theorem effects : Effects apply SttConversation.id Shows Apart where
  key_apply _ _ _ applied := by
    cases applied
    rfl
  shows_apply _ _ _ applied := by
    cases applied
    exact Function.update_self ..
  keeps _ _ _ _ applied apart shows := by
    cases applied
    exact (Function.update_of_ne apart.symm ..).trans shows
  symm _ _ := Ne.symm

end SpeakerRename

/-- In a run in which every record is put back over the one that was read, the stored record has the effect of every
call that returned it. -/
theorem edits_last (id : String) (schedule : List Nat) :
    (∀ (store : InMemoryMeetingsStore) (edits : List MeetingEdit) (last),
      edits.Pairwise MeetingEdit.Apart →
      Threads.Along (turn MeetingEdit.apply id) (ReadsLast id) (start store edits) schedule →
      Threads.run (turn MeetingEdit.apply id) (start store edits) schedule = some last →
      ∀ call ∈ last.locals, ∀ record, call.phase = .returned (.ok (some record)) →
        ∃ stored, last.shared.find id = some stored ∧ call.edit.Shows stored) ∧
    ∀ (store : InMemoryConversationStore) (renames : List SpeakerRename) (last),
      renames.Pairwise SpeakerRename.Apart →
      Threads.Along (turn SpeakerRename.apply id) (ReadsLast id) (start store renames) schedule →
      Threads.run (turn SpeakerRename.apply id) (start store renames) schedule = some last →
      ∀ call ∈ last.locals, ∀ record, call.phase = .returned (.ok (some record)) →
        ∃ stored, last.shared.find id = some stored ∧ call.edit.Shows stored := by
  constructor
  · intro store edits last different along ran
    exact no_edit_lost MeetingEdit.effects store different schedule along ran
  · intro store renames last different along ran
    exact no_edit_lost SpeakerRename.effects store different schedule along ran

def reviewed : MeetingAnalysis :=
  { MeetingAnalysis.new "c1" 0 with
    attendees := [{ id := "att-1", displayName := "Alice", role := none, speakerTags := [0], email := none }]
    actions := [{
      id := "act-1"
      description := "Ship"
      ownerAttendeeId := some "att-1"
      dueIso := none
      supportingQuote := none
      sourceTurnIndex := none
      status := .«open» }] }

def reviewEdits : List MeetingEdit :=
  [.updateAttendee "att-1" none (some "Chair") none 1, .updateAction "act-1" (some .done) none none 2]

def speakerRenames : List SpeakerRename := [{ speakerId := 0, label := "Alice" }, { speakerId := 1, label := "Bob" }]

def reviewedStore : InMemoryMeetingsStore := InMemoryMeetingsStore.put Table.empty reviewed

def recordedStore : InMemoryConversationStore := Table.empty.upsert (SttConversation.new "c1")

theorem reviewEdits_apart : reviewEdits.Pairwise MeetingEdit.Apart := by
  simp [reviewEdits, MeetingEdit.Apart]

theorem speakerRenames_apart : speakerRenames.Pairwise SpeakerRename.Apart := by
  simp [speakerRenames, SpeakerRename.Apart]

-- Each call puts before the next one reads.
theorem edits_in_turn_last :
    (∃ last, Threads.run (turn MeetingEdit.apply "c1") (start reviewedStore reviewEdits) [0, 0, 1, 1] =
        some last ∧
      ∀ call ∈ last.locals, ∀ record, call.phase = .returned (.ok (some record)) →
        ∃ stored, last.shared.find "c1" = some stored ∧ call.edit.Shows stored) ∧
    ∃ last, Threads.run (turn SpeakerRename.apply "c1") (start recordedStore speakerRenames) [0, 0, 1, 1] =
        some last ∧
      ∀ call ∈ last.locals, ∀ record, call.phase = .returned (.ok (some record)) →
        ∃ stored, last.shared.find "c1" = some stored ∧ call.edit.Shows stored := by
  constructor
  · refine ⟨_, rfl, (edits_last "c1" [0, 0, 1, 1]).1 reviewedStore reviewEdits _ reviewEdits_apart ?_ rfl⟩
    refine Threads.along_cons ?_ rfl (Threads.along_cons ?_ rfl (Threads.along_cons ?_ rfl
      (Threads.along_cons ?_ rfl trivial))) <;> rintro call ⟨⟩ read changed ⟨⟩ <;> rfl
  · refine ⟨_, rfl, (edits_last "c1" [0, 0, 1, 1]).2 recordedStore speakerRenames _ speakerRenames_apart ?_ rfl⟩
    refine Threads.along_cons ?_ rfl (Threads.along_cons ?_ rfl (Threads.along_cons ?_ rfl
      (Threads.along_cons ?_ rfl trivial))) <;> rintro call ⟨⟩ read changed ⟨⟩ <;> rfl

/-- The second put brings back what the first edit had changed. -/
theorem crossed_edits_lost :
    (reviewEdits.Pairwise MeetingEdit.Apart ∧
      ∃ last, Threads.run (turn MeetingEdit.apply "c1") (start reviewedStore reviewEdits) [0, 1, 0, 1] =
          some last ∧
        (∀ call ∈ last.locals, ∃ record, call.phase = .returned (.ok (some record))) ∧
        ∃ call ∈ last.locals, ∀ stored, last.shared.find "c1" = some stored → ¬ call.edit.Shows stored) ∧
    speakerRenames.Pairwise SpeakerRename.Apart ∧
      ∃ last, Threads.run (turn SpeakerRename.apply "c1") (start recordedStore speakerRenames) [0, 1, 0, 1] =
          some last ∧
        (∀ call ∈ last.locals, ∃ record, call.phase = .returned (.ok (some record))) ∧
        ∃ call ∈ last.locals, ∀ stored, last.shared.find "c1" = some stored → ¬ call.edit.Shows stored := by
  refine ⟨⟨reviewEdits_apart, _, rfl, ?_, _, .head _, ?_⟩, speakerRenames_apart, _, rfl, ?_, _, .head _, ?_⟩
  · intro call member
    rcases List.mem_pair.mp member with rfl | rfl <;> exact ⟨_, rfl⟩
  · rintro stored found ⟨att, here, -, role, -⟩
    cases found
    cases here
    cases role "Chair" rfl
  · intro call member
    rcases List.mem_pair.mp member with rfl | rfl <;> exact ⟨_, rfl⟩
  · intro stored found label
    cases found
    cases label

end AtomrAgents
