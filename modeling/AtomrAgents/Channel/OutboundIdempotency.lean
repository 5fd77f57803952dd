import AtomrAgents.Channel.Outbound
import Mathlib.Data.List.Nodup

set_option autoImplicit false

/-! Under each of the worker's threads the log of the store is the list of accepted sends, but for the one
that is still to be recorded. A key that is looked up there is found exactly if it was sent. -/

namespace AtomrAgents

open Shared

namespace WorkerPhase

def job : WorkerPhase → Option OutboundMessage
  | .idle => none
  | .received job | .unsent job | .sending job _ | .acked job _ => some job

def pending : WorkerPhase → List AcceptedSend
  | .acked job ack => [.of job ack]
  | _ => []

def unaccepted : WorkerPhase → Option OutboundMessage
  | .unsent job | .sending job _ => some job
  | _ => none

def Calls (calls : Nat) : WorkerPhase → Prop
  | .received _ | .unsent _ => calls = 0
  | .sending _ attempt => calls = attempt ∧ attempt < maxAttempts
  | _ => calls ≤ maxAttempts

end WorkerPhase

namespace OutboundWorld

variable {T : Type} {own : ThreadId → Prop} {world : OutboundWorld T}

structure Sound (own : ThreadId → Prop) (world : OutboundWorld T) : Prop where
  ownJob : ∀ job ∈ world.phase.job, own job.threadId
  ownSends : ∀ send ∈ acceptedSends world.events, own send.threadId
  unkeyed : ∀ thread, own thread → ∀ record ∈ world.store.messages thread,
    record.direction = .inbound → record.idempotencyKey = none
  recorded : ∀ thread, own thread →
    (acceptedFor world.events thread).map AcceptedSend.entry =
      (world.store.outboundLog thread).map ChannelMessageRecord.entry ++
        (world.phase.pending.filter fun send => send.threadId = thread).map AcceptedSend.entry
  distinct : ((acceptedSends world.events).map AcceptedSend.slot).Nodup
  fresh : ∀ job ∈ world.phase.unaccepted, ∀ send ∈ acceptedSends world.events,
    send.slot ≠ (job.threadId, job.idempotencyKey)
  acknowledged : world.events.Pairwise WorkerEvent.Acknowledged
  calls : world.phase.Calls (callsOfJob world.events)

section Events

variable {events : List WorkerEvent} {job : OutboundMessage}

theorem entry_injective {send send' : AcceptedSend} (same : send.entry = send'.entry) : send = send' := by
  cases send
  cases send'
  cases same
  rfl

theorem acceptedSends_append (events events' : List WorkerEvent) :
    acceptedSends (events ++ events') = acceptedSends events ++ acceptedSends events' :=
  List.filterMap_append

theorem callsOfJob_received (events : List WorkerEvent) (job : OutboundMessage) :
    callsOfJob (events ++ [.received job]) = 0 := by
  simp [callsOfJob, WorkerEvent.isReceived]

theorem callsOfJob_sent (events : List WorkerEvent) (job : OutboundMessage)
    (answer : Except ChannelError ProviderAck) :
    callsOfJob (events ++ [.sent job answer]) = callsOfJob events + 1 := by
  rw [callsOfJob, List.reverse_append, List.reverse_singleton, List.singleton_append,
    List.takeWhile_cons_of_pos rfl, List.countP_cons_of_pos rfl, callsOfJob]

theorem callsOfJob_finished (events : List WorkerEvent) (job : OutboundMessage)
    (result : Except ChannelError ProviderAck) :
    callsOfJob (events ++ [.finished job result]) = callsOfJob events := by
  rw [callsOfJob, List.reverse_append, List.reverse_singleton, List.singleton_append,
    List.takeWhile_cons_of_pos rfl, List.countP_cons_of_neg (by simp [WorkerEvent.isSent]), callsOfJob]

theorem mem_acceptedSends {send : AcceptedSend} :
    send ∈ acceptedSends events ↔ ∃ event ∈ events, event.acceptedSend = some send :=
  List.mem_filterMap

theorem pairwise_append_event {event : WorkerEvent} (before : events.Pairwise WorkerEvent.Acknowledged)
    (last : ∀ first ∈ events, WorkerEvent.Acknowledged first event) :
    (events ++ [event]).Pairwise WorkerEvent.Acknowledged := by
  rw [List.pairwise_append]
  refine ⟨before, List.pairwise_singleton _ _, ?_⟩
  intro first member second same
  rw [List.mem_singleton.mp same]
  exact last first member

theorem pairwise_finished {result : Except ChannelError ProviderAck}
    (before : events.Pairwise WorkerEvent.Acknowledged)
    (told : ∀ send ∈ acceptedSends events, send.slot = (job.threadId, job.idempotencyKey) →
      ∃ ack, result = .ok ack ∧ ack.providerMsgId = send.providerMsgId) :
    (events ++ [WorkerEvent.finished job result]).Pairwise WorkerEvent.Acknowledged := by
  apply pairwise_append_event before
  rintro first member send job' result' accepted ⟨⟩ same
  exact told send (mem_acceptedSends.mpr ⟨first, member, accepted⟩) same.symm

end Events

theorem sound_new : Sound own (new : OutboundWorld T) where
  ownJob := by simp [new, WorkerPhase.job]
  ownSends := by simp [new, acceptedSends]
  unkeyed := by simp [new, InMemoryChannelStore.new]
  recorded := by
    simp [new, InMemoryChannelStore.new, InMemoryChannelStore.outboundLog, acceptedFor, acceptedSends,
      WorkerPhase.pending]
  distinct := by simp [new, acceptedSends]
  fresh := by simp [new, WorkerPhase.unaccepted]
  acknowledged := List.Pairwise.nil
  calls := Nat.zero_le _

theorem Sound.keyed (sound : Sound own world) {thread : ThreadId} {key : String}
    {record : ChannelMessageRecord} (ofOwn : own thread) (member : record ∈ world.store.messages thread)
    (keyed : record.idempotencyKey = some key) :
    ∃ send ∈ acceptedSends world.events,
      send.slot = (thread, key) ∧ record.providerMsgId = some send.providerMsgId := by
  have outbound : record.direction = .outbound := by
    cases direction : record.direction with
    | outbound => rfl
    | inbound =>
      rw [sound.unkeyed thread ofOwn record member direction] at keyed
      cases keyed
  have logged : record.entry ∈ (acceptedFor world.events thread).map AcceptedSend.entry := by
    rw [sound.recorded thread ofOwn]
    exact List.mem_append_left _
      (List.mem_map_of_mem (List.mem_filter.mpr ⟨member, decide_eq_true outbound⟩))
  obtain ⟨send, accepted, same⟩ := List.mem_map.mp logged
  obtain ⟨accepted, onThread⟩ := List.mem_filter.mp accepted
  have sameKey : some send.idempotencyKey = record.idempotencyKey := congrArg LogEntry.idempotencyKey same
  refine ⟨send, accepted, ?_, (congrArg LogEntry.providerMsgId same).symm⟩
  rw [AcceptedSend.slot, of_decide_eq_true onThread]
  exact congrArg (Prod.mk thread) (Option.some.inj (sameKey.trans keyed))

theorem Sound.lookup_some (sound : Sound own world) {thread : ThreadId} {key prev : String}
    (ofOwn : own thread) (found : world.store.lookupOutboundByKey thread key = some prev) :
    ∃ send ∈ acceptedSends world.events, send.slot = (thread, key) ∧ send.providerMsgId = prev := by
  rw [InMemoryChannelStore.lookupOutboundByKey, Option.bind_eq_some_iff] at found
  obtain ⟨record, found, id⟩ := found
  have keyed : record.idempotencyKey = some key := by simpa using List.find?_some found
  obtain ⟨send, accepted, same, sameId⟩ :=
    sound.keyed ofOwn (List.mem_of_find?_eq_some found) keyed
  exact ⟨send, accepted, same, Option.some.inj (sameId.symm.trans id)⟩

theorem Sound.lookup_none (sound : Sound own world) (settled : world.phase.pending = [])
    {thread : ThreadId} {key : String} (ofOwn : own thread)
    (missing : world.store.lookupOutboundByKey thread key = none) :
    ∀ send ∈ acceptedSends world.events, send.slot ≠ (thread, key) := by
  rintro send accepted same
  obtain ⟨onThread, sameKey⟩ := Prod.mk.inj same
  have logged : send.entry ∈ (world.store.outboundLog thread).map ChannelMessageRecord.entry := by
    have entries := sound.recorded thread ofOwn
    rw [settled, List.filter_nil, List.map_nil, List.append_nil] at entries
    rw [← entries]
    exact List.mem_map_of_mem (List.mem_filter.mpr ⟨accepted, decide_eq_true onThread⟩)
  obtain ⟨record, member, entry⟩ := List.mem_map.mp logged
  have keyed : record.idempotencyKey = some key := by
    rw [← sameKey]
    exact congrArg LogEntry.idempotencyKey entry
  rw [InMemoryChannelStore.lookupOutboundByKey] at missing
  cases found : (world.store.messages thread).find? fun record => record.idempotencyKey == some key with
  | none =>
    have other := List.find?_eq_none.mp found record (List.mem_filter.mp member).1
    simp [keyed] at other
  | some first =>
    rw [found, Option.bind_some] at missing
    have firstKey : first.idempotencyKey = some key := by simpa using List.find?_some found
    obtain ⟨send, -, -, identified⟩ := sound.keyed ofOwn (List.mem_of_find?_eq_some found) firstKey
    rw [identified] at missing
    cases missing

theorem Sound.move (sound : Sound own world) (phase : WorkerPhase) (more : List WorkerEvent)
    (settled : world.phase.pending = []) (none : phase.pending = []) (quiet : acceptedSends more = [])
    (ownJob : ∀ job ∈ phase.job, own job.threadId)
    (fresh : ∀ job ∈ phase.unaccepted, ∀ send ∈ acceptedSends world.events,
      send.slot ≠ (job.threadId, job.idempotencyKey))
    (acknowledged : (world.events ++ more).Pairwise WorkerEvent.Acknowledged)
    (calls : phase.Calls (callsOfJob (world.events ++ more))) :
    Sound own { store := world.store, phase, events := world.events ++ more } := by
  have sends : acceptedSends (world.events ++ more) = acceptedSends world.events := by
    rw [acceptedSends_append, quiet, List.append_nil]
  refine ⟨ownJob, ?_, sound.unkeyed, ?_, ?_, ?_, acknowledged, calls⟩
  · rw [sends]
    exact sound.ownSends
  · intro thread ofOwn
    rw [acceptedFor, sends, none, ← settled]
    exact sound.recorded thread ofOwn
  · rw [sends]
    exact sound.distinct
  · rw [sends]
    exact fresh

theorem Sound.received (sound : Sound own world) (idle : world.phase = .idle) {job : OutboundMessage}
    (ofOwn : own job.threadId) :
    Sound own { world with phase := .received job, events := world.events ++ [.received job] } := by
  apply sound.move (.received job) [_] (by rw [idle]; rfl) rfl rfl
  · rintro _ ⟨⟩
    exact ofOwn
  · rintro _ ⟨⟩
  · exact pairwise_append_event sound.acknowledged fun _ _ _ _ _ _ other => nomatch other
  · exact callsOfJob_received _ _

theorem Sound.work_received (sound : Sound own world) {job : OutboundMessage} (input : WorkerInput)
    (phase : world.phase = .received job) (channelId : ChannelId) :
    Sound own (world.work channelId input) := by
  have ofOwn : own job.threadId := sound.ownJob job (by rw [phase]; rfl)
  have settled : world.phase.pending = [] := by rw [phase]; rfl
  have calls := sound.calls
  rw [phase] at calls
  simp only [work, phase]
  cases found : world.store.lookupOutboundByKey job.threadId job.idempotencyKey with
  | some prev =>
    obtain ⟨send, accepted, same, id⟩ := sound.lookup_some ofOwn found
    apply sound.move .idle [_] settled rfl rfl (by rintro _ ⟨⟩) (by rintro _ ⟨⟩)
    · apply pairwise_finished sound.acknowledged
      intro other member sameSlot
      have one := List.inj_on_of_nodup_map sound.distinct member accepted (sameSlot.trans same.symm)
      exact ⟨_, rfl, by rw [one, id]⟩
    · rw [callsOfJob_finished]
      exact (Nat.le_of_eq calls).trans (Nat.zero_le _)
  | none =>
    have moved := sound.move (.unsent job) [] settled rfl rfl
      (by rintro _ ⟨⟩; exact ofOwn) (by rintro _ ⟨⟩; exact sound.lookup_none settled ofOwn found)
      (by rw [List.append_nil]; exact sound.acknowledged) (by rw [List.append_nil]; exact calls)
    rw [List.append_nil] at moved
    exact moved

theorem Sound.work_unsent (sound : Sound own world) {job : OutboundMessage} (input : WorkerInput)
    (phase : world.phase = .unsent job) (channelId : ChannelId) :
    Sound own (world.work channelId input) := by
  have ofOwn : own job.threadId := sound.ownJob job (by rw [phase]; rfl)
  have settled : world.phase.pending = [] := by rw [phase]; rfl
  have fresh := sound.fresh job (by rw [phase]; rfl)
  have calls := sound.calls
  rw [phase] at calls
  have goesOn : Sound own { world with phase := .sending job 0 } := by
    have moved := sound.move (.sending job 0) [] settled rfl rfl
      (by rintro _ ⟨⟩; exact ofOwn) (by rintro _ ⟨⟩; exact fresh)
      (by rw [List.append_nil]; exact sound.acknowledged)
      (by rw [List.append_nil]; exact ⟨calls, by decide⟩)
    rw [List.append_nil] at moved
    exact moved
  simp only [work, phase]
  cases world.store.getChannel channelId with
  | none => exact goesOn
  | some spec =>
    cases checked : job.content.checkCapabilities spec.capabilities with
    | ok _ =>
      simp only [checked]
      exact goesOn
    | error e =>
      simp only [checked]
      apply sound.move .idle [_] settled rfl rfl (by rintro _ ⟨⟩) (by rintro _ ⟨⟩)
      · apply pairwise_finished sound.acknowledged
        intro other member same
        exact absurd same (fresh other member)
      · rw [callsOfJob_finished]
        exact (Nat.le_of_eq calls).trans (Nat.zero_le _)

theorem Sound.work_accepted (sound : Sound own world) {job : OutboundMessage} {attempt : Nat}
    (phase : world.phase = .sending job attempt) (ack : ProviderAck) :
    Sound own { world with phase := .acked job ack, events := world.events ++ [.sent job (.ok ack)] } := by
  have ofOwn : own job.threadId := sound.ownJob job (by rw [phase]; rfl)
  have settled : world.phase.pending = [] := by rw [phase]; rfl
  have fresh := sound.fresh job (by rw [phase]; rfl)
  have calls := sound.calls
  rw [phase] at calls
  have sends : acceptedSends (world.events ++ [.sent job (.ok ack)]) =
      acceptedSends world.events ++ [.of job ack] := acceptedSends_append _ _
  refine ⟨?_, ?_, sound.unkeyed, ?_, ?_, ?_, ?_, ?_⟩
  · rintro _ ⟨⟩
    exact ofOwn
  · intro send member
    rw [sends] at member
    rcases List.mem_append.mp member with before | now
    · exact sound.ownSends send before
    · rw [List.mem_singleton.mp now]
      exact ofOwn
  · intro thread ofThread
    have before := sound.recorded thread ofThread
    rw [settled, List.filter_nil, List.map_nil, List.append_nil, acceptedFor] at before
    rw [acceptedFor, sends, List.filter_append, List.map_append, before]
    rfl
  · rw [sends, List.map_append, List.map_singleton, List.nodup_append]
    refine ⟨sound.distinct, by simp, ?_⟩
    rintro slot member slot' last rfl
    obtain ⟨send, accepted, same⟩ := List.mem_map.mp member
    exact fresh send accepted (same.trans (List.mem_singleton.mp last))
  · rintro _ ⟨⟩
  · exact pairwise_append_event sound.acknowledged fun _ _ _ _ _ _ other => nomatch other
  · rw [callsOfJob_sent]
    exact calls.1.symm ▸ calls.2

theorem Sound.work_refused (sound : Sound own world) {job : OutboundMessage} {attempt : Nat}
    (phase : world.phase = .sending job attempt) (e : ChannelError) (input : WorkerInput)
    (answer : input.answer = .error e) (channelId : ChannelId) : Sound own (world.work channelId input) := by
  have ofOwn : own job.threadId := sound.ownJob job (by rw [phase]; rfl)
  have settled : world.phase.pending = [] := by rw [phase]; rfl
  have fresh := sound.fresh job (by rw [phase]; rfl)
  have calls := sound.calls
  rw [phase] at calls
  obtain ⟨calls, less⟩ := calls
  have quiet : (world.events ++ [WorkerEvent.sent job (.error e)]).Pairwise WorkerEvent.Acknowledged :=
    pairwise_append_event sound.acknowledged fun _ _ _ _ _ _ other => nomatch other
  have sends : acceptedSends (world.events ++ [.sent job (.error e)]) = acceptedSends world.events := by
    rw [acceptedSends_append]
    exact List.append_nil _
  simp only [work, phase, answer]
  split
  next last =>
    rw [finish, List.append_assoc]
    apply sound.move .idle [_, _] settled rfl rfl (by rintro _ ⟨⟩) (by rintro _ ⟨⟩)
    · rw [List.append_cons]
      apply pairwise_finished quiet
      intro send member same
      rw [sends] at member
      exact absurd same (fresh send member)
    · rw [List.append_cons, callsOfJob_finished, callsOfJob_sent, calls]
      exact less
  next more =>
    apply sound.move (.sending job (attempt + 1)) [_] settled rfl rfl (by rintro _ ⟨⟩; exact ofOwn)
      (by rintro _ ⟨⟩; exact fresh) quiet
    rw [callsOfJob_sent, calls]
    exact ⟨rfl, Nat.lt_of_le_of_ne less more⟩

theorem messages_appendMessage (store : InMemoryChannelStore T) (record : ChannelMessageRecord)
    (thread : ThreadId) : (store.appendMessage record).messages thread =
      store.messages thread ++ if record.threadId = thread then [record] else [] := by
  by_cases same : record.threadId = thread
  next =>
    subst same
    rw [if_pos rfl]
    exact Function.update_self _ _ _
  next =>
    rw [if_neg same, List.append_nil]
    exact Function.update_of_ne (Ne.symm same) _ _

theorem outboundLog_appendMessage (store : InMemoryChannelStore T) (record : ChannelMessageRecord)
    (thread : ThreadId) : (store.appendMessage record).outboundLog thread = store.outboundLog thread ++
      if record.threadId = thread ∧ record.direction = .outbound then [record] else [] := by
  rw [InMemoryChannelStore.outboundLog, messages_appendMessage, List.filter_append,
    InMemoryChannelStore.outboundLog]
  by_cases same : record.threadId = thread <;> by_cases outbound : record.direction = .outbound <;>
    simp [same, outbound]

theorem Sound.work_acked (sound : Sound own world) {job : OutboundMessage} {ack : ProviderAck}
    (phase : world.phase = .acked job ack) (input : WorkerInput) (channelId : ChannelId) :
    Sound own (world.work channelId input) := by
  have calls := sound.calls
  rw [phase] at calls
  have sends : acceptedSends (world.events ++ [.finished job (.ok ack)]) = acceptedSends world.events := by
    rw [acceptedSends_append]
    exact List.append_nil _
  have ofOwn : own job.threadId := sound.ownJob job (by rw [phase]; rfl)
  simp only [work, phase, finish]
  refine ⟨by rintro _ ⟨⟩, ?_, ?_, ?_, ?_, by rintro _ ⟨⟩, ?_, ?_⟩
  · rw [sends]
    exact sound.ownSends
  · intro thread ofThread record member inbound
    rw [messages_appendMessage] at member
    rcases List.mem_append.mp member with before | now
    · exact sound.unkeyed thread ofThread record before inbound
    · split at now
      · rw [List.mem_singleton.mp now] at inbound
        cases inbound
      · cases now
  · intro thread ofThread
    have before := sound.recorded thread ofThread
    rw [phase] at before
    rw [acceptedFor, sends, ← acceptedFor, before, outboundLog_appendMessage, List.map_append]
    by_cases same : job.threadId = thread
    · simp [WorkerPhase.pending, AcceptedSend.of, same, outboundRecord, recordFor, AcceptedSend.entry,
        ChannelMessageRecord.entry]
    · simp [WorkerPhase.pending, AcceptedSend.of, same, outboundRecord, recordFor]
  · rw [sends]
    exact sound.distinct
  · apply pairwise_finished sound.acknowledged
    intro send member same
    have sent : AcceptedSend.of job ack ∈ acceptedSends world.events := by
      have entries := sound.recorded job.threadId ofOwn
      have last : (AcceptedSend.of job ack).entry ∈
          (acceptedFor world.events job.threadId).map AcceptedSend.entry := by
        rw [entries, phase]
        simp [WorkerPhase.pending, AcceptedSend.of]
      obtain ⟨same, accepted, entry⟩ := List.mem_map.mp last
      rw [← entry_injective entry]
      exact (List.mem_filter.mp accepted).1
    have one := List.inj_on_of_nodup_map sound.distinct member sent same
    exact ⟨ack, rfl, by rw [one]; rfl⟩
  · rw [callsOfJob_finished]
    exact calls

theorem Sound.work (sound : Sound own world) (channelId : ChannelId) (input : WorkerInput) :
    Sound own (world.work channelId input) := by
  cases phase : world.phase with
  | idle =>
    simp only [OutboundWorld.work, phase]
    exact sound
  | received job => exact sound.work_received input phase channelId
  | unsent job => exact sound.work_unsent input phase channelId
  | sending job attempt =>
    cases answer : input.answer with
    | ok ack =>
      simp only [OutboundWorld.work, phase, answer]
      exact sound.work_accepted phase ack
    | error e => exact sound.work_refused phase e input answer channelId
  | acked job ack => exact sound.work_acked phase input channelId

theorem Sound.append (sound : Sound own world) {record : ChannelMessageRecord}
    (foreign : record.direction = .inbound ∧ record.idempotencyKey = none ∨ ¬own record.threadId) :
    Sound own { world with store := world.store.appendMessage record } := by
  refine ⟨sound.ownJob, sound.ownSends, ?_, ?_, sound.distinct, sound.fresh, sound.acknowledged,
    sound.calls⟩
  · intro thread ofThread other member inbound
    rw [messages_appendMessage] at member
    rcases List.mem_append.mp member with before | now
    · exact sound.unkeyed thread ofThread other before inbound
    · split at now
      next same =>
        rw [List.mem_singleton.mp now]
        rcases foreign with ⟨-, unkeyed⟩ | elsewhere
        · exact unkeyed
        · exact absurd (same ▸ ofThread) elsewhere
      next => cases now
  · intro thread ofThread
    have apart : ¬(record.threadId = thread ∧ record.direction = .outbound) := by
      rintro ⟨same, outbound⟩
      rcases foreign with ⟨inbound, -⟩ | elsewhere
      · rw [inbound] at outbound
        cases outbound
      · exact elsewhere (same ▸ ofThread)
    rw [outboundLog_appendMessage, if_neg apart, List.append_nil]
    exact sound.recorded thread ofThread

theorem Sound.turn (sound : Sound own world) (channelId : ChannelId) (turn : OutboundTurn T)
    (admissible : world.Admissible own turn) : Sound own (world.turn channelId turn).2 := by
  cases turn with
  | receive job =>
    cases phase : world.phase with
    | idle =>
      simp only [OutboundWorld.turn, phase]
      exact sound.received phase admissible
    | _ =>
      simp only [OutboundWorld.turn, phase]
      exact sound
  | work input => exact sound.work channelId input
  | upsertChannel | upsertThread =>
    exact ⟨sound.ownJob, sound.ownSends, sound.unkeyed, sound.recorded, sound.distinct, sound.fresh,
      sound.acknowledged, sound.calls⟩
  | appendMessage record => exact sound.append admissible

end OutboundWorld

end AtomrAgents
