import AtomrAgents.Channel.SignalPending

set_option autoImplicit false

namespace AtomrAgents.Signal

open Shared

namespace SignalProvider

variable {provider : SignalProvider} {listener : Listener} {call call' : Call} {c : Nat} {value : Value}
  {phase : Phase} {pending : PendingMap} {queue : List Value}

-- Whether the writer took the request; these are the errors of a call whose request it did not take.
def wrote : Phase → Bool
  | .ready | .registered => false
  | .waiting | .finished (.ok _) => true
  | .forgetting e | .finished (.error e) => e ≠ notStarted ∧ e ≠ writerDropped

def written (call : Call) : Option Value := if wrote call.phase then some call.frame else none

def Carried (listener : Listener) : Prop :=
  (listener.wire ++ listener.queue).Subperm (listener.calls.filterMap written)

theorem sendResult_ne_unwritten (value : Value) (now : Int) : wrote (.finished (sendResult value now)) := by
  have apart (m : String) : SignalError.provider ("signal-cli error: " ++ m) ≠ notStarted := by
    intro same
    simp only [SignalError.provider, notStarted, SignalError.channel.injEq, ChannelError.provider.injEq] at same
    have letters := congrArg (fun s => s.toList.head?) same
    simp at letters
  simp only [sendResult]
  split
  · decide
  · split
    · decide
    · split
      · next err _ => simpa [wrote, SignalError.provider, writerDropped, SignalError.transport] using apart err.message
      · split
        · decide
        · split
          · decide
          · rfl

theorem Moves.carried (moves : Moves listener c call phase pending queue) (carried : Carried listener)
    (here : listener.calls[c]? = some call) :
    Carried { listener.setCall c { call with phase } with pending, queue } := by
  have same (kept : wrote phase = wrote call.phase) :
      (listener.calls.set c { call with phase }).filterMap written = listener.calls.filterMap written :=
    filterMap_set_same here (by rw [written, written, kept])
  have onlyPhase (kept : wrote phase = wrote call.phase) (queue_ : queue = listener.queue) :
      Carried { listener.setCall c { call with phase } with pending, queue } := by
    simp only [Carried, Listener.setCall, same kept, queue_]
    exact carried
  cases moves with
  | register ready => exact onlyPhase (by rw [ready]; rfl) rfl
  | refused registered => exact onlyPhase (by rw [registered]; rfl) rfl
  | dropped waiting | timeout waiting => exact onlyPhase (by rw [waiting]; decide) rfl
  | receive now waiting answered =>
    exact onlyPhase (by rw [waiting, sendResult_ne_unwritten]; rfl) rfl
  | forget forgetting => exact onlyPhase (by rw [forgetting]; rfl) rfl
  | enqueue registered =>
    have moved := filterMap_set_perm written here { call with phase := .waiting }
    have before : written call = none := by simp [written, registered, wrote]
    have after_ : written { call with phase := .waiting } = some call.frame := rfl
    rw [before, after_, Option.toList_none, Option.toList_some, List.append_nil] at moved
    have more := (List.subperm_append_right [call.frame]).mpr carried
    rw [List.append_assoc] at more
    exact more.trans moved.symm.subperm

theorem Carried.same (carried : Carried listener) {next : Listener} (wire : next.wire = listener.wire)
    (queue : next.queue = listener.queue)
    (calls : next.calls.filterMap written = listener.calls.filterMap written) : Carried next := by
  rwa [Carried, wire, queue, calls]

theorem written_answerCall (listener : Listener) (c : Nat) (value : Value) :
    (listener.answerCall c value).calls.filterMap written = listener.calls.filterMap written := by
  rw [Listener.answerCall]
  split
  · rfl
  · next call here => exact filterMap_set_same here rfl

theorem written_closeCalls (rows : List (String × Nat)) (listener : Listener) :
    (listener.closeCalls rows).calls.filterMap written = listener.calls.filterMap written := by
  induction rows generalizing listener with
  | nil => rfl
  | cons row rows ih => exact (ih _).trans (written_answerCall listener row.2 closedMarker)

theorem socket_answerCall (listener : Listener) (c : Nat) (value : Value) :
    (listener.answerCall c value).wire = listener.wire ∧ (listener.answerCall c value).queue = listener.queue := by
  rw [Listener.answerCall]
  split <;> exact ⟨rfl, rfl⟩

theorem socket_closeCalls (rows : List (String × Nat)) (listener : Listener) :
    (listener.closeCalls rows).wire = listener.wire ∧ (listener.closeCalls rows).queue = listener.queue := by
  induction rows generalizing listener with
  | nil => exact ⟨rfl, rfl⟩
  | cons row rows ih =>
    obtain ⟨wire, queue⟩ := ih (listener.answerCall row.2 closedMarker)
    obtain ⟨wire', queue'⟩ := socket_answerCall listener row.2 closedMarker
    exact ⟨wire.trans wire', queue.trans queue'⟩

theorem socket_handleFrame (listener : Listener) (line : String) (now : Int) :
    (provider.handleFrame listener line now).wire = listener.wire ∧
      (provider.handleFrame listener line now).queue = listener.queue := by
  rw [handleFrame]
  split
  · exact ⟨rfl, rfl⟩
  · split
    · rw [Listener.respond]
      split <;> exact ⟨rfl, rfl⟩
    · rw [Listener.notify]
      split <;> exact ⟨rfl, rfl⟩
    · exact ⟨rfl, rfl⟩

theorem Carried.next (carried : Carried listener) (event : Event) : Carried (provider.next listener event) := by
  cases event with
  | start connected =>
    rw [SignalProvider.next, start.eq_def]
    split
    · exact carried
    · split <;> exact carried
  | send id msg =>
    have unwritten : (listener.send provider.account id msg).calls.filterMap written =
        listener.calls.filterMap written := by
      simp only [Listener.send, List.filterMap_append]
      split <;> simp [written, wrote]
    exact carried.same rfl rfl unwritten
  | register c | write c | receive c now | timeout c | forget c =>
    rw [SignalProvider.next, onCall]
    split
    · exact carried
    · next call here =>
      obtain same | ⟨phase, pending, queue, moves, moved⟩ := callStep_cases listener c _ call
      · rwa [same]
      · rw [moved]
        exact moves.carried carried here
  | line text now | answer | leave | drain =>
    rw [SignalProvider.next, readerStep.eq_def]
    split
    · refine carried.same (socket_handleFrame listener _ _).1 (socket_handleFrame listener _ _).2 ?_
      rw [calls_handleFrame]
    · exact carried
    · exact carried.same (socket_answerCall listener _ _).1 (socket_answerCall listener _ _).2
        (written_answerCall listener _ _)
    · obtain ⟨wire, queue⟩ := socket_closeCalls listener.pending.rows listener
      exact carried.same wire queue (written_closeCalls _ listener)
    · exact carried
  | flush =>
    rw [SignalProvider.next]
    split
    · rw [Listener.flush]
      split
      · exact carried
      · next frame queue queued =>
        rw [Carried, queued] at carried
        rw [Carried, List.append_assoc]
        exact carried
    · exact carried
  | stopWriting =>
    have fewer : (listener.wire ++ []).Subperm (listener.wire ++ listener.queue) := by
      rw [List.append_nil]
      exact (List.sublist_append_left _ _).subperm
    exact fewer.trans carried
  | hangUp => exact carried

/-- A frame on the wire is the request of a call, one for each; no caller that was told that it was not written
has put one there. -/
theorem wire_subperm (provider : SignalProvider) (events : List Event) :
    (provider.after events).wire.Subperm ((provider.after events).calls.filterMap written) ∧
      (provider.after events).calls.map request = events.filterMap provider.requestOf := by
  have carried : Carried (provider.after events) :=
    Operations.final_keeps Carried (fun _ event carried => carried.next event) Listener.new events
      (List.Subperm.refl [])
  exact ⟨(List.sublist_append_left _ _).subperm.trans carried, requests_after provider events⟩

variable (provider) in
def inboundOf : Event → Option InboundMessage
  | .line text now =>
    if trim text = "" then none
    else
      match provider.frameOf text now with
      | .inbound msg => some msg
      | _ => none
  | _ => none

variable (provider) in
def Addressed (msg : InboundMessage) : Prop :=
  msg.channelId = provider.defaultChannelId ∧
    msg.threadId = ThreadId.forPeer provider.defaultChannelId msg.peer ∧ msg.peer ≠ ""

theorem frameOf_inbound {line : String} {now : Int} {msg : InboundMessage}
    (read : provider.frameOf line now = .inbound msg) : provider.Addressed msg := by
  rw [frameOf] at read
  split at read
  · cases read
  · split at read
    · split at read <;> cases read
    · split at read
      · cases read
      · split at read
        · cases read
        · next envelope _ =>
          split at read
          · next msg' parsed =>
            cases read
            simp only [parseEnvelope] at parsed
            split at parsed
            · cases parsed
            · next named =>
              split at parsed
              · cases parsed
              · split at parsed
                · cases parsed
                · cases parsed
                  exact ⟨rfl, rfl, named⟩
          · cases read

theorem inbound_answerCall (listener : Listener) (c : Nat) (value : Value) :
    (listener.answerCall c value).inbound = listener.inbound := by
  rw [Listener.answerCall]
  split <;> rfl

theorem inbound_closeCalls (rows : List (String × Nat)) (listener : Listener) :
    (listener.closeCalls rows).inbound = listener.inbound := by
  induction rows generalizing listener with
  | nil => rfl
  | cons row rows ih => exact (ih _).trans (inbound_answerCall listener row.2 closedMarker)

-- The reader reads and the harness listens when a line comes.
def Heard (listener : Listener) : Event → Prop
  | .line _ _ => listener.reader = .reading ∧ listener.inboundClosed = false
  | _ => True

theorem inbound_handleFrame (listener : Listener) (line : String) (now : Int) :
    (provider.handleFrame listener line now).inbound =
        listener.inbound ++ (provider.inboundOf (.line line now)).toList ∨
      (provider.handleFrame listener line now).inbound = listener.inbound ∧ listener.inboundClosed = true := by
  rw [handleFrame, inboundOf]
  split
  · exact .inl (List.append_nil _).symm
  · split
    · next read =>
      simp only [read]
      rw [Listener.respond]
      split <;> exact .inl (List.append_nil _).symm
    · next msg read =>
      simp only [read]
      rw [Listener.notify]
      split
      · next closed => exact .inr ⟨rfl, closed⟩
      · exact .inl rfl
    · next read =>
      simp only [read]
      exact .inl (List.append_nil _).symm

theorem inbound_next (listener : Listener) (event : Event) :
    (provider.next listener event).inbound = listener.inbound ++ (provider.inboundOf event).toList ∨
      (provider.next listener event).inbound = listener.inbound ∧ ¬Heard listener event := by
  have kept (silent : provider.inboundOf event = none)
      (same : (provider.next listener event).inbound = listener.inbound) :
      (provider.next listener event).inbound = listener.inbound ++ (provider.inboundOf event).toList := by
    rw [same, silent, Option.toList_none, List.append_nil]
  cases event with
  | start connected =>
    refine .inl (kept rfl ?_)
    rw [next, start.eq_def]
    split
    · rfl
    · split <;> rfl
  | register c | write c | receive c now | timeout c | forget c =>
    refine .inl (kept rfl ?_)
    rw [next, onCall]
    split
    · rfl
    · next call here =>
      obtain same | ⟨phase, pending, queue, -, moved⟩ := callStep_cases listener c _ call
      · rw [same]
      · rw [moved]
        rfl
  | line text now =>
    cases reader : listener.reader with
    | reading =>
      simp only [next, readerStep, reader, Heard]
      obtain passed | ⟨dropped, closed⟩ := @inbound_handleFrame provider listener text now
      · exact .inl passed
      · exact .inr ⟨dropped, by simp [closed]⟩
    | answering | leaving | left => exact .inr ⟨by simp [next, readerStep, reader], by simp [Heard, reader]⟩
  | answer | leave | drain =>
    refine .inl (kept rfl ?_)
    rw [next, readerStep.eq_def]
    split
    · next impossible _ => cases impossible
    · rfl
    · exact inbound_answerCall listener _ _
    · exact inbound_closeCalls _ listener
    · rfl
  | flush =>
    refine .inl (kept rfl ?_)
    rw [next]
    split
    · rw [Listener.flush]
      split <;> rfl
    · rfl
  | send id msg | stopWriting | hangUp => exact .inl (kept rfl rfl)

theorem addressed_of_inboundOf {event : Event} {msg : InboundMessage}
    (said : provider.inboundOf event = some msg) : provider.Addressed msg := by
  rw [inboundOf.eq_def] at said
  split at said
  · split at said
    · cases said
    · split at said
      · next read =>
        cases said
        exact frameOf_inbound read
      · cases said
  · cases said

/-- The inbound messages are those of the notifications, each once at most and in their order, under the channel
of the provider and the thread of their peer; while the reader reads and the harness listens, none is missing. -/
theorem inbound_sublist (provider : SignalProvider) (events : List Event) :
    (provider.after events).inbound.Sublist (events.filterMap provider.inboundOf) ∧
      (∀ msg ∈ (provider.after events).inbound, provider.Addressed msg) ∧
        (Operations.Along provider.step Heard Listener.new events →
          (provider.after events).inbound = events.filterMap provider.inboundOf) := by
  have part : (provider.after events).inbound.Sublist (events.filterMap provider.inboundOf) := by
    refine Operations.final_sublist Listener.inbound provider.inboundOf (fun listener event => ?_)
      Listener.new events
    obtain same | ⟨same, -⟩ := @inbound_next provider listener event
    · exact same ▸ List.Sublist.refl _
    · exact same ▸ List.sublist_append_left _ _
  refine ⟨part, fun msg member => ?_, fun heard => ?_⟩
  · obtain ⟨event, -, said⟩ := List.mem_filterMap.mp (part.subset member)
    exact addressed_of_inboundOf said
  · refine Operations.final_exact Listener.inbound provider.inboundOf Heard (fun listener event heard => ?_)
      Listener.new events heard
    obtain same | ⟨-, missed⟩ := @inbound_next provider listener event
    · exact same
    · exact absurd heard missed

end SignalProvider

end AtomrAgents.Signal
