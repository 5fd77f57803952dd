import AtomrAgents.Channel.SignalCorrelation

set_option autoImplicit false

namespace AtomrAgents.Signal

open Shared

namespace SignalProvider

variable {provider : SignalProvider} {listener : Listener} {call call' : Call} {c : Nat} {value : Value}
  {phase : Phase} {pending : PendingMap} {queue : List Value}

def sentId : Event → Option String
  | .send id _ => some id
  | _ => none

def request (call : Call) : String × Value := (call.id, call.frame)

variable (provider) in
def requestOf : Event → Option (String × Value)
  | .send id msg => some (id, buildSendRequest id provider.account msg)
  | _ => none

-- The sender of the call is still where an answer finds it.
def Awaits (listener : Listener) (c : Nat) (call : Call) : Prop :=
  call.phase.isOpen ∧ call.answer = none ∧ ∀ value, listener.reader ≠ .answering c value

structure Complete (listener : Listener) : Prop where
  idle : listener.started = false → listener.reader = .left
  rows : ∀ (c : Nat) call, listener.calls[c]? = some call → Awaits listener c call →
    (call.id, c) ∈ listener.pending.rows
  kept : ∀ (c : Nat) call, listener.calls[c]? = some call →
    call.phase ≠ .forgetting listenerDropped ∧ call.phase ≠ .finished (.error listenerDropped)

theorem sendResult_ne_dropped (value : Value) (now : Int) :
    sendResult value now ≠ .error listenerDropped := by
  intro same
  simp only [sendResult, listenerDropped, listenerClosed] at same
  split at same
  · simp [SignalError.transport] at same
  · split at same
    · cases same
    · split at same
      · cases same
      · split at same
        · cases same
        · split at same <;> cases same

theorem requests_setCall (here : listener.calls[c]? = some call) (call' : Call)
    (same : request call' = request call) :
    (listener.setCall c call').calls.map request = listener.calls.map request := by
  apply List.ext_getElem?
  intro j
  simp only [Listener.setCall, List.getElem?_map, List.getElem?_set]
  split
  · next mine =>
    subst mine
    rw [if_pos (List.getElem?_eq_some_iff.mp here).1, here, Option.map_some, Option.map_some, same]
  · rfl

theorem requests_answerCall (listener : Listener) (c : Nat) (value : Value) :
    (listener.answerCall c value).calls.map request = listener.calls.map request := by
  rw [Listener.answerCall]
  split
  · rfl
  · next call here => exact requests_setCall here _ rfl

theorem requests_closeCalls (rows : List (String × Nat)) (listener : Listener) :
    (listener.closeCalls rows).calls.map request = listener.calls.map request := by
  induction rows generalizing listener with
  | nil => rfl
  | cons row rows ih => exact (ih _).trans (requests_answerCall listener row.2 closedMarker)

theorem calls_handleFrame (listener : Listener) (line : String) (now : Int) :
    (provider.handleFrame listener line now).calls = listener.calls := by
  rw [handleFrame]
  split
  · rfl
  · split
    · rw [Listener.respond]
      split <;> rfl
    · rw [Listener.notify]
      split <;> rfl
    · rfl

theorem requests_next (listener : Listener) (event : Event) :
    (provider.next listener event).calls.map request =
      listener.calls.map request ++ (provider.requestOf event).toList := by
  have kept {event : Event} (unsent : provider.requestOf event = none)
      (same : (provider.next listener event).calls.map request = listener.calls.map request) :
      (provider.next listener event).calls.map request =
        listener.calls.map request ++ (provider.requestOf event).toList := by
    rw [same, unsent, Option.toList_none, List.append_nil]
  cases event with
  | start connected =>
    refine kept rfl ?_
    rw [next, start.eq_def]
    split
    · rfl
    · split <;> rfl
  | send id msg => simp [next, Listener.send, requestOf, request]
  | register c | write c | receive c now | timeout c | forget c =>
    refine kept rfl ?_
    rw [next, onCall]
    split
    · rfl
    · next call here =>
      obtain same | ⟨phase, pending, queue, -, moved⟩ := callStep_cases listener c _ call
      · rw [same]
      · rw [moved]
        exact requests_setCall here { call with phase } rfl
  | line text now | answer | leave | drain =>
    refine kept rfl ?_
    rw [next, readerStep.eq_def]
    split
    · rw [calls_handleFrame]
    · rfl
    · exact requests_answerCall _ _ _
    · exact requests_closeCalls _ _
    · rfl
  | flush =>
    refine kept rfl ?_
    rw [next]
    split
    · rw [Listener.flush]
      split <;> rfl
    · rfl
  | stopWriting | hangUp => exact kept rfl rfl

theorem call_unique (distinct : (listener.calls.map Call.id).Nodup) {i j : Nat}
    (here : listener.calls[i]? = some call) (there : listener.calls[j]? = some call')
    (same : call.id = call'.id) : i = j := by
  have bound : i < (listener.calls.map Call.id).length := by
    rw [List.length_map]
    exact (List.getElem?_eq_some_iff.mp here).1
  refine (List.getElem?_inj bound distinct).mp ?_
  rw [List.getElem?_map, List.getElem?_map, here, there, Option.map_some, Option.map_some, same]

theorem not_hasSender (lost : listener.hasSender c = false) :
    (∀ row ∈ listener.pending.rows, row.2 ≠ c) ∧ ∀ value, listener.reader ≠ .answering c value := by
  rw [Listener.hasSender, Bool.or_eq_false_iff] at lost
  refine ⟨by simpa using lost.1, fun value answering => ?_⟩
  simp [answering] at lost

theorem Complete.move (complete : Complete listener) (distinct : (listener.calls.map Call.id).Nodup)
    (here : listener.calls[c]? = some call) (moves : Moves listener c call phase pending queue) :
    Complete { listener.setCall c { call with phase } with pending, queue } := by
  have bound := (List.getElem?_eq_some_iff.mp here).1
  -- Its own row is there before and after; the rows of the others are under other ids.
  have mine (stays : phase.isOpen) (unanswered : call.answer = none)
      (unheld : ∀ value, listener.reader ≠ .answering c value) : (call.id, c) ∈ pending.rows := by
    have before (opened : call.phase.isOpen) : (call.id, c) ∈ listener.pending.rows :=
      complete.rows c call here ⟨opened, unanswered, unheld⟩
    cases moves with
    | register ready => exact (listener.pending.mem_rows_upsert _ _).mpr (.inl rfl)
    | enqueue phase_ | refused phase_ | dropped phase_ | timeout phase_ => exact before (by rw [phase_]; rfl)
    | receive now waiting answered => cases stays
    | forget forgetting => cases stays
  have theirs (j : Nat) (call' : Call) (other : j ≠ c) (there : listener.calls[j]? = some call')
      (member : (call'.id, j) ∈ listener.pending.rows) : (call'.id, j) ∈ pending.rows := by
    have apart : call'.id ≠ call.id := fun same => other (call_unique distinct there here same)
    cases moves with
    | register ready => exact (listener.pending.mem_rows_upsert _ _).mpr (.inr ⟨member, apart⟩)
    | enqueue | refused | receive | dropped | timeout => exact member
    | forget forgetting =>
      rw [Table.delete, List.mem_filter]
      exact ⟨member, by simpa using apart⟩
  have found_cases {j : Nat} {call' : Call}
      (found : (listener.calls.set c { call with phase })[j]? = some call') :
      j = c ∧ call' = { call with phase } ∨ j ≠ c ∧ listener.calls[j]? = some call' := by
    by_cases same : j = c
    · rw [same, List.getElem?_set_self bound, Option.some_inj] at found
      exact .inl ⟨same, found.symm⟩
    · rw [List.getElem?_set_ne (Ne.symm same)] at found
      exact .inr ⟨same, found⟩
  refine ⟨complete.idle, fun j call' found awaits => ?_, fun j call' found => ?_⟩
  · obtain ⟨rfl, rfl⟩ | ⟨other, there⟩ := found_cases found
    · exact mine awaits.1 awaits.2.1 awaits.2.2
    · exact theirs j call' other there (complete.rows j call' there awaits)
  · obtain ⟨rfl, rfl⟩ | ⟨other, there⟩ := found_cases found
    · cases moves with
      | register | enqueue => exact ⟨by simp, by simp⟩
      | refused | timeout =>
        refine ⟨fun same => ?_, by simp⟩
        simp [writerDropped, timedOut, listenerDropped, SignalError.transport] at same
      | receive now waiting answered =>
        refine ⟨by simp, fun same => ?_⟩
        simp only [Phase.finished.injEq] at same
        exact sendResult_ne_dropped _ now same
      | dropped waiting unanswered lost =>
        obtain ⟨unlisted, unheld⟩ := not_hasSender lost
        exact absurd rfl (unlisted _ (complete.rows j call here ⟨by rw [waiting]; rfl, unanswered, unheld⟩))
      | forget forgetting =>
        refine ⟨by simp, fun same => (complete.kept j call here).1 ?_⟩
        simp only [Phase.finished.injEq, Except.error.injEq] at same
        rw [forgetting, same]
    · exact complete.kept j call' there

theorem Complete.onCall (complete : Complete listener) (distinct : (listener.calls.map Call.id).Nodup)
    (c : Nat) (event : Event) : Complete (SignalProvider.onCall listener c event) := by
  rw [SignalProvider.onCall]
  split
  · exact complete
  · next call here =>
    obtain same | ⟨phase, pending, queue, moves, moved⟩ := callStep_cases listener c event call
    · rwa [same]
    · rw [moved]
      exact complete.move distinct here moves

theorem Complete.same (complete : Complete listener) {next : Listener} (calls : next.calls = listener.calls)
    (pending : next.pending = listener.pending) (started : next.started = true)
    (unheld : ∀ c value, listener.reader ≠ .answering c value) : Complete next where
  idle off := by
    rw [started] at off
    cases off
  rows c call found awaits := by
    rw [pending]
    exact complete.rows c call (calls ▸ found) ⟨awaits.1, awaits.2.1, unheld c⟩
  kept c call found := complete.kept c call (calls ▸ found)

theorem started_of_reading (complete : Complete listener) (running : listener.reader ≠ .left) :
    listener.started = true := by
  cases started : listener.started with
  | true => rfl
  | false => exact absurd (complete.idle started) running

theorem Complete.respond (complete : Complete listener) (coherent : provider.Coherent listener)
    (distinct : (listener.calls.map Call.id).Nodup) (reading : listener.reader = .reading) {id : String} :
    Complete (listener.respond id value) := by
  have started := started_of_reading complete (by simp [reading])
  rw [Listener.respond]
  split
  · exact complete.same rfl rfl started (by simp [reading])
  · next key c found =>
    obtain ⟨member, rfl⟩ := Table.find_eq_some_iff.mp found
    obtain ⟨call, here, named, -⟩ := coherent.pending _ member
    refine ⟨fun off => ?_, fun j call' there awaits => ?_, complete.kept⟩
    · rw [show listener.started = false from off] at started
      cases started
    · have old := complete.rows j call' there ⟨awaits.1, awaits.2.1, by simp [reading]⟩
      rw [Table.delete, List.mem_filter]
      refine ⟨old, ?_⟩
      -- A call under the same id would be the one that the reader has taken.
      have apart : call'.id ≠ call.id := by
        intro same
        have := call_unique distinct there here same
        subst this
        exact awaits.2.2 value rfl
      exact decide_eq_true fun same => apart (same.trans named.symm)

theorem Complete.answerCall (complete : Complete listener) (answering : listener.reader = .answering c value) :
    Complete (listener.answerCall c value).readOn := by
  have pending : (listener.answerCall c value).pending = listener.pending := by
    rw [Listener.answerCall]
    split <;> rfl
  have started : (listener.answerCall c value).started = true := by
    have running := started_of_reading complete (by simp [answering])
    rw [Listener.answerCall]
    split <;> exact running
  refine ⟨fun off => ?_, fun j call' there awaits => ?_, fun j call' there => ?_⟩
  · rw [show (listener.answerCall c value).started = false from off] at started
    cases started
  · simp only [Listener.readOn, getElem?_answerCall] at there
    have unanswered := awaits.2.1
    split at there
    · obtain ⟨call, -, rfl⟩ := Option.map_eq_some_iff.mp there
      cases unanswered
    · next other =>
      have old := complete.rows j call' there ⟨awaits.1, unanswered, fun v same => ?_⟩
      · rw [Listener.readOn, pending]
        exact old
      · rw [answering] at same
        cases same
        exact other rfl
  · simp only [Listener.readOn, getElem?_answerCall] at there
    split at there
    · obtain ⟨call, here, rfl⟩ := Option.map_eq_some_iff.mp there
      exact complete.kept c call here
    · exact complete.kept j call' there

theorem Complete.drain (complete : Complete listener) (leaving : listener.reader = .leaving) :
    Complete listener.drain := by
  refine ⟨fun _ => rfl, fun j call' there awaits => ?_, fun j call' there => ?_⟩
  · simp only [Listener.drain, getElem?_closeCalls] at there
    have unanswered := awaits.2.1
    split at there
    · obtain ⟨call, -, rfl⟩ := Option.map_eq_some_iff.mp there
      cases unanswered
    · next unlisted =>
      have old := complete.rows j call' there ⟨awaits.1, unanswered, by simp [leaving]⟩
      exact absurd (List.mem_map.mpr ⟨_, old, rfl⟩) unlisted
  · simp only [Listener.drain, getElem?_closeCalls] at there
    split at there
    · obtain ⟨call, here, rfl⟩ := Option.map_eq_some_iff.mp there
      exact complete.kept j call here
    · exact complete.kept j call' there

theorem Complete.handleFrame (complete : Complete listener) (coherent : provider.Coherent listener)
    (distinct : (listener.calls.map Call.id).Nodup) (reading : listener.reader = .reading) (line : String)
    (now : Int) : Complete (provider.handleFrame listener line now) := by
  have started := started_of_reading complete (by simp [reading])
  have unheld : ∀ c value, listener.reader ≠ .answering c value := by simp [reading]
  rw [SignalProvider.handleFrame]
  split
  · exact complete
  · split
    · exact complete.respond coherent distinct reading
    · rw [Listener.notify]
      split <;> exact complete.same rfl rfl started unheld
    · exact complete.same rfl rfl started unheld

theorem Complete.next (complete : Complete listener) (coherent : provider.Coherent listener)
    (distinct : (listener.calls.map Call.id).Nodup) (event : Event) :
    Complete (provider.next listener event) := by
  cases event with
  | start connected =>
    rw [SignalProvider.next, start.eq_def]
    split
    · exact complete
    · next off =>
      split
      · exact complete
      · refine complete.same rfl rfl rfl fun c value answering => ?_
        rw [complete.idle (by simpa using off)] at answering
        cases answering
  | send id msg =>
    have found_cases {j : Nat} {call' : Call}
        (found : (listener.send provider.account id msg).calls[j]? = some call') :
        listener.calls[j]? = some call' ∨
          call'.phase = .ready ∨ call'.phase = .finished (.error notStarted) := by
      by_cases old : j < listener.calls.length
      · exact .inl ((List.getElem?_append_left old).symm.trans found)
      · rw [Listener.send, List.getElem?_append_right (by omega), List.getElem?_singleton] at found
        split at found
        · rw [Option.some_inj] at found
          subst found
          right
          dsimp only
          split
          · exact .inl rfl
          · exact .inr rfl
        · cases found
    refine ⟨complete.idle, fun j call' found awaits => ?_, fun j call' found => ?_⟩
    · obtain old | ready | refused := found_cases found
      · exact complete.rows j call' old awaits
      · have opened := awaits.1
        rw [ready] at opened
        cases opened
      · have opened := awaits.1
        rw [refused] at opened
        cases opened
    · obtain old | ready | refused := found_cases found
      · exact complete.kept j call' old
      · rw [ready]
        exact ⟨by simp, by simp⟩
      · rw [refused]
        refine ⟨by simp, fun same => ?_⟩
        simp [notStarted, listenerDropped, SignalError.provider, SignalError.transport] at same
  | register c | write c | receive c now | timeout c | forget c => exact complete.onCall distinct c _
  | line text now | answer | leave | drain =>
    rw [SignalProvider.next, readerStep.eq_def]
    split
    · next reading => exact complete.handleFrame coherent distinct reading _ _
    · next reading =>
      have started := started_of_reading complete (by simp [reading])
      exact complete.same rfl rfl started (by simp [reading])
    · next answering => exact complete.answerCall answering
    · next leaving => exact complete.drain leaving
    · exact complete
  | flush =>
    rw [SignalProvider.next]
    split
    · rw [Listener.flush]
      split
      · exact complete
      · exact ⟨complete.idle, complete.rows, complete.kept⟩
    · exact complete
  | stopWriting | hangUp => exact ⟨complete.idle, complete.rows, complete.kept⟩

theorem requests_after (provider : SignalProvider) (events : List Event) :
    (provider.after events).calls.map request = events.filterMap provider.requestOf :=
  Operations.final_exact (fun listener => listener.calls.map request) provider.requestOf (fun _ _ => True)
    (fun listener event _ => requests_next listener event) Listener.new events
    (Operations.along_of_forall _ (fun _ _ => trivial) _ _)

theorem ids_eq (listener : Listener) : listener.calls.map Call.id = (listener.calls.map request).map Prod.fst := by
  rw [List.map_map]
  rfl

theorem ids_after (provider : SignalProvider) (events : List Event) :
    (provider.after events).calls.map Call.id = events.filterMap sentId := by
  have byRequest : (fun event => (provider.requestOf event).map Prod.fst) = sentId := by
    funext event
    cases event <;> rfl
  rw [ids_eq, requests_after, List.map_filterMap, byRequest]

-- The ids only grow: while they are fresh at the end, they have been fresh all along.
theorem invariants_after (provider : SignalProvider) (events : List Event)
    (distinct : (events.filterMap sentId).Nodup) :
    provider.Coherent (provider.after events) ∧ Complete (provider.after events) := by
  have kept : provider.Coherent (provider.after events) ∧
      (((provider.after events).calls.map Call.id).Nodup → Complete (provider.after events)) := by
    refine Operations.final_keeps
      (fun listener => provider.Coherent listener ∧ ((listener.calls.map Call.id).Nodup → Complete listener))
      (fun listener event holds => ⟨holds.1.next event, fun fresh => ?_⟩) Listener.new events
      ⟨coherent_new provider, fun _ => ⟨fun _ => rfl, by simp [Listener.new], by simp [Listener.new]⟩⟩
    rw [step, ids_eq, requests_next, List.map_append, ← ids_eq] at fresh
    have before := fresh.sublist (List.sublist_append_left _ _)
    exact (holds.2 before).next holds.1 before event
  rw [← ids_after provider events] at distinct
  exact ⟨kept.1, kept.2 distinct⟩

/-- Ids that are fresh: the map holds the calls that wait for an answer, and no other; no caller is told that its
sender was dropped. -/
theorem pending_exact (provider : SignalProvider) (events : List Event)
    (distinct : (events.filterMap sentId).Nodup) :
    (∀ row, row ∈ (provider.after events).pending.rows ↔
      ∃ call, (provider.after events).calls[row.2]? = some call ∧ call.id = row.1 ∧
        Awaits (provider.after events) row.2 call) ∧
      ∀ call ∈ (provider.after events).calls, call.phase ≠ .finished (.error listenerDropped) := by
  obtain ⟨coherent, complete⟩ := invariants_after provider events distinct
  refine ⟨fun row => ⟨fun member => ?_, ?_⟩, fun call member => ?_⟩
  · obtain ⟨call, here, named, opened, unanswered⟩ := coherent.pending row member
    refine ⟨call, here, named, opened, unanswered, fun value answering => ?_⟩
    obtain ⟨-, -, -, -, -, apart⟩ := coherent.held row.2 value answering
    exact apart row member rfl
  · rintro ⟨call, here, named, awaits⟩
    have listed := complete.rows row.2 call here awaits
    rwa [named] at listed
  · obtain ⟨c, here⟩ := List.mem_iff_getElem?.mp member
    exact (complete.kept c call here).2

def helloMessage : OutboundMessage where
  channelId := "signal:demo"
  threadId := "t"
  peer := "+15551234567"
  content := .text "hello"
  replyTo := none
  idempotencyKey := "k1"

def ackValue : Value :=
  .object [("id", .string "r"), ("result", .object [("timestamp", .number (.posInt 7))])]

def ackLine : String := "\x7b\"id\":\"r\",\"result\":\x7b\"timestamp\":7\x7d\x7d"

-- A reader of JSON that knows the one line.
def demoProvider : SignalProvider where
  account := "+15550000001"
  defaultChannelId := "signal:demo"
  json :=
    { toString := fun _ => ackLine
      fromStr := fun text => if text = ackLine then .ok ackValue else .error (.serde "expected value") }

-- Of two sends the first one is answered.
def twoSends : List Event :=
  [.start (.ok ()), .send "r" helloMessage, .register 0, .send "s" helloMessage, .register 1, .line ackLine 0, .answer]

theorem pending_exact_registered :
    let listener := demoProvider.after twoSends
    (∃ call, listener.calls[1]? = some call ∧ call.id = "s" ∧ Awaits listener 1 call) ∧
      ¬∃ call, listener.calls[0]? = some call ∧ call.id = "r" ∧ Awaits listener 0 call := by
  have exactly := pending_exact demoProvider twoSends (by decide)
  constructor
  · exact (exactly.1 ("s", 1)).mp (by decide)
  · intro waits
    exact absurd ((exactly.1 ("r", 0)).mpr waits) (by decide)

theorem answered_next (complete : Complete listener) (here : listener.calls[c]? = some call)
    (waiting : call.phase = .waiting) (unanswered : call.answer = none) (reading : listener.reader = .reading)
    {text : String} {now : Int} (line : trim text ≠ "")
    (response : provider.frameOf text now = .response call.id value) (t : Int) :
    (Operations.final provider.step listener [.line text now, .answer, .receive c t]).calls[c]? =
      some { call with phase := .finished (sendResult value t), answer := some value } := by
  have awaits : Awaits listener c call := by
    exact ⟨by rw [waiting]; rfl, unanswered, by simp [reading]⟩
  have found : listener.pending.find call.id = some (call.id, c) :=
    Table.find_eq_some_iff.mpr ⟨complete.rows c call here awaits, rfl⟩
  have taken : provider.next listener (.line text now) =
      { listener with pending := listener.pending.delete call.id, reader := .answering c value } := by
    simp only [next, readerStep, reading, handleFrame, if_neg line, response, Listener.respond, found]
  have bound := (List.getElem?_eq_some_iff.mp here).1
  simp only [Operations.final, step, taken]
  simp only [next, readerStep, Listener.answerCall, here, Listener.setCall, Listener.readOn, onCall,
    List.getElem?_set_self bound, callStep, waiting, Listener.receive, List.set_set]

/-- No answer is lost: a response that the reader sees while its call waits is what the call returns. -/
theorem response_returned (provider : SignalProvider) (events : List Event)
    (distinct : (events.filterMap sentId).Nodup) (c : Nat) (call : Call)
    (here : (provider.after events).calls[c]? = some call) (waiting : call.phase = .waiting)
    (unanswered : call.answer = none) (reading : (provider.after events).reader = .reading) (text : String)
    (now : Int) (line : trim text ≠ "") (value : Value)
    (response : provider.frameOf text now = .response call.id value) (t : Int) :
    (provider.after (events ++ [.line text now, .answer, .receive c t])).calls[c]? =
      some { call with phase := .finished (sendResult value t), answer := some value } := by
  rw [after, Operations.final_append]
  exact answered_next (invariants_after provider events distinct).2 here waiting unanswered reading line response t

theorem response_returned_hello :
    (demoProvider.after ([.start (.ok ()), .send "r" helloMessage, .register 0, .write 0] ++
      [.line ackLine 0, .answer, .receive 0 0])).calls[0]? =
        some
          { id := "r"
            frame := buildSendRequest "r" "+15550000001" helloMessage
            phase := .finished (.ok { providerMsgId := "7", sentAt := 0 })
            answer := some ackValue } :=
  response_returned demoProvider [.start (.ok ()), .send "r" helloMessage, .register 0, .write 0] (by decide) 0
    { id := "r", frame := buildSendRequest "r" "+15550000001" helloMessage, phase := .waiting, answer := none } rfl
    rfl rfl rfl ackLine 0 (by decide) ackValue rfl 0

end SignalProvider

end AtomrAgents.Signal
