import AtomrAgents.Channel.SignalCalls
import AtomrAgents.Shared.Supply

set_option autoImplicit false

namespace AtomrAgents.Signal

open Shared

def Phase.isOpen : Phase → Bool
  | .registered | .waiting | .forgetting _ => true
  | _ => false

def timestampOf (value : Value) : Option String :=
  match sendResult value 0 with
  | .ok ack => some ack.providerMsgId
  | .error _ => none

def Call.acknowledged (call : Call) : Option (String × String) :=
  match call.phase with
  | .finished (.ok ack) => some (call.id, ack.providerMsgId)
  | _ => none

def Listener.acknowledged (listener : Listener) : List (String × String) :=
  listener.calls.filterMap Call.acknowledged

namespace SignalProvider

variable (provider : SignalProvider)

def credit (value : Value) : Option (String × String) :=
  match provider.responseId value with
  | none => none
  | some id => (timestampOf value).map fun timestamp => (id, timestamp)

def successOf : Event → Option (String × String)
  | .line text now =>
    if trim text = "" then none
    else
      match provider.frameOf text now with
      | .response _ value => provider.credit value
      | _ => none
  | _ => none

-- What a caller can do, with the phase, the map and the queue it leaves.
inductive Moves (listener : Listener) (c : Nat) (call : Call) : Phase → PendingMap → List Value → Prop where
  | register (ready : call.phase = .ready) :
    Moves listener c call .registered (listener.pending.upsert (call.id, c)) listener.queue
  | enqueue (registered : call.phase = .registered) :
    Moves listener c call .waiting listener.pending (listener.queue ++ [call.frame])
  | refused (registered : call.phase = .registered) :
    Moves listener c call (.forgetting writerDropped) listener.pending listener.queue
  | receive {value : Value} (now : Int) (waiting : call.phase = .waiting) (answered : call.answer = some value) :
    Moves listener c call (.finished (sendResult value now)) listener.pending listener.queue
  | dropped (waiting : call.phase = .waiting) (unanswered : call.answer = none)
    (lost : listener.hasSender c = false) :
    Moves listener c call (.forgetting listenerDropped) listener.pending listener.queue
  | timeout (waiting : call.phase = .waiting) (unanswered : call.answer = none) :
    Moves listener c call (.forgetting timedOut) listener.pending listener.queue
  | forget {e : SignalError} (forgetting : call.phase = .forgetting e) :
    Moves listener c call (.finished (.error e)) (listener.pending.delete call.id) listener.queue

structure Sound (call : Call) : Prop where
  ready : call.phase = .ready → call.answer = none
  answered : ∀ value, call.answer = some value →
    value = closedMarker ∨ provider.responseId value = some call.id
  acknowledged : ∀ ack, call.phase = .finished (.ok ack) →
    ∃ value now, call.answer = some value ∧ sendResult value now = .ok ack

-- The sender of a call is in one place, under the id of the call.
structure Coherent (listener : Listener) : Prop where
  calls : ∀ (c : Nat) call, listener.calls[c]? = some call → provider.Sound call
  pending : ∀ row ∈ listener.pending.rows, ∃ call, listener.calls[row.2]? = some call ∧
    call.id = row.1 ∧ call.phase.isOpen ∧ call.answer = none
  held : ∀ c value, listener.reader = .answering c value → ∃ call, listener.calls[c]? = some call ∧
    provider.responseId value = some call.id ∧ call.phase ≠ .ready ∧ call.answer = none ∧
      ∀ row ∈ listener.pending.rows, row.2 ≠ c

variable {provider} {listener : Listener} {call call' : Call} {c : Nat} {value : Value} {now : Int}

theorem sendResult_closedMarker (now : Int) : sendResult closedMarker now = .error listenerClosed := by
  simp [sendResult, closedMarker, Value.get, Value.field, Value.asBool]

theorem timestampOf_of_ok {ack : ProviderAck} (ok : sendResult value now = .ok ack) :
    timestampOf value = some ack.providerMsgId := by
  have same : sendResult value 0 = .ok { ack with sentAt := 0 } := by
    simp only [sendResult] at ok ⊢
    split at ok
    · cases ok
    · next opened =>
      rw [if_neg opened]
      split at ok
      · cases ok
      · next resp read =>
        split at ok
        · cases ok
        · next error =>
          split at ok
          · cases ok
          · next result found =>
            split at ok
            · cases ok
            · next timestamp numbered =>
              cases ok
              rfl
  rw [timestampOf, same]

theorem credit_closedMarker : provider.credit closedMarker = none := by
  have unnamed : provider.responseId closedMarker = none := by
    simp [responseId, closedMarker, Value.get, Value.field, optional]
  rw [credit, unnamed]

theorem frameOf_response {line id : String} (read : provider.frameOf line now = .response id value) :
    provider.responseId value = some id := by
  rw [frameOf] at read
  split at read
  · cases read
  · next parsed _ =>
    split at read
    · split at read
      · cases read
      · next named =>
        cases read
        exact named
    · split at read
      · cases read
      · split at read
        · cases read
        · split at read <;> cases read

theorem callStep_cases (listener : Listener) (c : Nat) (event : Event) (call : Call) :
    callStep listener c event call = listener ∨ ∃ phase pending queue,
      Moves listener c call phase pending queue ∧
        callStep listener c event call = { listener.setCall c { call with phase } with pending, queue } := by
  rw [callStep.eq_def]
  split
  · next ready =>
    exact .inr ⟨_, _, _, .register ready, rfl⟩
  · next registered =>
    rw [Listener.write]
    split
    · exact .inr ⟨_, _, _, .refused registered, rfl⟩
    · split
      · exact .inr ⟨_, _, _, .enqueue registered, rfl⟩
      · exact .inl rfl
  · next now waiting =>
    rw [Listener.receive]
    split
    · next value answered => exact .inr ⟨_, _, _, .receive now waiting answered, rfl⟩
    · next unanswered =>
      split
      · exact .inl rfl
      · next lost => exact .inr ⟨_, _, _, .dropped waiting unanswered (by simpa using lost), rfl⟩
  · next waiting =>
    rw [Listener.timeout]
    split
    · exact .inl rfl
    · next unanswered => exact .inr ⟨_, _, _, .timeout waiting unanswered, rfl⟩
  · next e forgetting => exact .inr ⟨_, _, _, .forget forgetting, rfl⟩
  · exact .inl rfl

variable (provider) in
-- The successes that a call was given, or that the reader is about to give.
def credits (listener : Listener) : List (String × String) :=
  (match listener.reader with
    | .answering _ value => (provider.credit value).toList
    | _ => []) ++ listener.calls.filterMap fun call => call.answer.bind provider.credit

theorem calls_setCall_same (here : listener.calls[c]? = some call) (call' : Call)
    (same : call'.answer = call.answer) :
    (listener.setCall c call').calls.filterMap (fun call => call.answer.bind provider.credit) =
      listener.calls.filterMap fun call => call.answer.bind provider.credit :=
  filterMap_set_same here (by rw [same])

theorem calls_answerCall_subperm (listener : Listener) (c : Nat) (value : Value) :
    ((listener.answerCall c value).calls.filterMap fun call => call.answer.bind provider.credit).Subperm
      (listener.calls.filterMap (fun call => call.answer.bind provider.credit) ++
        (provider.credit value).toList) := by
  rw [Listener.answerCall]
  split
  · exact (List.sublist_append_left _ _).subperm
  · next call here =>
    have moved := filterMap_set_perm (fun call : Call => call.answer.bind provider.credit) here
      { call with answer := some value }
    exact (List.sublist_append_left _ _).subperm.trans moved.subperm

theorem calls_closeCalls_subperm (rows : List (String × Nat)) (listener : Listener) :
    ((listener.closeCalls rows).calls.filterMap fun call => call.answer.bind provider.credit).Subperm
      (listener.calls.filterMap fun call => call.answer.bind provider.credit) := by
  induction rows generalizing listener with
  | nil => exact List.Subperm.refl _
  | cons row rows ih =>
    have first := @calls_answerCall_subperm provider listener row.2 closedMarker
    rw [credit_closedMarker, Option.toList_none, List.append_nil] at first
    exact (ih _).trans first

theorem credits_onCall (listener : Listener) (c : Nat) (event : Event) :
    provider.credits (onCall listener c event) = provider.credits listener := by
  rw [onCall]
  split
  · rfl
  · next call here =>
    obtain same | ⟨phase, pending, queue, -, moved⟩ := callStep_cases listener c event call
    · rw [same]
    · rw [moved, credits, credits, ← calls_setCall_same here { call with phase } rfl]
      rfl

theorem credits_subperm {next : Listener} {more : List (String × String)} (calls : next.calls = listener.calls)
    (idle : ∀ c value, next.reader ≠ .answering c value) :
    (provider.credits next).Subperm (provider.credits listener ++ more) := by
  rw [credits, credits, calls]
  split
  · next c value answering => exact absurd answering (idle c value)
  · exact ((List.sublist_append_right _ _).trans (List.sublist_append_left _ _)).subperm

theorem readOn_idle (listener : Listener) (c : Nat) (value : Value) :
    listener.readOn.reader ≠ .answering c value := by
  rw [Listener.readOn]
  split <;> exact nofun

theorem credits_handleFrame (listener : Listener) (line : String) (now : Int) :
    (provider.credits (provider.handleFrame listener line now)).Subperm
      (provider.credits listener ++ (provider.successOf (.line line now)).toList) := by
  rw [handleFrame, successOf]
  split
  · exact (List.sublist_append_left _ _).subperm
  · split
    · next id value read =>
      simp only [read]
      rw [Listener.respond]
      split
      · exact credits_subperm rfl (readOn_idle listener)
      · next c _ =>
        have held : ((provider.credit value).toList ++
            listener.calls.filterMap fun call => call.answer.bind provider.credit).Subperm
            ((listener.calls.filterMap fun call => call.answer.bind provider.credit) ++
              (provider.credit value).toList) := List.perm_append_comm.subperm
        refine List.Subperm.trans held ((List.subperm_append_right (provider.credit value).toList).mpr ?_)
        rw [credits]
        exact (List.sublist_append_right _ _).subperm
    · next msg _ =>
      rw [Listener.notify]
      split
      · exact credits_subperm rfl (readOn_idle _)
      · exact credits_subperm rfl (readOn_idle _)
    · exact credits_subperm rfl (readOn_idle listener)

theorem credits_readerStep (listener : Listener) (event : Event) :
    (provider.credits (provider.readerStep listener event)).Subperm
      (provider.credits listener ++ (provider.successOf event).toList) := by
  rw [readerStep.eq_def]
  split
  · exact credits_handleFrame listener _ _
  · exact credits_subperm rfl fun _ _ => nofun
  · next c value answering =>
    have given : (provider.credits (listener.answerCall c value).readOn).Subperm
        ((listener.answerCall c value).calls.filterMap fun call => call.answer.bind provider.credit) := by
      rw [credits]
      split
      · next c value again => exact absurd again (readOn_idle _ c value)
      · exact List.Subperm.refl _
    have before : provider.credits listener = (provider.credit value).toList ++
        listener.calls.filterMap fun call => call.answer.bind provider.credit := by
      rw [credits, answering]
    rw [before]
    exact (given.trans (calls_answerCall_subperm listener c value)).trans
      (List.perm_append_comm.subperm.trans (List.sublist_append_left _ _).subperm)
  · have drained : provider.credits listener.drain =
        (listener.closeCalls listener.pending.rows).calls.filterMap fun call =>
          call.answer.bind provider.credit := rfl
    rw [drained]
    refine (calls_closeCalls_subperm _ listener).trans ?_
    rw [credits, List.append_assoc]
    exact ((List.sublist_append_left _ _).trans (List.sublist_append_right _ _)).subperm
  · exact (List.sublist_append_left _ _).subperm

theorem credits_next (listener : Listener) (event : Event) :
    (provider.credits (provider.next listener event)).Subperm
      (provider.credits listener ++ (provider.successOf event).toList) := by
  have kept {next : Listener} (same : provider.credits next = provider.credits listener)
      (more : List (String × String)) : (provider.credits next).Subperm (provider.credits listener ++ more) := by
    rw [same]
    exact (List.sublist_append_left _ _).subperm
  cases event with
  | start connected =>
    rw [next, start.eq_def]
    split
    · exact kept rfl _
    · split
      · exact kept rfl _
      · exact credits_subperm rfl fun _ _ => nofun
  | send id msg => exact kept (by simp [next, Listener.send, credits]) _
  | register c | write c | receive c now | timeout c | forget c => exact kept (credits_onCall listener c _) _
  | line text now | answer | leave | drain => exact credits_readerStep listener _
  | flush =>
    rw [next]
    split
    · rw [Listener.flush]
      split <;> exact kept rfl _
    · exact kept rfl _
  | stopWriting | hangUp => exact kept rfl _

variable {phase : Phase} {pending : PendingMap} {queue : List Value}

theorem Moves.sound (moves : Moves listener c call phase pending queue) (sound : provider.Sound call) :
    provider.Sound { call with phase } := by
  refine ⟨fun ready => ?_, sound.answered, fun ack acknowledged => ?_⟩
  · cases moves <;> cases ready
  · cases moves with
    | receive now waiting answered =>
      simp only [Phase.finished.injEq] at acknowledged
      exact ⟨_, now, answered, acknowledged⟩
    | register | enqueue | refused | dropped | timeout | forget => cases acknowledged

theorem Moves.rows (moves : Moves listener c call phase pending queue) (coherent : provider.Coherent listener)
    (here : listener.calls[c]? = some call) (row : String × Nat) (member : row ∈ pending.rows) :
    row ∈ listener.pending.rows ∧ row.2 ≠ c ∨
      row = (call.id, c) ∧ phase.isOpen ∧ call.answer = none ∧
        ∀ value, listener.reader ≠ .answering c value := by
  have kept (member : row ∈ listener.pending.rows) (stays : phase.isOpen) :
      row ∈ listener.pending.rows ∧ row.2 ≠ c ∨ row = (call.id, c) ∧ phase.isOpen ∧ call.answer = none ∧
        ∀ value, listener.reader ≠ .answering c value := by
    by_cases own : row.2 = c
    · obtain ⟨call', found, named, -, unanswered⟩ := coherent.pending row member
      rw [own, here, Option.some_inj] at found
      subst found
      refine .inr ⟨Prod.ext named.symm own, stays, unanswered, fun value answering => ?_⟩
      obtain ⟨-, -, -, -, -, apart⟩ := coherent.held c value answering
      exact apart row member own
    · exact .inl ⟨member, own⟩
  cases moves with
  | register ready =>
    obtain rfl | ⟨old, -⟩ := (listener.pending.mem_rows_upsert (call.id, c) row).mp member
    · refine .inr ⟨rfl, rfl, (coherent.calls c call here).ready ready, fun value answering => ?_⟩
      obtain ⟨call', found, -, notReady, -⟩ := coherent.held c value answering
      rw [here, Option.some_inj] at found
      exact notReady (found ▸ ready)
    · exact kept old rfl
  | enqueue | refused | dropped | timeout => exact kept member rfl
  | receive now waiting answered =>
    refine .inl ⟨member, fun own => ?_⟩
    obtain ⟨call', found, -, -, unanswered⟩ := coherent.pending row member
    rw [own, here, Option.some_inj] at found
    subst found
    rw [answered] at unanswered
    cases unanswered
  | forget forgetting =>
    simp only [Table.delete, List.mem_filter, decide_eq_true_eq] at member
    refine .inl ⟨member.1, fun own => ?_⟩
    obtain ⟨call', found, named, -⟩ := coherent.pending row member.1
    rw [own, here, Option.some_inj] at found
    exact member.2 (found ▸ named).symm

theorem Coherent.move (coherent : provider.Coherent listener) (here : listener.calls[c]? = some call)
    (moves : Moves listener c call phase pending queue) :
    provider.Coherent { listener.setCall c { call with phase } with pending, queue } := by
  have bound := (List.getElem?_eq_some_iff.mp here).1
  have mine : (listener.calls.set c { call with phase })[c]? = some { call with phase } := by simp [bound]
  have theirs (j : Nat) (other : j ≠ c) :
      (listener.calls.set c { call with phase })[j]? = listener.calls[j]? :=
    List.getElem?_set_ne (Ne.symm other)
  constructor
  · intro j call' found
    simp only [Listener.setCall] at found
    by_cases same : j = c
    · rw [same, mine, Option.some_inj] at found
      exact found ▸ moves.sound (coherent.calls c call here)
    · rw [theirs j same] at found
      exact coherent.calls j call' found
  · intro row member
    obtain ⟨old, other⟩ | ⟨rfl, stays, unanswered, -⟩ := moves.rows coherent here row member
    · obtain ⟨call', found, rest⟩ := coherent.pending row old
      exact ⟨call', (theirs _ other).trans found, rest⟩
    · exact ⟨_, mine, rfl, stays, unanswered⟩
  · intro j value answering
    obtain ⟨call', found, named, notReady, unanswered, apart⟩ := coherent.held j value answering
    have away (row : String × Nat) (member : row ∈ pending.rows) : row.2 ≠ j := by
      obtain ⟨old, -⟩ | ⟨rfl, -, -, idle⟩ := moves.rows coherent here row member
      · exact apart row old
      · rintro rfl
        exact idle value answering
    by_cases same : j = c
    · subst same
      rw [here, Option.some_inj] at found
      subst found
      refine ⟨_, mine, named, ?_, unanswered, away⟩
      cases moves <;> exact nofun
    · exact ⟨call', (theirs j same).trans found, named, notReady, unanswered, away⟩

theorem Coherent.onCall (coherent : provider.Coherent listener) (c : Nat) (event : Event) :
    provider.Coherent (SignalProvider.onCall listener c event) := by
  rw [SignalProvider.onCall]
  split
  · exact coherent
  · next call here =>
    obtain same | ⟨phase, pending, queue, moves, moved⟩ := callStep_cases listener c event call
    · rwa [same]
    · rw [moved]
      exact coherent.move here moves

theorem Coherent.idle (coherent : provider.Coherent listener) {next : Listener}
    (calls : next.calls = listener.calls) (pending : next.pending = listener.pending)
    (idle : ∀ c value, next.reader ≠ .answering c value) : provider.Coherent next where
  calls := by simpa only [calls] using coherent.calls
  pending := by simpa only [calls, pending] using coherent.pending
  held c value answering := absurd answering (idle c value)

theorem Coherent.respond (coherent : provider.Coherent listener) {id : String}
    (named : provider.responseId value = some id) : provider.Coherent (listener.respond id value) := by
  rw [Listener.respond]
  split
  · exact coherent.idle rfl rfl (readOn_idle listener)
  · next key c found =>
    obtain ⟨member, rfl⟩ := Table.find_eq_some_iff.mp found
    obtain ⟨call, here, named', opened, unanswered⟩ := coherent.pending _ member
    refine ⟨coherent.calls, fun row row_ => ?_, fun j v answering => ?_⟩
    · simp only [Table.delete, List.mem_filter] at row_
      exact coherent.pending row row_.1
    · cases answering
      refine ⟨call, here, ?_, ?_, unanswered, fun row row_ own => ?_⟩
      · rw [named, named']
      · intro ready
        rw [ready] at opened
        cases opened
      · simp only [Table.delete, List.mem_filter, decide_eq_true_eq] at row_
        obtain ⟨call', found', named'', -⟩ := coherent.pending row row_.1
        rw [own, here, Option.some_inj] at found'
        subst found'
        exact row_.2 (named''.symm.trans named')

theorem Coherent.handleFrame (coherent : provider.Coherent listener) (line : String) (now : Int) :
    provider.Coherent (provider.handleFrame listener line now) := by
  rw [SignalProvider.handleFrame]
  split
  · exact coherent
  · split
    · next id value read => exact coherent.respond (frameOf_response read)
    · next msg _ =>
      rw [Listener.notify]
      split
      · exact coherent.idle rfl rfl (readOn_idle listener)
      · exact coherent.idle rfl rfl (readOn_idle _)
    · exact coherent.idle rfl rfl (readOn_idle listener)

theorem getElem?_answerCall (listener : Listener) (c : Nat) (value : Value) (j : Nat) :
    (listener.answerCall c value).calls[j]? =
      if j = c then listener.calls[c]?.map fun call => { call with answer := some value }
      else listener.calls[j]? := by
  rw [Listener.answerCall]
  split
  · next missing =>
    split
    · next same => rw [same, missing, Option.map_none]
    · rfl
  · next call here =>
    have bound := (List.getElem?_eq_some_iff.mp here).1
    split
    · next same => rw [same, here, Listener.setCall, List.getElem?_set_self bound, Option.map_some]
    · next other => rw [Listener.setCall, List.getElem?_set_ne (Ne.symm other)]

theorem getElem?_closeCalls (rows : List (String × Nat)) (listener : Listener) (j : Nat) :
    (listener.closeCalls rows).calls[j]? =
      if j ∈ rows.map Prod.snd then
        listener.calls[j]?.map fun call => { call with answer := some closedMarker }
      else listener.calls[j]? := by
  induction rows generalizing listener with
  | nil => rfl
  | cons row rows ih =>
    have rest := ih (listener.answerCall row.2 closedMarker)
    rw [getElem?_answerCall] at rest
    refine rest.trans ?_
    by_cases here : j = row.2
    · subst here
      simp [Function.comp_def]
    · simp only [here, if_false, List.map_cons, List.mem_cons, false_or]

theorem Coherent.answerCall (coherent : provider.Coherent listener)
    (answering : listener.reader = .answering c value) :
    provider.Coherent (listener.answerCall c value).readOn := by
  obtain ⟨call, here, named, notReady, unanswered, apart⟩ := coherent.held c value answering
  refine ⟨fun j call' found => ?_, fun row member => ?_, fun j v again => absurd again (readOn_idle _ j v)⟩
  · simp only [Listener.readOn, getElem?_answerCall] at found
    split at found
    · rw [here, Option.map_some, Option.some_inj] at found
      subst found
      refine ⟨fun ready => absurd ready notReady, fun v same => ?_, fun ack done => ?_⟩
      · cases same
        exact .inr named
      · obtain ⟨v, now, answered, -⟩ := (coherent.calls c call here).acknowledged ack done
        rw [unanswered] at answered
        cases answered
    · exact coherent.calls j call' found
  · have old : row ∈ listener.pending.rows := by
      rw [Listener.readOn, Listener.answerCall, here] at member
      exact member
    obtain ⟨call', found, rest⟩ := coherent.pending row old
    refine ⟨call', ?_, rest⟩
    rw [Listener.readOn, getElem?_answerCall, if_neg (apart row old), found]

theorem Coherent.drain (coherent : provider.Coherent listener) : provider.Coherent listener.drain where
  calls := by
    intro j call found
    simp only [Listener.drain, getElem?_closeCalls] at found
    split at found
    · next listed =>
      obtain ⟨row, member, rfl⟩ := List.mem_map.mp listed
      obtain ⟨call', here, -, opened, -⟩ := coherent.pending row member
      rw [here, Option.map_some, Option.some_inj] at found
      subst found
      refine ⟨fun ready => ?_, fun v closed => .inl (by simpa using closed.symm), fun ack done => ?_⟩
      · rw [show call'.phase = .ready from ready] at opened
        cases opened
      · rw [show call'.phase = .finished (.ok ack) from done] at opened
        cases opened
    · exact coherent.calls j call found
  pending := by simp [Listener.drain, Table.empty]
  held := fun _ _ => nofun

theorem Coherent.next (coherent : provider.Coherent listener) (event : Event) :
    provider.Coherent (provider.next listener event) := by
  cases event with
  | start connected =>
    rw [SignalProvider.next, start.eq_def]
    split
    · exact coherent
    · split
      · exact coherent
      · exact coherent.idle rfl rfl fun _ _ => nofun
  | send id msg =>
    have older {j : Nat} {call : Call} (found : listener.calls[j]? = some call) :
        (listener.send provider.account id msg).calls[j]? = some call :=
      (List.getElem?_append_left (List.getElem?_eq_some_iff.mp found).1).trans found
    refine ⟨fun j call found => ?_, fun row member => ?_, fun j v answering => ?_⟩
    · obtain old | new := List.mem_append.mp (List.mem_of_getElem? found)
      · obtain ⟨i, found⟩ := List.mem_iff_getElem?.mp old
        exact coherent.calls i call found
      · rw [List.mem_singleton] at new
        subst new
        refine ⟨fun _ => rfl, nofun, fun ack done => ?_⟩
        dsimp only at done
        split at done <;> cases done
    · obtain ⟨call, found, rest⟩ := coherent.pending row member
      exact ⟨call, older found, rest⟩
    · obtain ⟨call, found, rest⟩ := coherent.held j v answering
      exact ⟨call, older found, rest⟩
  | register c | write c | receive c now | timeout c | forget c => exact coherent.onCall c _
  | line text now | answer | leave | drain =>
    rw [SignalProvider.next, readerStep.eq_def]
    split
    · exact coherent.handleFrame _ _
    · exact coherent.idle rfl rfl fun _ _ => nofun
    · next answering => exact coherent.answerCall answering
    · exact coherent.drain
    · exact coherent
  | flush =>
    rw [SignalProvider.next]
    split
    · rw [Listener.flush]
      split
      · exact coherent
      · exact ⟨coherent.calls, coherent.pending, coherent.held⟩
    · exact coherent
  | stopWriting | hangUp => exact ⟨coherent.calls, coherent.pending, coherent.held⟩

variable (provider) in
theorem coherent_new : provider.Coherent Listener.new := by
  refine ⟨nofun, ?_, fun _ _ => nofun⟩
  simp [Listener.new, Table.empty]

theorem acknowledged_sublist (coherent : provider.Coherent listener) :
    listener.acknowledged.Sublist (listener.calls.filterMap fun call => call.answer.bind provider.credit) := by
  have each (call : Call) (member : call ∈ listener.calls) (said : String × String)
      (acknowledged : call.acknowledged = some said) : call.answer.bind provider.credit = some said := by
    obtain ⟨c, here⟩ := List.mem_iff_getElem?.mp member
    have sound := coherent.calls c call here
    rw [Call.acknowledged] at acknowledged
    split at acknowledged
    · next ack done =>
      cases acknowledged
      obtain ⟨value, now, answered, ok⟩ := sound.acknowledged ack done
      obtain rfl | named := sound.answered value answered
      · rw [sendResult_closedMarker] at ok
        cases ok
      · simp [answered, credit, named, timestampOf_of_ok ok]
    · cases acknowledged
  exact filterMap_sublist each

theorem acknowledged_subperm (provider : SignalProvider) (events : List Event) :
    (provider.after events).acknowledged.Subperm (events.filterMap provider.successOf) := by
  have coherent : provider.Coherent (provider.after events) :=
    Operations.final_keeps provider.Coherent (fun _ event coherent => coherent.next event) _ events
      (coherent_new provider)
  have supplied : (provider.credits (provider.after events)).Subperm (events.filterMap provider.successOf) :=
    Operations.final_supplied provider.credits provider.successOf
      (fun listener event => credits_next listener event) Listener.new events
  have given : ((provider.after events).calls.filterMap fun call => call.answer.bind provider.credit).Subperm
      (provider.credits (provider.after events)) := (List.sublist_append_right _ _).subperm
  exact ((acknowledged_sublist coherent).subperm.trans given).trans supplied

end SignalProvider

end AtomrAgents.Signal
