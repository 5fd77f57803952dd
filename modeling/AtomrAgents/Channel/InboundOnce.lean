import AtomrAgents.Channel.Inbound
import AtomrAgents.Shared.Operations
import Mathlib.Data.List.Nodup

set_option autoImplicit false

/-! A message is dispatched after it was recorded, and a message that was seen is not handled again. Recording
it marks it as seen on the channel of the thread's row, so there must be such a row by then. -/

namespace AtomrAgents

open Shared

def InboundMessage.key (msg : InboundMessage) : ChannelId × String := (msg.channelId, msg.providerMsgId)

section

variable {H A : Type}

def HarnessEvent.dispatchedKey : HarnessEvent H A → Option (ChannelId × String)
  | .dispatched msg _ _ => some msg.key
  | _ => none

def dispatchedKeys (events : List (HarnessEvent H A)) : List (ChannelId × String) :=
  events.filterMap HarnessEvent.dispatchedKey

def invocationsFor (key : ChannelId × String) (events : List (HarnessEvent H A)) : List (TargetInvocation H A) :=
  events.flatMap (HarnessEvent.invocationsOf key)

-- The target is called once, or its adapter is applied once; a callable that the adapter has set up is then run
-- without an input.
def AtMostOnce : List (TargetInvocation H A) → Prop
  | [] | [_] | [.apply _ _, .call _ .null] => True
  | _ => False

namespace InboundPhase

def undispatched : InboundPhase H A → Option InboundMessage
  | .looking msg | .opening msg _ | .storing msg _ _ | .found msg _ | .pushed msg _ | .recorded msg _ _ =>
    some msg
  | _ => none

def recordedMsg : InboundPhase H A → Option InboundMessage
  | .recorded msg _ _ => some msg
  | _ => none

end InboundPhase

def HarnessTask.isInbound : HarnessTask H A → Bool
  | .inbound _ _ => true
  | _ => false

-- A message that is going to be recorded finds the row of its thread, with the channel of the message.
def hasRow (threads : Threads (HarnessWorld H A) (HarnessTask H A)) (event : Nat × HarnessAnswer) : Bool :=
  match threads.locals[event.1]? with
  | some (.inbound _ (.pushed msg _)) =>
    (threads.shared.store.threads (ThreadId.forPeer msg.channelId msg.peer)).map Thread.channel ==
      some msg.channelId
  | _ => true

structure Once (phase : InboundPhase H A) (world : HarnessWorld H A) : Prop where
  distinct : (dispatchedKeys world.events).Nodup
  seen : ∀ key ∈ dispatchedKeys world.events, key ∈ world.store.inboundSeen
  fresh : ∀ msg ∈ phase.undispatched, msg.key ∉ dispatchedKeys world.events
  marked : ∀ msg ∈ phase.recordedMsg, msg.key ∈ world.store.inboundSeen
  single : ∀ event ∈ world.events, ∀ key, AtMostOnce (event.invocationsOf key)

variable {serde : InboundSerde A} {config : HarnessConfig (ThreadTarget H A)} {answer : HarnessAnswer}
  {world world' : HarnessWorld H A} {task' : HarnessTask H A}

theorem dispatchedKeys_log (world : HarnessWorld H A) (event : HarnessEvent H A) :
    dispatchedKeys (world.log event).events =
      dispatchedKeys world.events ++ event.dispatchedKey.toList := by
  rw [HarnessWorld.log, dispatchedKeys, List.filterMap_append, dispatchedKeys]
  cases key : event.dispatchedKey <;> simp [key]

theorem dispatchedKeys_log_other (world : HarnessWorld H A) {event : HarnessEvent H A}
    (other : event.dispatchedKey = none) :
    dispatchedKeys (world.log event).events = dispatchedKeys world.events := by
  rw [dispatchedKeys_log, other, Option.toList_none, List.append_nil]

theorem atMostOnce_dispatch (target : ThreadTarget H A) (msg : InboundMessage) (envelope : Value) :
    AtMostOnce (dispatch serde target msg envelope answer).1 := by
  cases target with
  | callable handle => trivial
  | harness callable adapter =>
    rw [dispatch]
    split
    next => trivial
    next =>
      split
      next => trivial
      next => trivial

theorem single_log (single : ∀ event ∈ world.events, ∀ key, AtMostOnce (event.invocationsOf key))
    {event : HarnessEvent H A} (last : ∀ key, AtMostOnce (event.invocationsOf key)) :
    ∀ event' ∈ (world.log event).events, ∀ key, AtMostOnce (event'.invocationsOf key) := by
  rw [HarnessWorld.log, List.forall_mem_append]
  exact ⟨single, List.forall_mem_singleton.mpr last⟩

theorem invocationsOf_other {event : HarnessEvent H A} (other : event.dispatchedKey = none)
    (key : ChannelId × String) : event.invocationsOf key = [] := by
  cases event with
  | dispatched => cases other
  | duplicate | failed | bound | pushed | answered => rfl

theorem Once.single_log_other {phase : InboundPhase H A} (once : Once phase world) {event : HarnessEvent H A}
    (other : event.dispatchedKey = none) :
    ∀ event' ∈ (world.log event).events, ∀ key, AtMostOnce (event'.invocationsOf key) := by
  refine single_log once.single fun key => ?_
  rw [invocationsOf_other other]
  trivial

theorem invocationsFor_of_fresh {key : ChannelId × String} {events : List (HarnessEvent H A)}
    (fresh : key ∉ dispatchedKeys events) : invocationsFor key events = [] := by
  rw [invocationsFor, List.flatMap_eq_nil_iff]
  intro event member
  cases event with
  | dispatched msg thread invocations =>
    refine if_neg ?_
    rintro rfl
    exact fresh (List.mem_filterMap.mpr ⟨_, member, rfl⟩)
  | duplicate | failed | bound | pushed | answered => rfl

theorem atMostOnce_of_nodup {events : List (HarnessEvent H A)} (distinct : (dispatchedKeys events).Nodup)
    (single : ∀ event ∈ events, ∀ key, AtMostOnce (event.invocationsOf key)) (key : ChannelId × String) :
    AtMostOnce (invocationsFor key events) := by
  induction events with
  | nil => trivial
  | cons event events ih =>
    rw [List.forall_mem_cons] at single
    rw [invocationsFor, List.flatMap_cons]
    cases dispatched : event.dispatchedKey with
    | none =>
      rw [dispatchedKeys, List.filterMap_cons_none dispatched] at distinct
      rw [invocationsOf_other dispatched, List.nil_append]
      exact ih distinct single.2
    | some own =>
      rw [dispatchedKeys, List.filterMap_cons_some dispatched, List.nodup_cons] at distinct
      by_cases same : own = key
      · have later : invocationsFor key events = [] := invocationsFor_of_fresh (same ▸ distinct.1)
        rw [invocationsFor] at later
        rw [later, List.append_nil]
        exact single.1 key
      · have none : event.invocationsOf key = [] := by
          cases event with
          | dispatched msg =>
            cases dispatched
            exact if_neg same
          | duplicate | failed | bound | pushed | answered => rfl
        rw [none, List.nil_append]
        exact ih distinct.2 single.2

theorem Once.quiet {phase phase' : InboundPhase H A} (once : Once phase world)
    (dispatched : dispatchedKeys world'.events = dispatchedKeys world.events)
    (single : ∀ event ∈ world'.events, ∀ key, AtMostOnce (event.invocationsOf key))
    (seen : world'.store.inboundSeen = world.store.inboundSeen)
    (fresh : ∀ msg ∈ phase'.undispatched, msg.key ∉ dispatchedKeys world.events)
    (marked : ∀ msg ∈ phase'.recordedMsg, msg.key ∈ world.store.inboundSeen) : Once phase' world' := by
  refine ⟨?_, ?_, ?_, ?_, single⟩
  · rw [dispatched]
    exact once.distinct
  · rw [dispatched, seen]
    exact once.seen
  · rw [dispatched]
    exact fresh
  · rw [seen]
    exact marked

theorem Once.recorded {msg : InboundMessage} {cell : Nat} (once : Once (.pushed msg cell) world)
    (row : (world.store.threads (ThreadId.forPeer msg.channelId msg.peer)).map Thread.channel =
      some msg.channelId) (uuid : String) (now : Int) :
    Once (.recorded msg cell uuid) { world with
      store := world.store.appendMessage (recordFor (ThreadId.forPeer msg.channelId msg.peer) .inbound
        msg.content (some msg.providerMsgId) none uuid now) } := by
  obtain ⟨row, found, same⟩ := Option.map_eq_some_iff.mp row
  have seenBy : world.store.seenBy (recordFor (ThreadId.forPeer msg.channelId msg.peer) .inbound msg.content
      (some msg.providerMsgId) none uuid now) = some msg.key := by
    simp only [InMemoryChannelStore.seenBy, recordFor, found, Option.map_some, same, InboundMessage.key]
  refine ⟨once.distinct, ?_, ?_, ?_, once.single⟩
  · intro key member
    exact List.mem_append_left _ (once.seen key member)
  · rintro _ ⟨⟩
    exact once.fresh msg rfl
  · rintro _ ⟨⟩
    rw [InMemoryChannelStore.appendMessage, seenBy]
    simp

theorem Once.dispatched {msg : InboundMessage} {cell : Nat} {recordId : String}
    (once : Once (.recorded msg cell recordId) world) (thread : Thread (ThreadTarget H A))
    {invocations : List (TargetInvocation H A)} (few : AtMostOnce invocations) {phase' : InboundPhase H A}
    (done : phase'.undispatched = none) : Once phase' (world.log (.dispatched msg thread invocations)) := by
  have fresh := once.fresh msg rfl
  have keys := dispatchedKeys_log world (.dispatched msg thread invocations)
  have unmarked : phase'.recordedMsg = none := by
    cases phase' with
    | recorded => cases done
    | _ => rfl
  refine ⟨?_, ?_, by rw [done]; rintro _ ⟨⟩, by rw [unmarked]; rintro _ ⟨⟩, single_log once.single fun key => ?_⟩
  · rw [keys]
    exact List.nodup_append.mpr ⟨once.distinct, List.nodup_singleton _, fun key member key' last same =>
      fresh (by rw [← List.mem_singleton.mp last, ← same]; exact member)⟩
  · rw [keys]
    intro key member
    rcases List.mem_append.mp member with before | now
    · exact once.seen key before
    · rw [List.mem_singleton.mp now]
      exact once.marked msg rfl
  · rw [HarnessEvent.invocationsOf]
    split
    · exact few
    · trivial

theorem Once.inboundTurn {queue : List InboundMessage} {phase : InboundPhase H A} (once : Once phase world)
    (hasRow : ∀ msg cell, phase = .pushed msg cell →
      (world.store.threads (ThreadId.forPeer msg.channelId msg.peer)).map Thread.channel =
        some msg.channelId)
    (turned : HarnessTask.inboundTurn serde config answer queue phase world = some (task', world')) :
    ∃ queue' phase', task' = .inbound queue' phase' ∧ Once phase' world' := by
  cases HarnessTask.inboundStep_of_turn serde config turned with
  | duplicate msg | unknownThread msg | send msg | detached msg =>
    exact ⟨_, _, rfl, once.quiet (dispatchedKeys_log_other world rfl) (once.single_log_other rfl) rfl
      (by rintro _ ⟨⟩) (by rintro _ ⟨⟩)⟩
  | fresh msg queue unseen =>
    refine ⟨_, _, rfl, once.quiet rfl once.single rfl ?_ (by rintro _ ⟨⟩)⟩
    rintro _ ⟨⟩ member
    apply unseen
    simpa [InMemoryChannelStore.hasInbound, InboundMessage.key] using once.seen _ member
  | found msg | autoOpen msg | insert msg | store msg =>
    have fresh := once.fresh msg rfl
    exact ⟨_, _, rfl, once.quiet rfl once.single rfl (by rintro _ ⟨⟩; exact fresh) (by rintro _ ⟨⟩)⟩
  | push msg =>
    have fresh := once.fresh msg rfl
    exact ⟨_, _, rfl, once.quiet (dispatchedKeys_log_other (world.modifyCell _ _) rfl) (once.single_log_other rfl) rfl
      (by rintro _ ⟨⟩; exact fresh) (by rintro _ ⟨⟩)⟩
  | record msg queue cell => exact ⟨_, _, rfl, once.recorded (hasRow msg cell rfl) answer.uuid answer.now⟩
  | silent _ _ _ _ thread | reply _ _ _ _ thread =>
    exact ⟨_, _, rfl, once.dispatched thread (atMostOnce_dispatch _ _ _) rfl⟩
  | pushReply => exact ⟨_, _, rfl, once.quiet rfl once.single rfl (by rintro _ ⟨⟩) (by rintro _ ⟨⟩)⟩

theorem callTurn_quiet {phase : InboundPhase H A} (once : Once phase world) {task : HarnessTask H A}
    (call : task.isInbound = false) (turned : task.turn serde config answer world = some (task', world')) :
    task'.isInbound = false ∧ Once phase world' := by
  have quiet (same : dispatchedKeys world'.events = dispatchedKeys world.events)
      (single : ∀ event ∈ world'.events, ∀ key, AtMostOnce (event.invocationsOf key))
      (seen : world'.store.inboundSeen = world.store.inboundSeen) : Once phase world' :=
    once.quiet same single seen once.fresh once.marked
  cases task with
  | inbound => cases call
  | openThread channel peer target phase =>
    obtain ⟨phase', rfl, opened⟩ := HarnessTask.openStep_of_turn config turned
    refine ⟨rfl, ?_⟩
    cases opened with
    | attached | detached | absent | store => exact quiet rfl once.single rfl
    | rebind =>
      exact quiet (dispatchedKeys_log_other (world.modifyCell _ _) rfl) (once.single_log_other rfl) rfl
    | insert =>
      exact quiet (dispatchedKeys_log_other (world.insertThread _) rfl) (once.single_log_other rfl) rfl
  | closeThread id phase =>
    cases phase with
    | removing | deleting =>
      cases turned
      exact ⟨rfl, quiet rfl once.single rfl⟩
    | returned => cases turned

def OnceLoop (threads : Threads (HarnessWorld H A) (HarnessTask H A)) : Prop :=
  (∃ queue phase, threads.locals[0]? = some (.inbound queue phase) ∧ Once phase threads.shared) ∧
    ∀ j task, j ≠ 0 → threads.locals[j]? = some task → task.isInbound = false

theorem onceLoop_start (queue : List InboundMessage) (calls : List (HarnessCall H A)) :
    OnceLoop (startHarness queue calls) := by
  constructor
  · refine ⟨queue, .idle, rfl, ?_, ?_, by rintro _ ⟨⟩, by rintro _ ⟨⟩, by rintro _ ⟨⟩⟩
    · exact List.nodup_nil
    · rintro _ ⟨⟩
  · intro j task other found
    cases j with
    | zero => exact absurd rfl other
    | succ j =>
      rw [startHarness, List.getElem?_cons_succ, List.getElem?_map, Option.map_eq_some_iff] at found
      obtain ⟨call, -, rfl⟩ := found
      cases call <;> rfl

theorem OnceLoop.turn {threads : Threads (HarnessWorld H A) (HarnessTask H A)} (once : OnceLoop threads)
    (event : Nat × HarnessAnswer) (row : hasRow threads event = true) :
    OnceLoop (Threads.heard (HarnessTask.turn serde config) threads event).2 := by
  obtain ⟨i, answer⟩ := event
  rcases Threads.heard_cases threads i answer with
    ⟨-, same⟩ | ⟨own, own', turned⟩
  · rw [same]
    exact once
  · obtain ⟨⟨queue, phase, loop, state⟩, others⟩ := once
    cases i with
    | zero =>
      rw [turned.before, Option.some_inj] at loop
      subst loop
      have rowOf : ∀ msg cell, phase = .pushed msg cell →
          (threads.shared.store.threads (ThreadId.forPeer msg.channelId msg.peer)).map Thread.channel =
            some msg.channelId := by
        rintro msg cell rfl
        simpa [hasRow, turned.before] using row
      obtain ⟨queue', phase', rfl, state'⟩ := state.inboundTurn rowOf turned.takes
      refine ⟨⟨queue', phase', turned.after, state'⟩, ?_⟩
      intro j task other found
      rw [turned.others j other] at found
      exact others j task other found
    | succ i =>
      have call := others (i + 1) own (Nat.succ_ne_zero i) turned.before
      obtain ⟨call', state'⟩ := callTurn_quiet state call turned.takes
      refine ⟨⟨queue, phase, ?_, state'⟩, ?_⟩
      · rw [turned.others 0 (Nat.succ_ne_zero i).symm]
        exact loop
      · intro j task other found
        by_cases mine : j = i + 1
        · rw [mine, turned.after, Option.some_inj] at found
          rw [← found]
          exact call'
        · rw [turned.others j mine] at found
          exact others j task other found

variable (serde config) in
/-- The target of a message is invoked at most once, whatever is delivered again and whenever threads are opened and
closed, if the messages that are recorded find the rows of their threads. -/
theorem dispatched_at_most_once (queue : List InboundMessage) (calls : List (HarnessCall H A))
    (schedule : List (Nat × HarnessAnswer))
    (rows : Operations.Along (Threads.heard (HarnessTask.turn serde config))
      (fun threads event => hasRow threads event = true) (startHarness queue calls) schedule)
    (key : ChannelId × String) :
    AtMostOnce (invocationsFor key (Operations.final (Threads.heard (HarnessTask.turn serde config))
      (startHarness queue calls) schedule).shared.events) := by
  have once := Operations.final_invariant (fun threads event => hasRow threads event = true) OnceLoop
    (fun _ event once row => once.turn event row) (startHarness queue calls) schedule
    (onceLoop_start queue calls) rows
  obtain ⟨⟨_, _, _, state⟩, _⟩ := once
  exact atMostOnce_of_nodup state.distinct state.single key

end

theorem dispatched_at_most_once_open :
    AtMostOnce (invocationsFor ("c", "m") (Operations.final (Threads.heard (HarnessTask.turn quietSerde manualConfig))
      (startHarness [hello "c" "p", hello "c" "p"] [.openThread "c" "p" (.callable ())])
      (turnsOf [1, 1, 1, 1, 0, 0, 0, 0, 0, 0])).shared.events) :=
  dispatched_at_most_once quietSerde manualConfig _ _ _ (by decide) ("c", "m")

/-- The thread is closed between its lookup and the recording of the message, and opened again before the message
is delivered again. -/
theorem dispatched_twice :
    (invocationsFor ("c", "m") (Operations.final (Threads.heard (HarnessTask.turn quietSerde manualConfig))
      (startHarness [hello "c" "p", hello "c" "p"]
        [.openThread "c" "p" (.callable ()), .closeThread "c#p", .openThread "c" "p" (.callable ())])
      (turnsOf [1, 1, 1, 1, 0, 0, 2, 2, 0, 0, 0, 3, 3, 3, 3, 0, 0, 0, 0, 0])).shared.events).map
        TargetInvocation.isCall = [true, true] := by
  decide

end AtomrAgents
