import AtomrAgents.Channel.Store
import AtomrAgents.Shared.Interleaving

set_option autoImplicit false

/-! One task handles the inbound messages, one after the other. Other tasks open and close threads at the same
time. All of them are cut at their operations on the store and on the map of threads. -/

namespace AtomrAgents

open Shared

-- What is asked of an adapter (`HarnessInputAdapter`) besides `apply`, and how contents are read and written.
structure InboundSerde (A : Type) where
  oneShot : A → Bool
  replyFromResult : A → Value → Option MessageContent
  contentToValue : MessageContent → Value
  contentFromValue : Value → Option MessageContent

inductive TargetInvocation (H A : Type) where
  | call (handle : H) (input : Value)
  | apply (adapter : A) (msg : InboundMessage)

-- What a turn learns from outside: the clock, new ids, whether the channel has a provider, and the
-- answers of the target.
structure HarnessAnswer where
  now : Int
  uuid : String
  attached : Bool
  called : Except String Value
  applied : Except String Unit

section Dispatch

variable {H A : Type} (serde : InboundSerde A)

def nonEmpty (content : MessageContent) : Option MessageContent :=
  if content.asText = "" then
    match content with
    | .attachment .. => some content
    | _ => none
  else some content

def extractReply (value : Value) : Option MessageContent :=
  match (value.get "content").bind serde.contentFromValue with
  | some content => nonEmpty content
  | none =>
    match (value.get "text").bind Value.asStr with
    | some s => nonEmpty (.text s)
    | none =>
      match (value.get "output").bind Value.asStr with
      | some s => nonEmpty (.text s)
      | none =>
        match value.asStr with
        | some s => nonEmpty (.text s)
        | none => none

def buildEnvelope {T : Type} (msg : InboundMessage) (thread : Thread T) : Value :=
  .object [
    ("channel", .object [("id", .string thread.channel), ("peer", .string msg.peer)]),
    ("content", serde.contentToValue msg.content),
    ("provider_msg_id", .string msg.providerMsgId),
    ("thread", .object [("history_len", .number (.posInt (UInt64.ofNat thread.history.length))),
      ("id", .string thread.id)]),
    ("user", .string msg.content.asText)]

def dispatch (target : ThreadTarget H A) (msg : InboundMessage) (envelope : Value) (answer : HarnessAnswer) :
    List (TargetInvocation H A) × Option MessageContent :=
  match target with
  | .callable handle =>
    ([.call handle envelope],
      match answer.called with
      | .ok value => extractReply serde value
      | .error _ => none)
  | .harness callable adapter =>
    match answer.applied with
    | .error _ => ([.apply adapter msg], none)
    | .ok () =>
      if serde.oneShot adapter then
        ([.apply adapter msg, .call callable .null],
          match answer.called with
          | .ok value => serde.replyFromResult adapter value
          | .error _ => none)
      else ([.apply adapter msg], none)

end Dispatch

structure HarnessConfig (T : Type) where
  autoOpenTarget : Option T
  defaultPolicy : ThreadPolicy

-- What has happened, with the thread that it happened on as it was then.
inductive HarnessEvent (H A : Type) where
  | duplicate (msg : InboundMessage)
  | failed (msg : InboundMessage) (e : ChannelError)
  | bound (channel : ChannelId) (peer : PeerId) (thread : Thread (ThreadTarget H A))
  | pushed (msg : InboundMessage) (thread : Thread (ThreadTarget H A))
  | dispatched (msg : InboundMessage) (thread : Thread (ThreadTarget H A))
    (invocations : List (TargetInvocation H A))
  | answered (msg : InboundMessage) (thread : Thread (ThreadTarget H A)) (outbound : OutboundMessage)

def TargetInvocation.isCall {H A : Type} : TargetInvocation H A → Bool
  | .call .. => true
  | .apply .. => false

def HarnessEvent.invocationsOf {H A : Type} (key : ChannelId × String) :
    HarnessEvent H A → List (TargetInvocation H A)
  | .dispatched msg _ invocations => if (msg.channelId, msg.providerMsgId) = key then invocations else []
  | _ => []

-- The map of threads holds references to the cells.
structure HarnessWorld (H A : Type) where
  store : InMemoryChannelStore (ThreadTarget H A)
  threads : ThreadId → Option Nat
  cells : List (Thread (ThreadTarget H A))
  events : List (HarnessEvent H A)

inductive InboundPhase (H A : Type) where
  | idle
  | looking (msg : InboundMessage)
  | opening (msg : InboundMessage) (thread : Thread (ThreadTarget H A))
  | storing (msg : InboundMessage) (thread : Thread (ThreadTarget H A)) (cell : Nat)
  | found (msg : InboundMessage) (cell : Nat)
  | pushed (msg : InboundMessage) (cell : Nat)
  | recorded (msg : InboundMessage) (cell : Nat) (recordId : String)
  | replying (msg : InboundMessage) (cell : Nat) (recordId : String) (content : MessageContent)
  | sending (msg : InboundMessage) (cell : Nat) (recordId : String) (content : MessageContent)

inductive OpenPhase where
  | checking
  | binding
  | inserting
  | storing
  | returned (result : Except ChannelError Unit)

inductive ClosePhase where
  | removing
  | deleting
  | returned

inductive HarnessTask (H A : Type) where
  | inbound (queue : List InboundMessage) (phase : InboundPhase H A)
  | openThread (channel : ChannelId) (peer : PeerId) (target : ThreadTarget H A) (phase : OpenPhase)
  | closeThread (id : ThreadId) (phase : ClosePhase)

namespace HarnessWorld

variable {H A : Type} (world : HarnessWorld H A)

def new : HarnessWorld H A where
  store := InMemoryChannelStore.new
  threads := fun _ => none
  cells := []
  events := []

def log (event : HarnessEvent H A) : HarnessWorld H A := { world with events := world.events ++ [event] }

-- `DashMap::insert` of a new reference.
def insertThread (thread : Thread (ThreadTarget H A)) : HarnessWorld H A :=
  { world with
    threads := Function.update world.threads thread.id (some world.cells.length)
    cells := world.cells ++ [thread] }

def removeThread (id : ThreadId) : HarnessWorld H A :=
  { world with threads := Function.update world.threads id none }

def modifyCell (cell : Nat) (change : Thread (ThreadTarget H A) → Thread (ThreadTarget H A)) :
    HarnessWorld H A :=
  { world with cells := world.cells.modify cell change }

end HarnessWorld

namespace HarnessTask

variable {H A : Type} (serde : InboundSerde A) (config : HarnessConfig (ThreadTarget H A))

def newThread (channel : ChannelId) (peer : PeerId) (target : ThreadTarget H A) :
    Thread (ThreadTarget H A) :=
  { Thread.new channel peer target with policy := config.defaultPolicy }

def inboundTurn (answer : HarnessAnswer) (queue : List InboundMessage) (phase : InboundPhase H A)
    (world : HarnessWorld H A) : Option (HarnessTask H A × HarnessWorld H A) :=
  match phase with
  | .idle =>
    match queue with
    | [] => none
    | msg :: queue =>
      if world.store.hasInbound msg.channelId msg.providerMsgId then
        some (.inbound queue .idle, world.log (.duplicate msg))
      else some (.inbound queue (.looking msg), world)
  | .looking msg =>
    let threadId := ThreadId.forPeer msg.channelId msg.peer
    match world.threads threadId with
    | some cell => some (.inbound queue (.found msg cell), world)
    | none =>
      match config.autoOpenTarget with
      | none => some (.inbound queue .idle, world.log (.failed msg (.unknownThread threadId)))
      | some target =>
        some (.inbound queue (.opening msg (newThread config msg.channelId msg.peer target)), world)
  | .opening msg thread =>
    some (.inbound queue (.storing msg thread world.cells.length), world.insertThread thread)
  | .storing msg thread cell =>
    some (.inbound queue (.found msg cell), { world with store := world.store.upsertThread thread })
  | .found msg cell =>
    match world.cells[cell]? with
    | none => none
    | some thread =>
      some (.inbound queue (.pushed msg cell),
        (world.modifyCell cell fun thread => thread.pushUser msg.content).log (.pushed msg thread))
  | .pushed msg cell =>
    let record := recordFor (ThreadId.forPeer msg.channelId msg.peer) .inbound msg.content
      (some msg.providerMsgId) none answer.uuid answer.now
    some (.inbound queue (.recorded msg cell record.id),
      { world with store := world.store.appendMessage record })
  | .recorded msg cell recordId =>
    match world.cells[cell]? with
    | none => none
    | some thread =>
      let (invocations, reply) :=
        dispatch serde thread.target msg (buildEnvelope serde msg thread) answer
      let world := world.log (.dispatched msg thread invocations)
      match reply with
      | none => some (.inbound queue .idle, world)
      | some content => some (.inbound queue (.replying msg cell recordId content), world)
  | .replying msg cell recordId content =>
    some (.inbound queue (.sending msg cell recordId content),
      world.modifyCell cell fun thread => thread.pushAssistant content)
  | .sending msg cell recordId content =>
    match world.cells[cell]? with
    | none => none
    | some thread =>
      if answer.attached then
        let outbound : OutboundMessage := {
          channelId := msg.channelId
          threadId := ThreadId.forPeer msg.channelId msg.peer
          peer := msg.peer
          content
          replyTo := some msg.providerMsgId
          idempotencyKey := "turn-" ++ recordId ++ "-" ++ answer.uuid }
        some (.inbound queue .idle, world.log (.answered msg thread outbound))
      else some (.inbound queue .idle, world.log (.failed msg (.unknownChannel msg.channelId)))

-- The turns of `inboundTurn`, a constructor for each branch that goes on.
inductive InboundStep (answer : HarnessAnswer) (world : HarnessWorld H A) :
    List InboundMessage → InboundPhase H A → HarnessTask H A → HarnessWorld H A → Prop where
  | duplicate (msg : InboundMessage) (queue : List InboundMessage) :
    InboundStep answer world (msg :: queue) .idle (.inbound queue .idle) (world.log (.duplicate msg))
  | fresh (msg : InboundMessage) (queue : List InboundMessage)
    (unseen : ¬world.store.hasInbound msg.channelId msg.providerMsgId) :
    InboundStep answer world (msg :: queue) .idle (.inbound queue (.looking msg)) world
  | found (msg : InboundMessage) (queue : List InboundMessage) (cell : Nat)
    (found : world.threads (ThreadId.forPeer msg.channelId msg.peer) = some cell) :
    InboundStep answer world queue (.looking msg) (.inbound queue (.found msg cell)) world
  | unknownThread (msg : InboundMessage) (queue : List InboundMessage) :
    InboundStep answer world queue (.looking msg) (.inbound queue .idle)
      (world.log (.failed msg (.unknownThread (ThreadId.forPeer msg.channelId msg.peer))))
  | autoOpen (msg : InboundMessage) (queue : List InboundMessage) (target : ThreadTarget H A) :
    InboundStep answer world queue (.looking msg)
      (.inbound queue (.opening msg (newThread config msg.channelId msg.peer target))) world
  | insert (msg : InboundMessage) (queue : List InboundMessage) (thread : Thread (ThreadTarget H A)) :
    InboundStep answer world queue (.opening msg thread)
      (.inbound queue (.storing msg thread world.cells.length)) (world.insertThread thread)
  | store (msg : InboundMessage) (queue : List InboundMessage) (thread : Thread (ThreadTarget H A))
    (cell : Nat) :
    InboundStep answer world queue (.storing msg thread cell) (.inbound queue (.found msg cell))
      { world with store := world.store.upsertThread thread }
  | push (msg : InboundMessage) (queue : List InboundMessage) (cell : Nat)
    (thread : Thread (ThreadTarget H A)) (found : world.cells[cell]? = some thread) :
    InboundStep answer world queue (.found msg cell) (.inbound queue (.pushed msg cell))
      ((world.modifyCell cell fun thread => thread.pushUser msg.content).log (.pushed msg thread))
  | record (msg : InboundMessage) (queue : List InboundMessage) (cell : Nat) :
    InboundStep answer world queue (.pushed msg cell) (.inbound queue (.recorded msg cell answer.uuid))
      { world with store := world.store.appendMessage (recordFor (ThreadId.forPeer msg.channelId msg.peer)
          .inbound msg.content (some msg.providerMsgId) none answer.uuid answer.now) }
  | silent (msg : InboundMessage) (queue : List InboundMessage) (cell : Nat) (recordId : String)
    (thread : Thread (ThreadTarget H A)) (found : world.cells[cell]? = some thread) :
    InboundStep answer world queue (.recorded msg cell recordId) (.inbound queue .idle)
      (world.log (.dispatched msg thread
        (dispatch serde thread.target msg (buildEnvelope serde msg thread) answer).1))
  | reply (msg : InboundMessage) (queue : List InboundMessage) (cell : Nat) (recordId : String)
    (thread : Thread (ThreadTarget H A)) (found : world.cells[cell]? = some thread) (content : MessageContent) :
    InboundStep answer world queue (.recorded msg cell recordId)
      (.inbound queue (.replying msg cell recordId content))
      (world.log (.dispatched msg thread
        (dispatch serde thread.target msg (buildEnvelope serde msg thread) answer).1))
  | pushReply (msg : InboundMessage) (queue : List InboundMessage) (cell : Nat) (recordId : String)
    (content : MessageContent) :
    InboundStep answer world queue (.replying msg cell recordId content)
      (.inbound queue (.sending msg cell recordId content))
      (world.modifyCell cell fun thread => thread.pushAssistant content)
  | send (msg : InboundMessage) (queue : List InboundMessage) (cell : Nat) (recordId : String)
    (content : MessageContent) (thread : Thread (ThreadTarget H A))
    (found : world.cells[cell]? = some thread) :
    InboundStep answer world queue (.sending msg cell recordId content) (.inbound queue .idle)
      (world.log (.answered msg thread {
        channelId := msg.channelId
        threadId := ThreadId.forPeer msg.channelId msg.peer
        peer := msg.peer
        content
        replyTo := some msg.providerMsgId
        idempotencyKey := "turn-" ++ recordId ++ "-" ++ answer.uuid }))
  | detached (msg : InboundMessage) (queue : List InboundMessage) (cell : Nat) (recordId : String)
    (content : MessageContent) :
    InboundStep answer world queue (.sending msg cell recordId content) (.inbound queue .idle)
      (world.log (.failed msg (.unknownChannel msg.channelId)))

theorem inboundStep_of_turn {answer : HarnessAnswer} {queue : List InboundMessage}
    {phase : InboundPhase H A} {world world' : HarnessWorld H A} {task' : HarnessTask H A}
    (turned : inboundTurn serde config answer queue phase world = some (task', world')) :
    InboundStep serde config answer world queue phase task' world' := by
  cases phase with
  | idle =>
    cases queue with
    | nil => cases turned
    | cons msg queue =>
      simp only [inboundTurn] at turned
      split at turned
      next =>
        cases turned
        exact .duplicate msg queue
      next unseen =>
        cases turned
        exact .fresh msg queue unseen
  | looking msg =>
    simp only [inboundTurn] at turned
    split at turned
    next cell found =>
      cases turned
      exact .found msg queue cell found
    next =>
      split at turned
      next =>
        cases turned
        exact .unknownThread msg queue
      next target _ =>
        cases turned
        exact .autoOpen msg queue target
  | opening msg thread =>
    cases turned
    exact .insert msg queue thread
  | storing msg thread cell =>
    cases turned
    exact .store msg queue thread cell
  | found msg cell =>
    simp only [inboundTurn] at turned
    split at turned
    next => cases turned
    next thread found =>
      cases turned
      exact .push msg queue cell thread found
  | pushed msg cell =>
    cases turned
    exact .record msg queue cell
  | recorded msg cell recordId =>
    simp only [inboundTurn] at turned
    split at turned
    next => cases turned
    next thread found =>
      split at turned
      next =>
        cases turned
        exact .silent msg queue cell recordId thread found
      next content _ =>
        cases turned
        exact .reply msg queue cell recordId thread found content
  | replying msg cell recordId content =>
    cases turned
    exact .pushReply msg queue cell recordId content
  | sending msg cell recordId content =>
    simp only [inboundTurn] at turned
    split at turned
    next => cases turned
    next thread found =>
      split at turned
      next =>
        cases turned
        exact .send msg queue cell recordId content thread found
      next =>
        cases turned
        exact .detached msg queue cell recordId content

def openTurn (answer : HarnessAnswer) (channel : ChannelId) (peer : PeerId) (target : ThreadTarget H A)
    (phase : OpenPhase) (world : HarnessWorld H A) : Option (HarnessTask H A × HarnessWorld H A) :=
  let id := ThreadId.forPeer channel peer
  let thread := newThread config channel peer target
  match phase with
  | .checking =>
    if answer.attached then some (.openThread channel peer target .binding, world)
    else some (.openThread channel peer target (.returned (.error (.unknownChannel channel))), world)
  | .binding =>
    match world.threads id with
    | none => some (.openThread channel peer target .inserting, world)
    | some cell =>
      match world.cells[cell]? with
      | none => none
      | some existing =>
        some (.openThread channel peer target .storing,
          (world.modifyCell cell fun existing => { existing with target := thread.target }).log
            (.bound channel peer existing))
  | .inserting =>
    some (.openThread channel peer target .storing,
      (world.insertThread thread).log (.bound channel peer thread))
  | .storing =>
    some (.openThread channel peer target (.returned (.ok ())),
      { world with store := world.store.upsertThread thread })
  | .returned _ => none

inductive OpenStep (answer : HarnessAnswer) (channel : ChannelId) (peer : PeerId) (target : ThreadTarget H A)
    (world : HarnessWorld H A) : OpenPhase → OpenPhase → HarnessWorld H A → Prop where
  | attached (attached : answer.attached = true) : OpenStep answer channel peer target world .checking .binding world
  | detached (detached : answer.attached = false) :
    OpenStep answer channel peer target world .checking (.returned (.error (.unknownChannel channel))) world
  | absent (absent : world.threads (ThreadId.forPeer channel peer) = none) :
    OpenStep answer channel peer target world .binding .inserting world
  | rebind (cell : Nat) (existing : Thread (ThreadTarget H A))
    (found : world.threads (ThreadId.forPeer channel peer) = some cell) (here : world.cells[cell]? = some existing) :
    OpenStep answer channel peer target world .binding .storing
      ((world.modifyCell cell fun existing => { existing with target }).log (.bound channel peer existing))
  | insert :
    OpenStep answer channel peer target world .inserting .storing
      ((world.insertThread (newThread config channel peer target)).log
        (.bound channel peer (newThread config channel peer target)))
  | store :
    OpenStep answer channel peer target world .storing (.returned (.ok ()))
      { world with store := world.store.upsertThread (newThread config channel peer target) }

theorem openStep_of_turn {answer : HarnessAnswer} {channel : ChannelId} {peer : PeerId} {target : ThreadTarget H A}
    {phase : OpenPhase} {world world' : HarnessWorld H A} {task' : HarnessTask H A}
    (turned : openTurn config answer channel peer target phase world = some (task', world')) :
    ∃ phase', task' = .openThread channel peer target phase' ∧
      OpenStep config answer channel peer target world phase phase' world' := by
  cases phase with
  | checking =>
    simp only [openTurn] at turned
    split at turned
    next attached =>
      cases turned
      exact ⟨_, rfl, .attached attached⟩
    next detached =>
      cases turned
      exact ⟨_, rfl, .detached (Bool.not_eq_true _ ▸ detached)⟩
  | binding =>
    simp only [openTurn] at turned
    split at turned
    next absent =>
      cases turned
      exact ⟨_, rfl, .absent absent⟩
    next cell found =>
      split at turned
      next => cases turned
      next existing here =>
        cases turned
        exact ⟨_, rfl, .rebind cell existing found here⟩
  | inserting =>
    cases turned
    exact ⟨_, rfl, .insert⟩
  | storing =>
    cases turned
    exact ⟨_, rfl, .store⟩
  | returned => cases turned

def closeTurn (id : ThreadId) (phase : ClosePhase) (world : HarnessWorld H A) :
    Option (HarnessTask H A × HarnessWorld H A) :=
  match phase with
  | .removing => some (.closeThread id .deleting, world.removeThread id)
  | .deleting => some (.closeThread id .returned, { world with store := world.store.deleteThread id })
  | .returned => none

def turn (answer : HarnessAnswer) (task : HarnessTask H A) (world : HarnessWorld H A) :
    Option (HarnessTask H A × HarnessWorld H A) :=
  match task with
  | .inbound queue phase => inboundTurn serde config answer queue phase world
  | .openThread channel peer target phase => openTurn config answer channel peer target phase world
  | .closeThread id phase => closeTurn id phase world

end HarnessTask

inductive HarnessCall (H A : Type) where
  | openThread (channel : ChannelId) (peer : PeerId) (target : ThreadTarget H A)
  | closeThread (id : ThreadId)

def HarnessCall.task {H A : Type} : HarnessCall H A → HarnessTask H A
  | .openThread channel peer target => .openThread channel peer target .checking
  | .closeThread id => .closeThread id .removing

-- The loop is the first thread, the calls are the others.
def startHarness {H A : Type} (queue : List InboundMessage) (calls : List (HarnessCall H A)) :
    Threads (HarnessWorld H A) (HarnessTask H A) where
  shared := HarnessWorld.new
  locals := .inbound queue .idle :: calls.map HarnessCall.task

def quietSerde : InboundSerde Unit where
  oneShot := fun _ => true
  replyFromResult := fun _ _ => none
  contentToValue := fun _ => .null
  contentFromValue := fun _ => none

def manualConfig : HarnessConfig (ThreadTarget Unit Unit) where
  autoOpenTarget := none
  defaultPolicy := ThreadPolicy.default

def hello (channel : ChannelId) (peer : PeerId) : InboundMessage where
  channelId := channel
  threadId := ThreadId.forPeer channel peer
  peer := peer
  providerMsgId := "m"
  content := .text "hello"

-- Every turn hears the same: the provider is attached, and the target fails.
def plainAnswer : HarnessAnswer where
  now := 0
  uuid := "u"
  attached := true
  called := .error "busy"
  applied := .ok ()

def turnsOf (threads : List Nat) : List (Nat × HarnessAnswer) := threads.map fun i => (i, plainAnswer)

end AtomrAgents
