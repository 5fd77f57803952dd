import AtomrAgents.Channel.Store
import AtomrAgents.Shared.Operations

set_option autoImplicit false

namespace AtomrAgents

open Shared

def maxAttempts : Nat := 3

inductive WorkerPhase where
  | idle
  | received (job : OutboundMessage)
  | unsent (job : OutboundMessage)
  | sending (job : OutboundMessage) (attempt : Nat)
  | acked (job : OutboundMessage) (ack : ProviderAck)

inductive WorkerEvent where
  | received (job : OutboundMessage)
  | sent (job : OutboundMessage) (answer : Except ChannelError ProviderAck)
  | finished (job : OutboundMessage) (result : Except ChannelError ProviderAck)

structure OutboundWorld (T : Type) where
  store : InMemoryChannelStore T
  phase : WorkerPhase
  events : List WorkerEvent

-- What a turn of the worker reads from outside: the clock, a new id, and the provider's answer.
structure WorkerInput where
  now : Int
  uuid : String
  answer : Except ChannelError ProviderAck

inductive OutboundTurn (T : Type) where
  | receive (job : OutboundMessage)
  | work (input : WorkerInput)
  | upsertChannel (spec : ChannelSpec)
  | upsertThread (thread : Thread T)
  | appendMessage (record : ChannelMessageRecord)

namespace OutboundWorld

variable {T : Type}

def new : OutboundWorld T where
  store := InMemoryChannelStore.new
  phase := .idle
  events := []

def finish (world : OutboundWorld T) (job : OutboundMessage) (result : Except ChannelError ProviderAck) :
    OutboundWorld T :=
  { world with phase := .idle, events := world.events ++ [.finished job result] }

def outboundRecord (job : OutboundMessage) (ack : ProviderAck) (input : WorkerInput) :
    ChannelMessageRecord :=
  recordFor job.threadId .outbound job.content (some ack.providerMsgId) (some job.idempotencyKey)
    input.uuid input.now

def work (channelId : ChannelId) (world : OutboundWorld T) (input : WorkerInput) : OutboundWorld T :=
  match world.phase with
  | .idle => world
  | .received job =>
    match world.store.lookupOutboundByKey job.threadId job.idempotencyKey with
    | some prev => world.finish job (.ok { providerMsgId := prev, sentAt := input.now })
    | none => { world with phase := .unsent job }
  | .unsent job =>
    match world.store.getChannel channelId with
    | none => { world with phase := .sending job 0 }
    | some spec =>
      match job.content.checkCapabilities spec.capabilities with
      | .error e => world.finish job (.error e)
      | .ok () => { world with phase := .sending job 0 }
  | .sending job attempt =>
    let called : OutboundWorld T := { world with events := world.events ++ [.sent job input.answer] }
    match input.answer with
    | .ok ack => { called with phase := .acked job ack }
    | .error e =>
      if attempt + 1 = maxAttempts then called.finish job (.error e)
      else { called with phase := .sending job (attempt + 1) }
  | .acked job ack =>
    let stored : OutboundWorld T :=
      { world with store := world.store.appendMessage (outboundRecord job ack input) }
    stored.finish job (.ok ack)

-- A job is received when the worker is idle; the other turns are those of other tasks.
def turn (channelId : ChannelId) (world : OutboundWorld T) : OutboundTurn T → Unit × OutboundWorld T
  | .receive job =>
    match world.phase with
    | .idle => ((), { world with phase := .received job, events := world.events ++ [.received job] })
    | _ => ((), world)
  | .work input => ((), world.work channelId input)
  | .upsertChannel spec => ((), { world with store := world.store.upsertChannel spec })
  | .upsertThread thread => ((), { world with store := world.store.upsertThread thread })
  | .appendMessage record => ((), { world with store := world.store.appendMessage record })

-- The jobs are for the worker's own threads; other tasks append inbound messages, or write to other threads.
def Admissible (own : ThreadId → Prop) (_world : OutboundWorld T) : OutboundTurn T → Prop
  | .receive job => own job.threadId
  | .appendMessage record =>
    record.direction = .inbound ∧ record.idempotencyKey = none ∨ ¬own record.threadId
  | _ => True

end OutboundWorld

structure AcceptedSend where
  threadId : ThreadId
  idempotencyKey : String
  content : MessageContent
  providerMsgId : String

def AcceptedSend.of (job : OutboundMessage) (ack : ProviderAck) : AcceptedSend where
  threadId := job.threadId
  idempotencyKey := job.idempotencyKey
  content := job.content
  providerMsgId := ack.providerMsgId

def AcceptedSend.slot (send : AcceptedSend) : ThreadId × String := (send.threadId, send.idempotencyKey)

namespace WorkerEvent

def acceptedSend : WorkerEvent → Option AcceptedSend
  | .sent job (.ok ack) => some (.of job ack)
  | _ => none

def isReceived : WorkerEvent → Bool
  | .received _ => true
  | _ => false

def isSent : WorkerEvent → Bool
  | .sent _ _ => true
  | _ => false

-- A job that is finished after a send with its key was accepted is acknowledged with that send.
def Acknowledged (first second : WorkerEvent) : Prop :=
  ∀ send job result, first.acceptedSend = some send → second = .finished job result →
    (job.threadId, job.idempotencyKey) = send.slot →
      ∃ ack, result = .ok ack ∧ ack.providerMsgId = send.providerMsgId

end WorkerEvent

def acceptedSends (events : List WorkerEvent) : List AcceptedSend :=
  events.filterMap WorkerEvent.acceptedSend

def callsOfJob (events : List WorkerEvent) : Nat :=
  (events.reverse.takeWhile fun event => !event.isReceived).countP WorkerEvent.isSent

def InMemoryChannelStore.outboundLog {T : Type} (store : InMemoryChannelStore T) (thread : ThreadId) :
    List ChannelMessageRecord :=
  (store.messages thread).filter fun record => record.direction = .outbound

structure LogEntry where
  threadId : ThreadId
  content : MessageContent
  idempotencyKey : Option String
  providerMsgId : Option String

def ChannelMessageRecord.entry (record : ChannelMessageRecord) : LogEntry where
  threadId := record.threadId
  content := record.content
  idempotencyKey := record.idempotencyKey
  providerMsgId := record.providerMsgId

def AcceptedSend.entry (send : AcceptedSend) : LogEntry where
  threadId := send.threadId
  content := send.content
  idempotencyKey := some send.idempotencyKey
  providerMsgId := some send.providerMsgId

def acceptedFor (events : List WorkerEvent) (thread : ThreadId) : List AcceptedSend :=
  (acceptedSends events).filter fun send => send.threadId = thread

end AtomrAgents
