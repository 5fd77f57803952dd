import AtomrAgents.Core.Context
import AtomrAgents.Core.Value

set_option autoImplicit false

namespace AtomrAgents

abbrev ChannelId := String
abbrev ThreadId := String
abbrev PeerId := String

inductive ChannelError where
  | unknownChannel (id : String)
  | unknownThread (id : String)
  | capabilityDenied (capability : String)
  | provider (message : String)
  | transport (message : String)
  deriving DecidableEq

structure Capabilities where
  text : Bool
  attachments : Bool

inductive MessageContent where
  | text (text : String)
  | attachment (mediaRef mime : String) (caption : Option String)
  | mixed (parts : List MessageContent)

namespace MessageContent

mutual

def asText : MessageContent → String
  | .text s => s
  | .attachment _ _ caption => caption.getD ""
  | .mixed parts => "\n".intercalate ((asTexts parts).filter fun s => s ≠ "")

def asTexts : List MessageContent → List String
  | [] => []
  | part :: parts => asText part :: asTexts parts

end

mutual

def checkCapabilities (caps : Capabilities) : MessageContent → Except ChannelError Unit
  | .text _ => if !caps.text then .error (.capabilityDenied "text") else .ok ()
  | .attachment _ _ _ =>
    if !caps.attachments then .error (.capabilityDenied "attachments") else .ok ()
  | .mixed parts => checkParts caps parts

def checkParts (caps : Capabilities) : List MessageContent → Except ChannelError Unit
  | [] => .ok ()
  | part :: parts =>
    match checkCapabilities caps part with
    | .error e => .error e
    | .ok () => checkParts caps parts

end

end MessageContent

structure InboundMessage where
  channelId : ChannelId
  threadId : ThreadId
  peer : PeerId
  providerMsgId : String
  content : MessageContent

structure OutboundMessage where
  channelId : ChannelId
  threadId : ThreadId
  peer : PeerId
  content : MessageContent
  replyTo : Option String
  idempotencyKey : String

structure ProviderAck where
  providerMsgId : String
  sentAt : Int

inductive Direction where
  | inbound
  | outbound
  deriving DecidableEq

structure ChannelMessageRecord where
  threadId : ThreadId
  id : String
  direction : Direction
  content : MessageContent
  providerMsgId : Option String
  idempotencyKey : Option String
  atTime : Int

end AtomrAgents

/-! Channels, threads and the messages of each thread, and which inbound messages have been seen. Every
operation is one critical section. -/

namespace AtomrAgents

structure ChannelSpec where
  id : ChannelId
  capabilities : Capabilities

-- A target is told by what it calls; `H` and `A` are the callables and the adapters there are.
inductive ThreadTarget (H A : Type) where
  | callable (handle : H)
  | harness (callable : H) (adapter : A)

def ThreadTarget.kind {H A : Type} : ThreadTarget H A → String
  | .callable _ => "callable"
  | .harness _ _ => "harness"

structure ThreadPolicy where
  historyCap : Nat
  autoOpen : Bool

structure Thread (T : Type) where
  id : ThreadId
  channel : ChannelId
  peer : PeerId
  target : T
  history : List Message
  policy : ThreadPolicy

def ThreadPolicy.default : ThreadPolicy where
  historyCap := 200
  autoOpen := false

def ThreadId.forPeer (channel : ChannelId) (peer : PeerId) : ThreadId := channel ++ "#" ++ peer

namespace Thread

variable {T : Type}

def new (channel : ChannelId) (peer : PeerId) (target : T) : Thread T where
  id := ThreadId.forPeer channel peer
  channel := channel
  peer := peer
  target := target
  history := []
  policy := ThreadPolicy.default

def push (thread : Thread T) (role : MessageRole) (text : String) : Thread T :=
  let history := thread.history ++ [{ role, content := text }]
  let excess := if thread.policy.historyCap > 0 then history.length - thread.policy.historyCap else 0
  { thread with history := history.drop excess }

def pushUser (thread : Thread T) (content : MessageContent) : Thread T := thread.push .user content.asText

def pushAssistant (thread : Thread T) (content : MessageContent) : Thread T :=
  thread.push .assistant content.asText

end Thread

-- A thread without an entry in `messages` has none.
structure InMemoryChannelStore (T : Type) where
  channels : ChannelId → Option ChannelSpec
  threads : ThreadId → Option (Thread T)
  messages : ThreadId → List ChannelMessageRecord
  inboundSeen : List (ChannelId × String)

namespace InMemoryChannelStore

variable {T : Type} (store : InMemoryChannelStore T)

def new : InMemoryChannelStore T where
  channels := fun _ => none
  threads := fun _ => none
  messages := fun _ => []
  inboundSeen := []

def upsertChannel (spec : ChannelSpec) : InMemoryChannelStore T :=
  { store with channels := Function.update store.channels spec.id (some spec) }

def getChannel (id : ChannelId) : Option ChannelSpec := store.channels id

def upsertThread (thread : Thread T) : InMemoryChannelStore T :=
  { store with threads := Function.update store.threads thread.id (some thread) }

def deleteThread (id : ThreadId) : InMemoryChannelStore T :=
  { store with
    threads := Function.update store.threads id none
    messages := Function.update store.messages id [] }

-- An inbound message is marked as seen on the channel of the thread's row, if there is a row.
def seenBy (record : ChannelMessageRecord) : Option (ChannelId × String) :=
  match record.providerMsgId, record.direction with
  | some pid, .inbound => (store.threads record.threadId).map fun thread => (thread.channel, pid)
  | _, _ => none

def appendMessage (record : ChannelMessageRecord) : InMemoryChannelStore T :=
  { store with
    messages := Function.update store.messages record.threadId
      (store.messages record.threadId ++ [record])
    inboundSeen := store.inboundSeen ++ (store.seenBy record).toList }

def lookupOutboundByKey (thread : ThreadId) (idempotencyKey : String) : Option String :=
  ((store.messages thread).find? fun record => record.idempotencyKey == some idempotencyKey).bind
    ChannelMessageRecord.providerMsgId

def hasInbound (channel : ChannelId) (providerMsgId : String) : Bool :=
  store.inboundSeen.contains (channel, providerMsgId)

end InMemoryChannelStore

structure ThreadSummary where
  id : ThreadId
  channel : ChannelId
  peer : String
  targetKind : String
  historyLen : Nat

def ThreadSummary.of {H A : Type} (thread : Thread (ThreadTarget H A)) : ThreadSummary where
  id := thread.id
  channel := thread.channel
  peer := thread.peer
  targetKind := thread.target.kind
  historyLen := thread.history.length

def InMemoryChannelStore.listThreads {H A : Type} (store : InMemoryChannelStore (ThreadTarget H A))
    (channel : ChannelId) (id : ThreadId) : Option ThreadSummary :=
  ((store.threads id).filter fun thread => thread.channel = channel).map ThreadSummary.of

-- The id and the time are read when the record is made.
def recordFor (threadId : ThreadId) (direction : Direction) (content : MessageContent)
    (providerMsgId idempotencyKey : Option String) (id : String) (now : Int) : ChannelMessageRecord where
  threadId := threadId
  id := id
  direction := direction
  content := content
  providerMsgId := providerMsgId
  idempotencyKey := idempotencyKey
  atTime := now

end AtomrAgents
