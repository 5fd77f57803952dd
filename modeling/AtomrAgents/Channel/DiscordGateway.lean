import AtomrAgents.Channel.Store
import AtomrAgents.Core.Value
import AtomrAgents.Shared.Operations

set_option autoImplicit false

/-! Once the gateway has greeted, three tasks share the connection: the main loop reads it, the heartbeat
speaks up from time to time, and the sink task sends what the two others have queued for it. -/

namespace AtomrAgents.Discord

inductive DiscordError where
  | channel (e : ChannelError)
  | webhookParse (message : String)
  deriving DecidableEq

def DiscordError.transport (message : String) : DiscordError := .channel (.transport message)

structure DiscordConfig where
  botToken : String
  defaultChannelId : ChannelId
  discordChannelId : Option String
  intents : Option UInt64

def defaultIntents : UInt64 := .ofNat (2 ^ 9 + 2 ^ 15)

def buildAttachment : Value → Except DiscordError MessageContent
  | .object obj =>
    match (Value.field obj "url").bind Value.asStr with
    | none => .error (.webhookParse "attachment missing url")
    | some url =>
      let mime := ((Value.field obj "content_type").bind Value.asStr).getD "application/octet-stream"
      .ok (.attachment url mime none)
  | _ => .error (.webhookParse "attachment must be an object")

-- Only the first attachment is looked at.
def buildContent (text : String) (attachments : List Value) : Except DiscordError MessageContent :=
  match attachments.head?.map buildAttachment with
  | some (.error e) => .error e
  | none => .ok (.text text)
  | some (.ok att) => if text = "" then .ok att else .ok (.mixed [.text text, att])

-- `rfc3339` reads a time stamp; the time itself is not looked at later.
def parseMessageCreate (rfc3339 : String → Except String Int) (d : Value) (channelId : ChannelId)
    (expectChannel : Option String) : Except DiscordError (Option InboundMessage) :=
  match d with
  | .object obj =>
    match Value.field obj "author" with
    | some (.object author) =>
      if ((Value.field author "bot").bind Value.asBool).getD false then .ok none
      else
        match (Value.field obj "channel_id").bind Value.asStr with
        | none => .error (.webhookParse "MESSAGE_CREATE missing channel_id")
        | some discordChannelId =>
          if expectChannel.any (· ≠ discordChannelId) then .ok none
          else
            match (Value.field obj "id").bind Value.asStr with
            | none => .error (.webhookParse "MESSAGE_CREATE missing id")
            | some providerMsgId =>
              match (Value.field author "id").bind Value.asStr with
              | none => .error (.webhookParse "MESSAGE_CREATE author missing id")
              | some peer =>
                match ((Value.field obj "timestamp").bind Value.asStr).map rfc3339 with
                | some (.error e) => .error (.webhookParse ("invalid timestamp: " ++ e))
                | _ =>
                  let text := ((Value.field obj "content").bind Value.asStr).getD ""
                  let attachments := ((Value.field obj "attachments").bind Value.asArray).getD []
                  match buildContent text attachments with
                  | .error e => .error e
                  | .ok content =>
                    .ok (some
                      { channelId, threadId := ThreadId.forPeer channelId peer, peer, providerMsgId, content })
    | _ => .error (.webhookParse "MESSAGE_CREATE missing author")
  | _ => .error (.webhookParse "MESSAGE_CREATE d must be an object")

-- What the connection gives next. A binary frame is read as a text; `shown` is how an error prints the frame.
inductive Incoming where
  | text (body : String)
  | control (shown : String)
  | close (shown : String)
  | failed (e : String)
  | ended

inductive Outgoing where
  | text (frame : Value)
  | close

def number (n : UInt64) : Value := .number (.posInt n)

-- `Option<i64>` as JSON.
def seqValue : Option Int → Value
  | none => .null
  | some s => .number (if 0 ≤ s then .posInt (.ofNat s.toNat) else .negInt (.ofInt s))

def heartbeat (seq : Option Int) : Value := .object [("d", seqValue seq), ("op", number 1)]

def identify (config : DiscordConfig) (os : String) : Value :=
  .object
    [("d", .object
      [("intents", number (config.intents.getD defaultIntents)),
        ("properties", .object
          [("browser", .string "atomr-agents"), ("device", .string "atomr-agents"), ("os", .string os)]),
        ("token", .string config.botToken)]),
      ("op", number 2)]

structure Gateway where
  config : DiscordConfig
  json : String → Except String Value
  show_ : Value → String
  rfc3339 : String → Except String Int
  os : String

namespace Gateway

variable (gateway : Gateway)

def hello : Incoming → Except DiscordError UInt64
  | .text body =>
    match gateway.json body with
    | .error e => .error (.transport ("gateway HELLO not JSON: " ++ e))
    | .ok hello =>
      if (hello.get "op").bind Value.asU64 ≠ some 10 then
        .error (.transport ("gateway: expected HELLO op 10, got " ++ gateway.show_ hello))
      else
        match ((hello.get "d").bind (Value.get "heartbeat_interval")).bind Value.asU64 with
        | none => .error (.transport "gateway HELLO missing heartbeat_interval")
        | some ms => .ok ms
  | .control shown | .close shown => .error (.transport ("gateway: expected HELLO, got " ++ shown))
  | .failed e => .error (.transport ("gateway recv HELLO: " ++ e))
  | .ended => .error (.transport "gateway closed before HELLO")

inductive Verdict where
  | readOn
  | beat
  | forward (msg : InboundMessage)
  | leave (result : Except DiscordError Unit)

def sequence : Incoming → Option Int
  | .text body =>
    match gateway.json body with
    | .error _ => none
    | .ok v => (v.get "s").bind Value.asI64
  | _ => none

-- `MESSAGE_CREATE` is the only event that is looked at.
def dispatch (v : Value) : Verdict :=
  if ((v.get "t").bind Value.asStr).getD "" = "MESSAGE_CREATE" then
    match parseMessageCreate gateway.rfc3339 ((v.get "d").getD .null) gateway.config.defaultChannelId
        gateway.config.discordChannelId with
    | .ok (some inbound) => .forward inbound
    | _ => .readOn
  else .readOn

def verdict : Incoming → Verdict
  | .text body =>
    match gateway.json body with
    | .error _ => .readOn
    | .ok v =>
      match ((v.get "op").bind Value.asU64).getD (.ofNat (2 ^ 64 - 1)) with
      | 1 => .beat
      | 7 => .leave (.error (.transport "gateway requested disconnect (op 7)"))
      | 9 => .leave (.error (.transport "gateway requested disconnect (op 9)"))
      | 0 => gateway.dispatch v
      | _ => .readOn
  | .control _ => .readOn
  | .close _ => .leave (.ok ())
  | .failed e => .leave (.error (.transport ("gateway recv: " ++ e)))
  | .ended => .leave (.error (.transport "gateway closed"))

end Gateway

-- The loops of the main task and of the sink task look at the stop flag before they wait.
inductive MainTask where
  | looking
  | waiting
  | beating (frame : Value)
  | forwarding (msg : InboundMessage)
  | closing (result : Except DiscordError Unit)
  | joining (result : Except DiscordError Unit)
  | ended (result : Except DiscordError Unit)

inductive SinkTask where
  | looking
  | waiting
  | ended

inductive HeartbeatTask where
  | sleeping
  | sending (frame : Value)
  | ended

-- `handled` is what the main loop has taken off the connection, `wire` what the sink has sent.
structure Client where
  stop : Bool
  inboundClosed : Bool
  seq : Option Int
  queue : List Outgoing
  main : MainTask
  sink : SinkTask
  heartbeats : HeartbeatTask
  handled : List Incoming
  inbound : List InboundMessage
  wire : List Outgoing

def sinkCapacity : Nat := 8

inductive Event where
  | stop
  | hangUp
  | look
  | idle
  | receive (item : Incoming)
  | push
  | forward
  | join
  | sinkLook
  | sinkIdle
  | flush (sent : Bool)
  | tick
  | beat

-- Whether the event is a turn of the main task or of the sink task, and needs nothing from outside.
def Event.own : Event → Bool
  | .look | .idle | .push | .forward | .join | .sinkLook | .sinkIdle | .flush true => true
  | _ => false

namespace Client

variable (client : Client)

-- `sink_tx.send(..).await`: `none` where it waits for room; a queue that is closed takes nothing.
def send (frame : Outgoing) : Option Client :=
  match client.sink with
  | .ended => some client
  | _ => if client.queue.length < sinkCapacity then some { client with queue := client.queue ++ [frame] } else none

def push : Client :=
  match client.main with
  | .beating frame =>
    match client.send (.text frame) with
    | none => client
    | some client => { client with main := .looking }
  | .closing result =>
    match client.send .close with
    | none => client
    | some client => { client with main := .joining result }
  | _ => client

def forward : Client :=
  match client.main with
  | .forwarding msg =>
    if client.inboundClosed then { client with main := .closing (.ok ()) }
    else { client with inbound := client.inbound ++ [msg], main := .looking }
  | _ => client

-- The heartbeat is aborted when the sink task has ended.
def join : Client :=
  match client.main, client.sink with
  | .joining result, .ended => { client with main := .ended result, heartbeats := .ended }
  | _, _ => client

def look : Client :=
  match client.main with
  | .looking => { client with main := if client.stop then .closing (.ok ()) else .waiting }
  | _ => client

def idle : Client :=
  match client.main with
  | .waiting => { client with main := .looking }
  | _ => client

def sinkLook : Client :=
  match client.sink with
  | .looking =>
    if client.stop then { client with sink := .ended, queue := [], wire := client.wire ++ [.close] }
    else { client with sink := .waiting }
  | _ => client

def sinkIdle : Client :=
  match client.sink with
  | .waiting => { client with sink := .looking }
  | _ => client

-- Whether a sender is left: the main task drops its own before it waits for the sink task.
def senders : Bool :=
  match client.main, client.heartbeats with
  | .joining _, .ended | .ended _, .ended => false
  | _, _ => true

def flush (sent : Bool) : Client :=
  match client.sink, client.queue with
  | .waiting, .text frame :: rest =>
    if sent then { client with sink := .looking, queue := rest, wire := client.wire ++ [.text frame] }
    else { client with sink := .ended, queue := [] }
  | .waiting, .close :: _ => { client with sink := .ended, queue := [], wire := client.wire ++ [.close] }
  | .waiting, [] =>
    if client.senders then client else { client with sink := .ended, wire := client.wire ++ [.close] }
  | _, _ => client

def tick : Client :=
  match client.heartbeats with
  | .sleeping =>
    { client with heartbeats := if client.stop then .ended else .sending (heartbeat client.seq) }
  | _ => client

def beat : Client :=
  match client.heartbeats with
  | .sending frame =>
    match client.sink, client.send (.text frame) with
    | .ended, _ => { client with heartbeats := .ended }
    | _, none => client
    | _, some client => { client with heartbeats := .sleeping }
  | _ => client

end Client

namespace Gateway

variable (gateway : Gateway)

def receive (client : Client) (item : Incoming) : Client :=
  match client.main with
  | .waiting =>
    let seq := (gateway.sequence item).or client.seq
    let main :=
      match gateway.verdict item with
      | .readOn => .looking
      | .beat => .beating (heartbeat seq)
      | .forward msg => .forwarding msg
      | .leave result => .closing result
    { client with seq, main, handled := client.handled ++ [item] }
  | _ => client

def next (client : Client) : Event → Client
  | .stop => { client with stop := true }
  | .hangUp => { client with inboundClosed := true }
  | .look => client.look
  | .idle => client.idle
  | .receive item => gateway.receive client item
  | .push => client.push
  | .forward => client.forward
  | .join => client.join
  | .sinkLook => client.sinkLook
  | .sinkIdle => client.sinkIdle
  | .flush sent => client.flush sent
  | .tick => client.tick
  | .beat => client.beat

-- The connection is greeted and identified when the tasks start.
def initial : Client where
  stop := false
  inboundClosed := false
  seq := none
  queue := []
  main := .looking
  sink := .looking
  heartbeats := .sleeping
  handled := []
  inbound := []
  wire := [.text (identify gateway.config gateway.os)]

def start (connected : Except String Unit) (first : Incoming) (identified : Except String Unit) :
    Except DiscordError Client :=
  match connected with
  | .error e => .error (.transport ("gateway connect: " ++ e))
  | .ok () =>
    match gateway.hello first with
    | .error e => .error e
    | .ok _ =>
      match identified with
      | .error e => .error (.transport ("gateway IDENTIFY: " ++ e))
      | .ok () => .ok gateway.initial

def step (client : Client) (event : Event) : Unit × Client := ((), gateway.next client event)

def after (client : Client) (events : List Event) : Client :=
  Shared.Operations.final gateway.step client events

def run (connected : Except String Unit) (first : Incoming) (identified : Except String Unit) (events : List Event) :
    Except DiscordError Client :=
  (gateway.start connected first identified).map fun client => gateway.after client events

end Gateway

end AtomrAgents.Discord
