import AtomrAgents.Channel.SignalFrames
import AtomrAgents.Shared.Operations
import AtomrAgents.Shared.Table

set_option autoImplicit false

/-! Many callers wait for answers on one socket. A reader hands each response to the caller that is registered
under its id, a writer puts the requests on the wire, and both stop when the socket closes. -/

namespace AtomrAgents.Signal

open Shared

inductive Phase where
  | ready
  | registered
  | waiting
  | forgetting (e : SignalError)
  | finished (result : Except SignalError ProviderAck)

-- `answer` is what the oneshot of the call holds.
structure Call where
  id : String
  frame : Value
  phase : Phase
  answer : Option Value

inductive Reader where
  | reading
  | answering (call : Nat) (value : Value)
  | leaving
  | left

-- `PendingMap`: a request id and the call whose sender is kept under it.
abbrev PendingMap := Table (Prod.fst : String × Nat → String)

structure Listener where
  started : Bool
  pending : PendingMap
  calls : List Call
  queue : List Value
  writing : Bool
  wire : List Value
  reader : Reader
  inbound : List InboundMessage
  inboundClosed : Bool

structure SignalProvider where
  account : String
  defaultChannelId : ChannelId
  json : SerdeJson Value

def Listener.new : Listener where
  started := false
  pending := Table.empty
  calls := []
  queue := []
  writing := false
  wire := []
  reader := .left
  inbound := []
  inboundClosed := false

def notStarted : SignalError := .provider "SignalProvider not started"

def writerDropped : SignalError := .transport "signal writer dropped"

def listenerDropped : SignalError := .transport "signal listener dropped before response"

def timedOut : SignalError := .transport "signal send: timed out"

def listenerClosed : SignalError := .transport "signal listener closed during send"

-- The frames that wait for the writer.
def writeCapacity : Nat := 64

def closedMarker : Value := .object [("__atomr_listener_closed", .bool true)]

def sendResult (value : Value) (now : Int) : Except SignalError ProviderAck :=
  if ((value.get "__atomr_listener_closed").bind Value.asBool).getD false then .error listenerClosed
  else
    match JsonRpcResponse.fromValue value with
    | none => .error .serde
    | some resp =>
      match resp.error with
      | some err => .error (.provider ("signal-cli error: " ++ err.message))
      | none =>
        match resp.result with
        | none => .error (.provider "signal-cli response missing result")
        | some result =>
          match (result.get "timestamp").bind Value.asI64 with
          | none => .error (.provider "signal-cli response missing timestamp")
          | some timestamp => .ok { providerMsgId := toString timestamp, sentAt := now }

namespace Listener

variable (listener : Listener)

def setCall (c : Nat) (call : Call) : Listener := { listener with calls := listener.calls.set c call }

-- Whether the sender of the call is still somewhere.
def hasSender (c : Nat) : Bool :=
  listener.pending.rows.any (fun row => row.2 = c) ||
    match listener.reader with
    | .answering c' _ => c' = c
    | _ => false

def send (account id : String) (msg : OutboundMessage) : Listener :=
  let frame := buildSendRequest id account msg
  let phase := if listener.started then Phase.ready else .finished (.error notStarted)
  { listener with calls := listener.calls ++ [{ id, frame, phase, answer := none }] }

def register (c : Nat) (call : Call) : Listener :=
  { listener.setCall c { call with phase := .registered } with
    pending := listener.pending.upsert (call.id, c) }

def write (c : Nat) (call : Call) : Listener :=
  if !listener.writing then listener.setCall c { call with phase := .forgetting writerDropped }
  else if listener.queue.length < writeCapacity then
    { listener.setCall c { call with phase := .waiting } with queue := listener.queue ++ [call.frame] }
  else listener

def receive (c : Nat) (call : Call) (now : Int) : Listener :=
  match call.answer with
  | some value => listener.setCall c { call with phase := .finished (sendResult value now) }
  | none =>
    if listener.hasSender c then listener
    else listener.setCall c { call with phase := .forgetting listenerDropped }

def timeout (c : Nat) (call : Call) : Listener :=
  match call.answer with
  | some _ => listener
  | none => listener.setCall c { call with phase := .forgetting timedOut }

def forget (c : Nat) (call : Call) (e : SignalError) : Listener :=
  { listener.setCall c { call with phase := .finished (.error e) } with
    pending := listener.pending.delete call.id }

-- The reader looks at the inbound channel after each frame.
def readOn : Listener :=
  { listener with reader := if listener.inboundClosed then .leaving else .reading }

-- The sender is taken out of the map first and used then.
def respond (id : String) (value : Value) : Listener :=
  match listener.pending.find id with
  | none => listener.readOn
  | some (_, c) => { listener with pending := listener.pending.delete id, reader := .answering c value }

def notify (msg : InboundMessage) : Listener :=
  if listener.inboundClosed then listener.readOn
  else { listener with inbound := listener.inbound ++ [msg] }.readOn

def answerCall (c : Nat) (value : Value) : Listener :=
  match listener.calls[c]? with
  | none => listener
  | some call => listener.setCall c { call with answer := some value }

def closeCalls (rows : List (String × Nat)) : Listener :=
  rows.foldl (fun listener row => listener.answerCall row.2 closedMarker) listener

def drain : Listener :=
  { listener.closeCalls listener.pending.rows with pending := Table.empty, reader := .left }

def flush : Listener :=
  match listener.queue with
  | [] => listener
  | frame :: queue => { listener with queue, wire := listener.wire ++ [frame] }

def stopWriting : Listener := { listener with writing := false, queue := [] }

end Listener

inductive Frame where
  | response (id : String) (value : Value)
  | inbound (msg : InboundMessage)
  | ignored

namespace SignalProvider

variable (provider : SignalProvider)

-- `resp.id`, as a string.
def idText : Value → String
  | .string s => s
  | other => provider.json.toString other

def responseId (value : Value) : Option String :=
  if (optional (value.get "id")).isSome then
    match JsonRpcResponse.fromValue value with
    | none => none
    | some resp => resp.id.map provider.idText
  else none

def frameOf (line : String) (now : Int) : Frame :=
  match provider.json.fromStr line with
  | .error _ => .ignored
  | .ok value =>
    if (optional (value.get "id")).isSome then
      match provider.responseId value with
      | none => .ignored
      | some id => .response id value
    else if ((value.get "method").bind Value.asStr).getD "" ≠ "receive" then .ignored
    else
      match (value.get "params").bind (Value.get "envelope") with
      | none => .ignored
      | some envelope =>
        match parseEnvelope envelope provider.defaultChannelId now with
        | .ok (some msg) => .inbound msg
        | _ => .ignored

def handleFrame (listener : Listener) (line : String) (now : Int) : Listener :=
  if trim line = "" then listener
  else
    match provider.frameOf line now with
    | .response id value => listener.respond id value
    | .inbound msg => listener.notify msg
    | .ignored => listener.readOn

def start (listener : Listener) (connected : Except String Unit) : Except SignalError Unit × Listener :=
  if listener.started then (.error (.provider "SignalProvider::start called twice without stop"), listener)
  else
    match connected with
    | .error e => (.error (.transport e), listener)
    | .ok () => (.ok (), { listener with started := true, writing := true, reader := .reading })

end SignalProvider

-- `leave` is a stop flag that was seen, or the end of the socket; `stopWriting` is that flag, an error of the
-- socket, or the abort at the end of the reader.
inductive Event where
  | start (connected : Except String Unit)
  | send (id : String) (msg : OutboundMessage)
  | register (c : Nat)
  | write (c : Nat)
  | receive (c : Nat) (now : Int)
  | timeout (c : Nat)
  | forget (c : Nat)
  | line (text : String) (now : Int)
  | answer
  | leave
  | drain
  | flush
  | stopWriting
  | hangUp

namespace SignalProvider

variable (provider : SignalProvider)

def callStep (listener : Listener) (c : Nat) (event : Event) (call : Call) : Listener :=
  match event, call.phase with
  | .register _, .ready => listener.register c call
  | .write _, .registered => listener.write c call
  | .receive _ now, .waiting => listener.receive c call now
  | .timeout _, .waiting => listener.timeout c call
  | .forget _, .forgetting e => listener.forget c call e
  | _, _ => listener

def onCall (listener : Listener) (c : Nat) (event : Event) : Listener :=
  match listener.calls[c]? with
  | none => listener
  | some call => callStep listener c event call

def readerStep (listener : Listener) (event : Event) : Listener :=
  match event, listener.reader with
  | .line text now, .reading => provider.handleFrame listener text now
  | .leave, .reading => { listener with reader := .leaving }
  | .answer, .answering c value => (listener.answerCall c value).readOn
  | .drain, .leaving => listener.drain
  | _, _ => listener

def next (listener : Listener) (event : Event) : Listener :=
  match event with
  | .start connected => (start listener connected).2
  | .send id msg => listener.send provider.account id msg
  | .register c | .write c | .receive c _ | .timeout c | .forget c => onCall listener c event
  | .line _ _ | .answer | .leave | .drain => provider.readerStep listener event
  | .flush => if listener.writing then listener.flush else listener
  | .stopWriting => listener.stopWriting
  | .hangUp => { listener with inboundClosed := true }

def step (listener : Listener) (event : Event) : Unit × Listener := ((), provider.next listener event)

def after (events : List Event) : Listener := Operations.final provider.step Listener.new events

end SignalProvider

end AtomrAgents.Signal
