import AtomrAgents.Channel.Store
import AtomrAgents.Core.Text
import AtomrAgents.Core.Value

set_option autoImplicit false

namespace AtomrAgents.Signal

-- A `ChannelError`, or one of the kinds that no other channel has.
inductive SignalError where
  | channel (e : ChannelError)
  | webhookParse (message : String)
  | serde
  deriving DecidableEq

def SignalError.transport (message : String) : SignalError := .channel (.transport message)

def SignalError.provider (message : String) : SignalError := .channel (.provider message)

mutual

def collectText : MessageContent → String
  | .text text => text
  | .attachment _ _ caption => caption.getD ""
  | .mixed parts => "\n".intercalate (collectTexts parts)

def collectTexts : List MessageContent → List String
  | [] => []
  | part :: parts =>
    let t := collectText part
    if t = "" then collectTexts parts else t :: collectTexts parts

end

mutual

def pushAttachments : MessageContent → List String → List String
  | .text _, acc => acc
  | .attachment mediaRef _ _, acc => acc ++ [mediaRef]
  | .mixed parts, acc => pushAll parts acc

def pushAll : List MessageContent → List String → List String
  | [], acc => acc
  | part :: parts, acc => pushAll parts (pushAttachments part acc)

end

def collectAttachments (content : MessageContent) : List String := pushAttachments content []

def buildSendRequest (id account : String) (msg : OutboundMessage) : Value :=
  let text := collectText msg.content
  let attachments := collectAttachments msg.content
  let params :=
    [("account", Value.string account)] ++
      (if attachments = [] then [] else [("attachments", Value.array (attachments.map Value.string))]) ++
      (if text = "" then [] else [("message", Value.string text)]) ++
      [("recipient", Value.array [Value.string msg.peer])]
  .object [("id", .string id), ("jsonrpc", .string "2.0"), ("method", .string "send"), ("params", .object params)]

-- `Option<Value>` with `#[serde(default)]`.
def optional : Option Value → Option Value
  | some .null => none
  | field => field

structure JsonRpcError where
  code : Int
  message : String
  data : Option Value

-- A derived reader takes the fields by name from an object, or in their order from an array.
def JsonRpcError.ofParts (code message data : Option Value) : Option JsonRpcError :=
  match code.bind Value.asI64, message.bind Value.asStr with
  | some code, some message => some { code, message, data := optional data }
  | _, _ => none

def JsonRpcError.fromValue : Value → Option JsonRpcError
  | .object fields =>
    ofParts (Value.field fields "code") (Value.field fields "message") (Value.field fields "data")
  | .array items => if 3 < items.length then none else ofParts items[0]? items[1]? items[2]?
  | _ => none

structure JsonRpcResponse where
  id : Option Value
  result : Option Value
  error : Option JsonRpcError

def JsonRpcResponse.ofParts (id result error : Option Value) : Option JsonRpcResponse :=
  match optional error with
  | none => some { id := optional id, result := optional result, error := none }
  | some value =>
    match JsonRpcError.fromValue value with
    | none => none
    | some e => some { id := optional id, result := optional result, error := some e }

def JsonRpcResponse.fromValue : Value → Option JsonRpcResponse
  | .object fields =>
    ofParts (Value.field fields "id") (Value.field fields "result") (Value.field fields "error")
  | .array items => if 3 < items.length then none else ofParts items[0]? items[1]? items[2]?
  | _ => none

def attachmentRef (attachment : Value) : String :=
  (((attachment.get "id").bind Value.asStr).or ((attachment.get "filename").bind Value.asStr)).getD ""

def attachmentMime (attachment : Value) : String :=
  ((attachment.get "contentType").bind Value.asStr).getD "application/octet-stream"

-- `Err` for an envelope without a source, `Ok(None)` for one without a message.
def parseEnvelope (envelope : Value) (defaultChannelId : ChannelId) (now : Int) :
    Except SignalError (Option InboundMessage) :=
  let peer :=
    (((envelope.get "sourceUuid").bind Value.asStr).or ((envelope.get "source").bind Value.asStr)).getD ""
  if peer = "" then .error (.webhookParse "envelope has no source/sourceUuid")
  else
    match optional (envelope.get "dataMessage") with
    | none => .ok none
    | some data =>
      let tsMillis := ((data.get "timestamp").bind Value.asI64).or ((envelope.get "timestamp").bind Value.asI64)
      let text := ((data.get "message").bind Value.asStr).getD ""
      let attachments := ((data.get "attachments").bind Value.asArray).getD []
      let content : Option MessageContent :=
        match attachments with
        | [] => if text = "" then none else some (.text text)
        | [only] =>
          some (.attachment (attachmentRef only) (attachmentMime only) (if text = "" then none else some text))
        | _ =>
          some (.mixed ((if text = "" then [] else [.text text]) ++
            attachments.map fun a => .attachment (attachmentRef a) (attachmentMime a) none))
      match content with
      | none => .ok none
      | some content =>
        .ok (some
          { channelId := defaultChannelId
            threadId := ThreadId.forPeer defaultChannelId peer
            peer
            providerMsgId := toString (tsMillis.getD now)
            content })

end AtomrAgents.Signal
