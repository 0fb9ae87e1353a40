import Busd.Protocol.Encode

/-!
# The frame decoder

`Frame::decode_with_limits`, the `Frame::decode_*` functions and the methods of `Reader`. A reader is
the source's own pair of the packet body and a position in it.
-/

namespace Busd.Protocol

open Words Codec

abbrev Decoder := Decode CodecError

/-! ## Tags -/

def decodeMessageKind (value : UInt8) : Except CodecError MessageKind :=
  match value with
  | 0 => .ok .signal
  | 1 => .ok .request
  | 2 => .ok .response
  | _ => .error (.invalidValue "message kind")

def decodeAckPolicy (value : UInt8) : Except CodecError AckPolicy :=
  match value with
  | 0 => .ok .none
  | 1 => .ok .accepted
  | 2 => .ok .received
  | 3 => .ok .processed
  | _ => .error (.invalidValue "acknowledgement policy")

def decodeRequestPolicy (value : UInt8) : Except CodecError RequestPolicy :=
  match value with
  | 0 => .ok .exact
  | 1 => .ok .first
  | 2 => .ok .firstSuccess
  | 3 => .ok .all
  | _ => .error (.invalidValue "request routing policy")

def decodeDeliveryOutcome (value : UInt8) : Except CodecError DeliveryOutcome :=
  match value with
  | 0 => .ok .accepted
  | 1 => .ok .received
  | 2 => .ok .processed
  | 3 => .ok .timeout
  | 4 => .ok .noRecipient
  | 5 => .ok .recipientDisconnected
  | 6 => .ok .deliveryFailed
  | _ => .error (.invalidValue "delivery outcome")

def decodeStatus (value : UInt8) : Except CodecError Status :=
  match value with
  | 0 => .ok .success
  | 1 => .ok .error
  | 2 => .ok .unsupported
  | 3 => .ok .denied
  | 4 => .ok .busy
  | 5 => .ok .notFound
  | _ => .error (.invalidValue "status")

def decodeProtocolErrorCode (value : UInt8) : Except CodecError ProtocolErrorCode :=
  match value with
  | 0 => .ok .malformedFrame
  | 1 => .ok .unsupportedVersion
  | 2 => .ok .unknownFrameKind
  | 3 => .ok .limitExceeded
  | 4 => .ok .nonCanonical
  | 5 => .ok .invalidState
  | 6 => .ok .noRecipient
  | _ => .error (.invalidValue "protocol error code")

def decodeClientSelection (value : UInt8) : Except CodecError ClientSelection :=
  match value with
  | 0 => .ok .first
  | 1 => .ok .any
  | 2 => .ok .all
  | _ => .error (.invalidValue "client selection")

def decodeControlOperation (value : UInt8) : Except CodecError ControlOperation :=
  match value with
  | 0 => .ok .claim
  | 1 => .ok .subscribe
  | 2 => .ok .unsubscribe
  | _ => .error (.invalidValue "control operation")

/-! ## `Reader` -/

namespace Reader

/-- The next `length` bytes. The position and a length stay below `usize::MAX`, so the source's
`checked_add` does not fail. -/
def take (length : Nat) : Decoder (List UInt8) := fun reader =>
  if h : reader.position + length ≤ reader.bytes.length then
    .ok ((reader.bytes.drop reader.position).take length, ⟨reader.bytes, reader.position + length, h⟩)
  else .error .truncated

def u8 : Decoder UInt8 := return (← take 1).headD 0

/-- `decode(reader.u8()?)?` for one of the tag functions above. -/
def tag {α : Type} (decode : UInt8 → Except CodecError α) : Decoder α := do
  let value ← u8
  liftM (decode value)

def u16 : Decoder UInt16 := return UInt16.ofNat (beNat (← take 2))

def u32 : Decoder UInt32 := return UInt32.ofNat (beNat (← take 4))

def u64 : Decoder UInt64 := return UInt64.ofNat (beNat (← take 8))

/-- Sixteen bytes as an identifier; `take 16` returns no other length. -/
def toMessageId (bytes : List UInt8) : Except CodecError MessageId :=
  if h : bytes.length = 16 then .ok ⟨bytes, h⟩ else .error .truncated

def messageId : Decoder MessageId := do
  let bytes ← take 16
  liftM (toMessageId bytes)

def fromUtf8 (bytes : List UInt8) : Except CodecError String :=
  match ofUtf8? bytes with
  | some value => .ok value
  | none => .error .invalidUtf8

def text : Decoder String := do
  let length ← u16
  let bytes ← take length.toNat
  liftM (fromUtf8 bytes)

def name : Decoder String := do
  let value ← text
  liftM ((validateName value).mapError CodecError.invalidName)
  return value

def «namespace» : Decoder Namespace := do
  let value ← text
  liftM ((Namespace.parse value).mapError CodecError.invalidName)

def channel : Decoder Channel := do
  let value ← name
  liftM ((Channel.parse value).mapError CodecError.invalidName)

def clientId : Decoder ClientId := do
  let value ← name
  liftM ((ClientId.parse value).mapError CodecError.invalidName)

def binary : Decoder (List UInt8) := do
  let length ← u32
  take length.toNat

def boolean : Decoder Bool := do
  match ← u8 with
  | 0 => return false
  | 1 => return true
  | _ => throw (.invalidValue "boolean")

def value : Decoder HeaderValue := do
  match ← u8 with
  | 0 => return .text (← text)
  | 1 => return .unsigned (← u64)
  | 2 => return .boolean (← boolean)
  | 3 => return .binary (← binary)
  | _ => throw (.invalidValue "header value tag")

/-- The body of the loop over a block of named entries: the entries so far and the previous name. -/
def entriesStep {α : Type} (value : Decoder α) (blockName : String)
    (state : OrdMap String α × Option String) : Decoder (OrdMap String α × Option String) := do
  let name ← name
  liftM (ensure (¬ state.2.any (name ≤ ·)) (CodecError.nonCanonical blockName))
  let value ← value
  return (state.1.insert name value, some name)

/-- `headers` and `capabilities` differ in what follows a name and in their limit. -/
def entries {α : Type} (value : Decoder α) (maximum : Nat) (countName blockName : String) :
    Decoder (OrdMap String α) := do
  let count ← u16
  liftM (ensure (count.toNat ≤ maximum) (CodecError.limitExceeded countName))
  let state ← loop (entriesStep value blockName) count.toNat (∅, none)
  return state.1

def headers (limits : FrameLimits) : Decoder Headers :=
  entries value limits.maximumHeaders "header count" "headers"

def capabilities (limits : FrameLimits) : Decoder Capabilities :=
  entries (pure ()) limits.maximumCapabilities "capability count" "capabilities"

def filter : Decoder HeaderFilter := do
  let tag ← u8
  let name ← name
  match tag with
  | 0 => return .doesExist name
  | 1 => return .doesNotExist name
  | 2 => return .equal name (← value)
  | 3 => return .notEqual name (← value)
  | 4 => return .hasPrefix name (← value)
  | _ => throw (.invalidValue "filter tag")

/-- The body of the loop of `filters`: the filters so far and the encoding of the previous one. -/
def filtersStep (state : List HeaderFilter × Option (List UInt8)) :
    Decoder (List HeaderFilter × Option (List UInt8)) := do
  let start ← get
  let filter ← filter
  let reader ← get
  -- `&self.bytes[start..self.position]`
  let encoded := (reader.bytes.drop start.position).take (reader.position - start.position)
  liftM (ensure (¬ state.2.any (encoded ≤ ·)) (CodecError.nonCanonical "filters"))
  return (state.1 ++ [filter], some encoded)

def filters (limits : FrameLimits) : Decoder (List HeaderFilter) := do
  let count ← u16
  liftM (ensure (count.toNat ≤ limits.maximumFilters) (CodecError.limitExceeded "filter count"))
  let state ← loop filtersStep count.toNat ([], none)
  return state.1

def ackRequirement : Decoder AckRequirement := do
  match ← u8 with
  | 0 => return .none
  | 1 => return .any
  | 2 => return .all
  | 3 =>
    let minimum ← u16
    liftM (ensure (minimum ≠ 0) (CodecError.invalidValue "acknowledgement minimum"))
    return .minimum minimum
  | _ => throw (.invalidValue "acknowledgement requirement")

def retryPolicy : Decoder RetryPolicy := do
  match ← u8 with
  | 0 => return .none
  | 1 =>
    let initialBackoffMs ← u32
    let maxAttempts ← u8
    liftM (ensure (¬ (initialBackoffMs = 0 ∨ maxAttempts < 2))
      (CodecError.invalidValue "retry policy"))
    return .exponential initialBackoffMs maxAttempts
  | _ => throw (.invalidValue "retry policy")

/-- A peer identity, which is never zero on the wire. -/
def peerId : Decoder PeerId := do
  let peer ← u64
  liftM (ensure (peer ≠ 0) (CodecError.invalidValue "peer ID"))
  return .new peer

def destination : Decoder Destination := do
  match ← u8 with
  | 0 => return .broker
  | 1 => return .peer (← peerId)
  | 2 => return .«namespace» (← «namespace»)
  | 3 => return .channel (← channel)
  | 4 => return .broadcast
  | 5 =>
    let client ← clientId
    let selection ← tag decodeClientSelection
    return .clientId client selection
  | _ => throw (.invalidValue "destination selector")

end Reader

/-! ## Frames -/

open Reader (u8 u32)

def decodeClientId : Decoder (Option ClientId) := do
  match ← u8 with
  | 0 => return none
  | 1 => return some (← Reader.clientId)
  | _ => throw (.invalidValue "HELLO client ID marker")

def decodeHello (limits : FrameLimits) : Decoder Frame := do
  let clientId ← decodeClientId
  let headers ← Reader.headers limits
  let capabilities ← Reader.capabilities limits
  return .hello clientId headers capabilities

def decodeWelcome (limits : FrameLimits) : Decoder Frame := do
  let peerId ← Reader.peerId
  let capabilities ← Reader.capabilities limits
  return .welcome peerId capabilities

def decodeClaim (limits : FrameLimits) : Decoder Frame := do
  let ns ← Reader.namespace
  let headers ← Reader.headers limits
  return .claim ns headers

def decodeSubscribe (limits : FrameLimits) : Decoder Frame := do
  let channel ← Reader.channel
  let filters ← Reader.filters limits
  return .subscribe channel filters

def decodeUnsubscribe : Decoder Frame := do
  let channel ← Reader.channel
  return .unsubscribe channel

def decodeMessageFields (limits : FrameLimits) : Decoder Message := do
  let kind ← Reader.tag decodeMessageKind
  let ackPolicy ← Reader.tag decodeAckPolicy
  let ackRequirement ← Reader.ackRequirement
  let requestPolicy ← Reader.tag decodeRequestPolicy
  let deadlineMs ← u32
  let retry ← Reader.retryPolicy
  let destination ← Reader.destination
  let messageId ← Reader.messageId
  let correlationId ← Reader.messageId
  let status ← Reader.tag decodeStatus
  liftM (validateDeliveryOptions kind ackPolicy ackRequirement requestPolicy deadlineMs retry)
  liftM (validateMessageIdentity kind messageId correlationId status)
  let headers ← Reader.headers limits
  let payload ← Reader.binary
  return {
    kind, ackPolicy, ackRequirement, requestPolicy, deadlineMs, retry, destination, messageId,
    correlationId, status, headers, payload }

def decodeMessage (limits : FrameLimits) : Decoder Frame := do
  let fields ← decodeMessageFields limits
  return .message fields

def decodeAcknowledge : Decoder Frame := do
  let messageId ← Reader.messageId
  let policy ← Reader.tag decodeAckPolicy
  liftM (ensure (¬ (messageId.isAbsent || !policy.byRecipient))
    (CodecError.invalidValue "acknowledgement"))
  return .acknowledge messageId policy

def decodeDeliveryResult : Decoder Frame := do
  let messageId ← Reader.messageId
  liftM (ensure (¬ messageId.isAbsent) (CodecError.invalidValue "message ID"))
  let outcome ← Reader.tag decodeDeliveryOutcome
  return .deliveryResult messageId outcome

def decodeProtocolError : Decoder Frame := do
  let code ← Reader.tag decodeProtocolErrorCode
  let text ← Reader.text
  return .protocolError code text

def decodeControlResult : Decoder Frame := do
  let operation ← Reader.tag decodeControlOperation
  return .controlResult operation

def decodeResolveNamespace : Decoder Frame := do
  let ns ← Reader.namespace
  return .resolveNamespace ns

def decodeOwner : Decoder (Option PeerId) := do
  match ← u8 with
  | 0 => return none
  | 1 => return some (← Reader.peerId)
  | _ => throw (.invalidValue "namespace owner marker")

def decodeNamespaceResolved : Decoder Frame := do
  let ns ← Reader.namespace
  let owner ← decodeOwner
  return .namespaceResolved ns owner

def decodeBody (limits : FrameLimits) (kind : UInt8) : Decoder Frame :=
  match kind with
  | 1 => decodeHello limits
  | 2 => decodeWelcome limits
  | 3 => decodeClaim limits
  | 4 => decodeSubscribe limits
  | 5 => decodeUnsubscribe
  | 6 => decodeMessage limits
  | 7 => decodeProtocolError
  | 8 => decodeControlResult
  | 9 => decodeResolveNamespace
  | 10 => decodeNamespaceResolved
  | 11 => decodeAcknowledge
  | 12 => decodeDeliveryResult
  | kind => throw (.unknownFrameKind kind)

/-- `Frame::decode_with_limits`; a packet shorter than the common header matches the last case. -/
def Frame.decodeWithLimits (packet : List UInt8) (limits : FrameLimits) : Except CodecError Frame :=
  match packet with
  | m₀ :: m₁ :: m₂ :: m₃ :: packetVersion :: kind :: f₀ :: f₁ :: l₀ :: l₁ :: l₂ :: l₃ :: body => do
    ensure ([m₀, m₁, m₂, m₃] = magic) CodecError.invalidMagic
    ensure (packetVersion = version) (CodecError.unsupportedVersion packetVersion)
    let flags := UInt16.ofNat (beNat [f₀, f₁])
    ensure (flags = 0) (CodecError.reservedFlags flags)
    let length := beNat [l₀, l₁, l₂, l₃]
    let expected := headerSize + length
    ensure (expected = packet.length) CodecError.lengthMismatch
    ensure (expected ≤ limits.maximumFrameSize) CodecError.frameTooLarge
    let (frame, reader) ← (decodeBody limits kind).run (.new body)
    ensure (reader.position = reader.bytes.length) (CodecError.nonCanonical "trailing frame body")
    return frame
  | _ => throw .truncated

def Frame.decode (packet : List UInt8) : Except CodecError Frame :=
  Frame.decodeWithLimits packet FrameLimits.default

end Busd.Protocol
