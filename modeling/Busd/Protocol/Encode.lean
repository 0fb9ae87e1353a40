import Busd.Lib.Codec
import Busd.Protocol.Types

/-!
# The frame encoder

`Frame::encode_with_limits` and the `push_*` functions below it. The output vector the source passes
along is only ever appended to, so it is the output of the writer `Encode`.
-/

namespace Busd.Protocol

open Words Codec

abbrev Encoder := Encode CodecError

def magic : List UInt8 := [66, 85, 83, 49]

def version : UInt8 := 3

def headerSize : Nat := 12

/-! ## Tags -/

def messageKindTag : MessageKind → UInt8
  | .signal => 0
  | .request => 1
  | .response => 2

def ackPolicyTag : AckPolicy → UInt8
  | .none => 0
  | .accepted => 1
  | .received => 2
  | .processed => 3

def requestPolicyTag : RequestPolicy → UInt8
  | .exact => 0
  | .first => 1
  | .firstSuccess => 2
  | .all => 3

def deliveryOutcomeTag : DeliveryOutcome → UInt8
  | .accepted => 0
  | .received => 1
  | .processed => 2
  | .timeout => 3
  | .noRecipient => 4
  | .recipientDisconnected => 5
  | .deliveryFailed => 6

def statusTag : Status → UInt8
  | .success => 0
  | .error => 1
  | .unsupported => 2
  | .denied => 3
  | .busy => 4
  | .notFound => 5

def protocolErrorCodeTag : ProtocolErrorCode → UInt8
  | .malformedFrame => 0
  | .unsupportedVersion => 1
  | .unknownFrameKind => 2
  | .limitExceeded => 3
  | .nonCanonical => 4
  | .invalidState => 5
  | .noRecipient => 6

def clientSelectionTag : ClientSelection → UInt8
  | .first => 0
  | .any => 1
  | .all => 2

def controlOperationTag : ControlOperation → UInt8
  | .claim => 0
  | .subscribe => 1
  | .unsubscribe => 2

/-! ## Validation shared with the decoder -/

def validateDeliveryOptions (kind : MessageKind) (ackPolicy : AckPolicy)
    (ackRequirement : AckRequirement) (requestPolicy : RequestPolicy) (deadlineMs : UInt32)
    (retry : RetryPolicy) : Except CodecError Unit :=
  if !ackPolicy.byRecipient ∧ ackRequirement ≠ .none then
    .error (.nonCanonical "acknowledgement requirement")
  else if ackPolicy.byRecipient ∧ ackRequirement = .none then
    .error (.invalidValue "acknowledgement requirement")
  else if ackPolicy.byRecipient ∧ deadlineMs = 0 then
    .error (.invalidValue "acknowledgement deadline")
  else if retry ≠ .none ∧ kind ≠ .request ∧ !ackPolicy.byRecipient then
    .error (.invalidValue "retry acknowledgement policy")
  else if kind ≠ .request ∧ requestPolicy ≠ .exact then
    .error (.nonCanonical "non-request routing policy")
  else if kind = .request ∧ deadlineMs = 0 then
    .error (.invalidValue "request deadline")
  else if kind = .response ∧ (deadlineMs ≠ 0 ∨ retry ≠ .none) then
    .error (.nonCanonical "response delivery options")
  else .ok ()

def validateMessageIdentity (kind : MessageKind) (messageId correlationId : MessageId)
    (status : Status) : Except CodecError Unit :=
  if messageId.isAbsent then .error (.invalidValue "message ID")
  else
    match kind with
    | .response =>
      if correlationId.isAbsent then .error (.invalidValue "response correlation ID") else .ok ()
    | _ =>
      if !correlationId.isAbsent then .error (.nonCanonical "non-response correlation ID")
      else if status ≠ .success then .error (.invalidValue "non-response status")
      else .ok ()

/-! ## Fields -/

def push (byte : UInt8) : Encoder Unit := tell [byte]

def pushU16 (value : UInt16) : Encoder Unit := tell (beBytes 2 value.toNat)

def pushU32 (value : UInt32) : Encoder Unit := tell (beBytes 4 value.toNat)

def pushU64 (value : UInt64) : Encoder Unit := tell (beBytes 8 value.toNat)

/-- `u16::try_from` of a length, with the error that names what is too long. -/
def tryU16 (length : Nat) (name : String) : Except CodecError UInt16 :=
  if length < 2 ^ 16 then .ok (UInt16.ofNat length) else .error (.limitExceeded name)

def tryU32 (length : Nat) (name : String) : Except CodecError UInt32 :=
  if length < 2 ^ 32 then .ok (UInt32.ofNat length) else .error (.limitExceeded name)

def pushText (value : String) : Encoder Unit := do
  let length ← tryU16 (utf8Bytes value).length "text length"
  pushU16 length
  tell (utf8Bytes value)

def pushName (value : String) : Encoder Unit := do
  liftM ((validateName value).mapError CodecError.invalidName)
  pushText value

def pushNamespace (value : Namespace) : Encoder Unit := pushText value.asStr

def pushBinary (value : List UInt8) : Encoder Unit := do
  let length ← tryU32 value.length "binary length"
  pushU32 length
  tell value

def pushAckRequirement : AckRequirement → Encoder Unit
  | .none => push 0
  | .any => push 1
  | .all => push 2
  | .minimum minimum => do
    liftM (ensure (minimum ≠ 0) (CodecError.invalidValue "acknowledgement minimum"))
    push 3
    pushU16 minimum

def pushRetryPolicy : RetryPolicy → Encoder Unit
  | .none => push 0
  | .exponential initialBackoffMs maxAttempts => do
    liftM (ensure (initialBackoffMs ≠ 0 ∧ 2 ≤ maxAttempts) (CodecError.invalidValue "retry policy"))
    push 1
    pushU32 initialBackoffMs
    push maxAttempts

def pushValue : HeaderValue → Encoder Unit
  | .text value => do
    push 0
    pushText value
  | .unsigned value => do
    push 1
    pushU64 value
  | .boolean value => do
    push 2
    push (if value then 1 else 0)
  | .binary value => do
    push 3
    pushBinary value

/-- A block of named entries in key order; `push_headers` and `push_capabilities` differ in what
follows a name and in their limit. -/
def pushEntries {α : Type} (pushValue : α → Encoder Unit) (maximum : Nat) (countName : String)
    (entries : OrdMap String α) : Encoder Unit := do
  liftM (ensure (entries.size ≤ maximum) (CodecError.limitExceeded countName))
  let count ← tryU16 entries.size countName
  pushU16 count
  entries.entries.forM fun entry => do
    pushName entry.1
    pushValue entry.2

def pushHeaders (headers : Headers) (limits : FrameLimits) : Encoder Unit :=
  pushEntries pushValue limits.maximumHeaders "header count" headers

def pushCapabilities (capabilities : Capabilities) (limits : FrameLimits) : Encoder Unit :=
  pushEntries (fun _ => pure ()) limits.maximumCapabilities "capability count" capabilities

/-- The encoding of one filter, written by the source into a vector of its own. -/
def pushFilter : HeaderFilter → Encoder Unit
  | .doesExist name => do
    push 0
    pushName name
  | .doesNotExist name => do
    push 1
    pushName name
  | .equal name header => do
    push 2
    pushName name
    pushValue header
  | .notEqual name header => do
    push 3
    pushName name
    pushValue header
  | .hasPrefix name header => do
    push 4
    pushName name
    pushValue header

/-- The bytes a writer emits into an empty vector. -/
def written (w : Encoder Unit) : Except CodecError (List UInt8) := w.run.map Prod.snd

def pushFilters (filters : List HeaderFilter) (limits : FrameLimits) : Encoder Unit := do
  liftM (ensure (filters.length ≤ limits.maximumFilters) (CodecError.limitExceeded "filter count"))
  let encoded ← liftM (filters.mapM fun filter => written (pushFilter filter))
  -- `encoded.windows(2).any(|pair| pair[0] >= pair[1])`
  liftM (ensure (¬ (encoded.zip encoded.tail).any fun pair => pair.2 ≤ pair.1)
    (CodecError.nonCanonical "filters"))
  let count ← tryU16 encoded.length "filter count"
  pushU16 count
  encoded.forM tell

def pushDestination : Destination → Encoder Unit
  | .broker => push 0
  | .peer peer => do
    liftM (ensure (peer.get ≠ 0) (CodecError.invalidValue "peer ID"))
    push 1
    pushU64 peer.get
  | .«namespace» ns => do
    push 2
    pushNamespace ns
  | .channel channel => do
    push 3
    pushName channel.asStr
  | .broadcast => push 4
  | .clientId clientId selection => do
    push 5
    pushName clientId.asStr
    push (clientSelectionTag selection)

/-! ## Frames -/

def pushMessage (m : Message) (limits : FrameLimits) : Encoder Unit := do
  liftM (validateDeliveryOptions m.kind m.ackPolicy m.ackRequirement m.requestPolicy m.deadlineMs
    m.retry)
  liftM (validateMessageIdentity m.kind m.messageId m.correlationId m.status)
  push (messageKindTag m.kind)
  push (ackPolicyTag m.ackPolicy)
  pushAckRequirement m.ackRequirement
  push (requestPolicyTag m.requestPolicy)
  pushU32 m.deadlineMs
  pushRetryPolicy m.retry
  pushDestination m.destination
  tell m.messageId.asBytes
  tell m.correlationId.asBytes
  push (statusTag m.status)
  pushHeaders m.headers limits
  pushBinary m.payload

def pushClientId : Option ClientId → Encoder Unit
  | some id => do
    push 1
    pushName id.asStr
  | none => push 0

/-- A peer identity; zero is not written. -/
def pushPeerId (peerId : PeerId) : Encoder Unit := do
  liftM (ensure (peerId.get ≠ 0) (CodecError.invalidValue "peer ID"))
  pushU64 peerId.get

def pushOwner : Option PeerId → Encoder Unit
  | some peerId => do
    liftM (ensure (peerId.get ≠ 0) (CodecError.invalidValue "peer ID"))
    push 1
    pushU64 peerId.get
  | none => push 0

/-- The frame kind `encode_body` returns beside the body. -/
def Frame.kind : Frame → UInt8
  | .hello .. => 1
  | .welcome .. => 2
  | .claim .. => 3
  | .subscribe .. => 4
  | .unsubscribe .. => 5
  | .message .. => 6
  | .protocolError .. => 7
  | .controlResult .. => 8
  | .resolveNamespace .. => 9
  | .namespaceResolved .. => 10
  | .acknowledge .. => 11
  | .deliveryResult .. => 12

def Frame.encodeBody (limits : FrameLimits) : Frame → Encoder Unit
  | .hello clientId headers capabilities => do
    pushClientId clientId
    pushHeaders headers limits
    pushCapabilities capabilities limits
  | .welcome peerId capabilities => do
    pushPeerId peerId
    pushCapabilities capabilities limits
  | .claim ns headers => do
    pushNamespace ns
    pushHeaders headers limits
  | .subscribe channel filters => do
    pushName channel.asStr
    pushFilters filters limits
  | .unsubscribe channel => pushName channel.asStr
  | .message m => pushMessage m limits
  | .acknowledge messageId policy => do
    liftM (ensure (¬ (messageId.isAbsent || !policy.byRecipient))
      (CodecError.invalidValue "acknowledgement"))
    tell messageId.asBytes
    push (ackPolicyTag policy)
  | .deliveryResult messageId outcome => do
    liftM (ensure (¬ messageId.isAbsent) (CodecError.invalidValue "message ID"))
    tell messageId.asBytes
    push (deliveryOutcomeTag outcome)
  | .protocolError code text => do
    push (protocolErrorCodeTag code)
    pushText text
  | .controlResult operation => push (controlOperationTag operation)
  | .resolveNamespace ns => pushNamespace ns
  | .namespaceResolved ns owner => do
    pushNamespace ns
    pushOwner owner

/-- `Frame::encode_with_limits`. The sum of the sizes stays below `usize::MAX`, as a vector is never
longer than `isize::MAX`. -/
def Frame.encodeWithLimits (frame : Frame) (limits : FrameLimits) : Except CodecError (List UInt8) := do
  let body ← written (frame.encodeBody limits)
  let total := headerSize + body.length
  ensure (¬ (total > limits.maximumFrameSize ∨ body.length > 2 ^ 32 - 1)) CodecError.frameTooLarge
  return magic ++ [version, frame.kind] ++ beBytes 2 0 ++ beBytes 4 body.length ++ body

def Frame.encode (frame : Frame) : Except CodecError (List UInt8) :=
  frame.encodeWithLimits FrameLimits.default

end Busd.Protocol
