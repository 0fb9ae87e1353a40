import Busd.Broker.Delivery
import Busd.Protocol.Encode

/-!
# Frames that the daemon builds

The pure part of `busd`: error texts and codes, replies, rejections, and the frame and recipients of every
delivery event. `dispatchEvent` is one round of the loop of `dispatch_delivery_events`, given what the
operating system answers.

A send answers: `Sent` has no case for one that does not return. The sockets block, so a client that does not read can
hold up a thread for ever; such a thread is one that gets no further turn, with the event not yet dispatched.
-/

namespace Busd.Daemon

open Words Busd.Protocol Busd.Broker

/-! ## Error texts -/

def nameErrorText : NameError → String
  | .missingNamespaceScheme => "namespace must start with bus://"
  | .invalid => "name must contain at most 255 visible ASCII characters except / and whitespace"

def hexText (flags : UInt16) : String :=
  let digits := Nat.toDigits 16 flags.toNat
  "0x" ++ String.ofList (List.replicate (4 - digits.length) '0' ++ digits)

def codecErrorText : CodecError → String
  | .truncated => "truncated BUS/1 frame"
  | .invalidMagic => "invalid BUS/1 frame magic"
  | .unsupportedVersion version => "unsupported BUS/1 version " ++ toString version.toNat
  | .unknownFrameKind kind => "unknown BUS/1 frame kind " ++ toString kind.toNat
  | .reservedFlags flags => "reserved BUS/1 flags are set: " ++ hexText flags
  | .lengthMismatch => "BUS/1 body length does not match packet length"
  | .frameTooLarge => "BUS/1 frame exceeds configured size limit"
  | .limitExceeded name => "BUS/1 " ++ name ++ " exceeds configured limit"
  | .invalidValue name => "invalid BUS/1 " ++ name
  | .nonCanonical name => "non-canonical BUS/1 " ++ name
  | .invalidName error => nameErrorText error
  | .invalidUtf8 => "BUS/1 text is not valid UTF-8"

def messageIdText (id : MessageId) : String :=
  "MessageId([" ++ ", ".intercalate (id.asBytes.map fun byte => toString byte.toNat) ++ "])"

def limitText : Limit → String
  | .queuedBytes => "QueuedBytes"
  | .queuedMessages => "QueuedMessages"
  | .inFlightRequests => "InFlightRequests"
  | .subscriptions => "Subscriptions"
  | .namespaceClaims => "NamespaceClaims"

/-- The broker `Error`'s `Display`. -/
def errorText : Broker.Error → String
  | .unknownPeer peer => "unknown peer " ++ peerLabel peer
  | .namespaceAlreadyOwned ns owner =>
    "namespace " ++ ns.asStr ++ " is already owned by " ++ peerLabel owner
  | .dbusNameAlreadyOwned name owner => "D-Bus name " ++ name ++ " is already owned by " ++ peerLabel owner
  | .invalidDbusName name => "invalid D-Bus name " ++ name
  | .denied _ => "operation denied by policy"
  | .peerIdExhausted => "peer identifier space exhausted"
  | .reservedHeader header => "claimed header " ++ header ++ " is reserved for the broker"
  | .noRecipient => "no eligible recipient"
  | .invalidDelivery => "invalid delivery frame"
  | .duplicateMessage id => "message " ++ messageIdText id ++ " is already in flight"
  | .unknownDelivery id => "unknown delivery " ++ messageIdText id
  | .unexpectedAcknowledgement id => "unexpected acknowledgement for " ++ messageIdText id
  | .unexpectedResponse id => "unexpected response for " ++ messageIdText id
  | .deadlineOverflow => "message deadline overflowed broker clock"
  | .limitExceeded limit => "broker limit exceeded: " ++ limitText limit
  | .invalidPriority => "message priority must be an unsigned value from 0 through 7"

/-! ## Replies -/

def brokerErrorCode : Broker.Error → ProtocolErrorCode
  | .noRecipient => .noRecipient
  | .limitExceeded _ => .limitExceeded
  | _ => .invalidState

def codecErrorCode : CodecError → ProtocolErrorCode
  | .unsupportedVersion _ => .unsupportedVersion
  | .unknownFrameKind _ => .unknownFrameKind
  | .frameTooLarge | .limitExceeded _ => .limitExceeded
  | .nonCanonical _ | .reservedFlags _ => .nonCanonical
  | _ => .malformedFrame

/-- The frame of `send_control_result`. -/
def controlReply (operation : ControlOperation) : Except Broker.Error Unit → Frame
  | .ok () => .controlResult operation
  | .error error => .protocolError (brokerErrorCode error) (errorText error)

/-! ## Delivery events -/

/-- A message as it is forwarded: with the header that names its sender. -/
def stamped (sender : PeerId) (m : Message) : Message :=
  { m with headers := m.headers.insert "broker.sender" (.unsigned sender.get) }

/-- The recipients and the frame that `dispatch_delivery_events` makes of an event. -/
def dispatched : DeliveryEvent → List PeerId × Frame
  | .deliver sender recipients (.message m) => (recipients, .message (stamped sender m))
  | .deliver _ recipients frame => (recipients, frame)
  | .result sender messageId outcome => ([sender], .deliveryResult messageId outcome)

/-- Why the daemon gives up: the operating system, an encoding, or the broker. -/
inductive Failure where
  | io
  | codec (error : CodecError)
  | broker (error : Broker.Error)
  deriving DecidableEq

/-- What becomes of a `send_packet`; a closed connection is not a failure of the sender. -/
inductive Sent where
  | delivered
  | closed
  | failed
  deriving DecidableEq

/-- The answers of the operating system while one event is dispatched. -/
structure DispatchIo where
  cloned : PeerId → Bool
  sent : PeerId → Sent

abbrev Connection := Nat

/-- The loop over `outputs`: the packets sent, and whether the loop ran to its end. -/
def sendAll (packet : List UInt8) (sent : PeerId → Sent) :
    List (PeerId × Connection) → List (Connection × List UInt8) × Except Failure Unit
  | [] => ([], .ok ())
  | (id, connection) :: outputs =>
    match sent id with
    | .delivered =>
      let rest := sendAll packet sent outputs
      ((connection, packet) :: rest.1, rest.2)
    | .closed => sendAll packet sent outputs
    | .failed => ([], .error .io)

/-- One round of the loop of `dispatch_delivery_events`. -/
def dispatchEvent (sessions : OrdMap PeerId Connection) (limits : FrameLimits) (event : DeliveryEvent)
    (io : DispatchIo) : List (Connection × List UInt8) × Except Failure Unit :=
  let (recipients, frame) := dispatched event
  match frame.encodeWithLimits limits with
  | .error error => ([], .error (.codec error))
  | .ok packet =>
    let outputs := sessions.entries.filter fun e => recipients.contains e.1
    if outputs.all fun e => io.cloned e.1 then sendAll packet io.sent outputs else ([], .error .io)

/-- `dispatch_delivery_events`: the packets sent for each event in turn, up to the first one that fails. -/
def dispatchDeliveryEvents (sessions : OrdMap PeerId Connection) (limits : FrameLimits) :
    List (DeliveryEvent × DispatchIo) → List (List (Connection × List UInt8)) × Except Failure Unit
  | [] => ([], .ok ())
  | (event, io) :: events =>
    let round := dispatchEvent sessions limits event io
    match round.2 with
    | .ok () =>
      let rest := dispatchDeliveryEvents sessions limits events
      (round.1 :: rest.1, rest.2)
    | .error failure => ([round.1], .error failure)

end Busd.Daemon
