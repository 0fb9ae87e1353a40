import Busd.Policy.Types
import Mathlib.Data.List.Sort

/-!
# Broker state and the pure functions over it

The types of `bus-broker` and the functions of it that change no state. A `u64` is a `UInt64`; a
`usize` count is a `Nat`; a `Vec` or `VecDeque` is a `List`. An operation of the broker maps a state to
the next state and a result, so that what an operation wrote before it failed stays visible.
-/

namespace Busd.Broker

open Words Busd.Protocol Busd.Policy

/-! ## Records -/

structure ClientHello where
  clientId : Option ClientId
  headers : Headers
  capabilities : Capabilities
  deriving DecidableEq

structure Peer where
  id : PeerId
  credentials : Credentials
  hello : ClientHello
  capabilities : Capabilities
  deriving DecidableEq

structure ConnectedPeer where
  id : PeerId
  capabilities : Capabilities
  deriving DecidableEq

inductive MonitorKind where
  | connected | disconnected | namespaceClaimed | subscribed | delivered | acknowledged | timedOut
  | retried | droppedSignal
  deriving DecidableEq

structure MonitorEvent where
  sequence : UInt64
  kind : MonitorKind
  peer : PeerId
  target : Option String
  messageId : Option MessageId
  payloadBytes : Nat
  deriving DecidableEq

/-- Broker counters; all of them saturate. -/
structure Metrics where
  messagesRouted : UInt64
  bytesRouted : UInt64
  timeouts : UInt64
  retries : UInt64
  droppedSignals : UInt64
  deriving DecidableEq

def Metrics.default : Metrics := ⟨0, 0, 0, 0, 0⟩

structure MetricsSnapshot where
  connectedPeers : Nat
  namespaces : Nat
  subscriptions : Nat
  totals : Metrics
  deriving DecidableEq

structure Limits where
  maximumQueuedBytes : Nat
  maximumQueuedMessages : Nat
  maximumInFlightRequests : Nat
  maximumSubscriptions : Nat
  maximumNamespaceClaims : Nat
  deriving DecidableEq

def Limits.default : Limits where
  maximumQueuedBytes := 4 * 1024 * 1024
  maximumQueuedMessages := 1024
  maximumInFlightRequests := 128
  maximumSubscriptions := 256
  maximumNamespaceClaims := 64

inductive Limit where
  | queuedBytes | queuedMessages | inFlightRequests | subscriptions | namespaceClaims
  deriving DecidableEq

/-- Reliability state of one logical message. -/
structure PendingDelivery where
  sender : PeerId
  message : Frame
  recipients : OrdSet PeerId
  acknowledgements : OrdSet PeerId
  responses : OrdMap PeerId Frame
  acknowledgementComplete : Bool
  deadlineMs : UInt64
  attempts : UInt8
  nextRetryMs : Option UInt64
  priority : UInt8
  deriving DecidableEq

/-- Work the daemon must perform after a broker reliability transition. -/
inductive DeliveryEvent where
  | deliver (sender : PeerId) (recipients : List PeerId) (message : Frame)
  | result (sender : PeerId) (messageId : MessageId) (outcome : DeliveryOutcome)
  deriving DecidableEq

inductive LifecycleEvent where
  | peerConnected (peer : PeerId)
  | peerDisconnected (peer : PeerId)
  | namespaceOwnerChanged (ns : Namespace) (previous current : Option PeerId)
  deriving DecidableEq

inductive Error where
  | unknownPeer (peer : PeerId)
  | namespaceAlreadyOwned (ns : Namespace) (owner : PeerId)
  | dbusNameAlreadyOwned (name : String) (owner : PeerId)
  | invalidDbusName (name : String)
  | denied (action : Action)
  | peerIdExhausted
  | reservedHeader (name : String)
  | noRecipient
  | invalidDelivery
  | duplicateMessage (messageId : MessageId)
  | unknownDelivery (messageId : MessageId)
  | unexpectedAcknowledgement (messageId : MessageId)
  | unexpectedResponse (messageId : MessageId)
  | deadlineOverflow
  | limitExceeded (limit : Limit)
  | invalidPriority
  deriving DecidableEq

end Busd.Broker

open Busd.Protocol Busd.Broker in
structure Busd.Broker (P : Type) where
  policy : P
  limits : Limits
  capabilities : Capabilities
  nextPeer : UInt64
  peers : OrdMap PeerId Peer
  namespaces : OrdMap Namespace PeerId
  dbusNames : OrdMap String PeerId
  subscriptions : OrdMap Channel (OrdMap PeerId (List HeaderFilter))
  deliveries : OrdMap MessageId PendingDelivery
  events : List LifecycleEvent
  metrics : Metrics
  monitorEvents : List MonitorEvent
  nextMonitorSequence : UInt64
  deriving DecidableEq

namespace Busd.Broker

open Words Busd.Protocol Busd.Policy

/-- The state after an operation, and what the operation returned. -/
abbrev Outcome (P α : Type) := Broker P × Except Error α

variable {P α β : Type}

/-- The empty broker; the three constructors of the source differ in what they fill in by default. -/
def empty (policy : P) (limits : Limits) (capabilities : Capabilities) : Broker P where
  policy := policy
  limits := limits
  capabilities := capabilities
  nextPeer := 1
  peers := ∅
  namespaces := ∅
  dbusNames := ∅
  subscriptions := ∅
  deliveries := ∅
  events := []
  metrics := .default
  monitorEvents := []
  nextMonitorSequence := 1

def withLimits (policy : P) (limits : Limits) : Broker P := .empty policy limits ∅

def new (policy : P) : Broker P := .withLimits policy .default

def withCapabilities (policy : P) (capabilities : Capabilities) : Broker P :=
  .empty policy .default capabilities

/-- `x?` : an error is returned with the state as it stands. -/
def orReturn (broker : Broker P) (x : Except Error α) (next : α → Outcome P β) : Outcome P β :=
  match x with
  | .error error => (broker, .error error)
  | .ok a => next a

/-! ## Headers and names -/

def isReserved (name : String) : Bool :=
  startsWith name "broker." || startsWith name "peer." || startsWith name "auth."

/-- `validate_message_headers`: the first reserved name in key order is reported. -/
def validateMessageHeaders (headers : Headers) : Except Error Unit :=
  match headers.keys.find? isReserved with
  | some name => .error (.reservedHeader name)
  | none => .ok ()

/-- `validate_claimed_headers`, which tests the same three names in another order. -/
def validateClaimedHeaders (headers : Headers) : Except Error Unit :=
  match headers.keys.find? fun name =>
      startsWith name "auth." || startsWith name "broker." || startsWith name "peer." with
  | some name => .error (.reservedHeader name)
  | none => .ok ()

def messagePriority (headers : Headers) : Except Error UInt8 :=
  match headers.get? "priority" with
  | none => .ok 0
  | some (.unsigned priority) => if priority ≤ 7 then .ok priority.toUInt8 else .error .invalidPriority
  | some _ => .error .invalidPriority

/-- One clause of `filters_match`. -/
def filterMatches (headers : Headers) : HeaderFilter → Bool
  | .doesExist name => headers.contains name
  | .doesNotExist name => !headers.contains name
  | .equal name value => headers.get? name = some value
  | .notEqual name value => headers.get? name ≠ some value
  | .hasPrefix name value =>
    match headers.get? name, value with
    | some (.text actual), .text start => startsWith actual start
    | some (.binary actual), .binary start => start.isPrefixOf actual
    | _, _ => false

def filtersMatch (filters : List HeaderFilter) (headers : Headers) : Bool :=
  filters.all (filterMatches headers)

def isAsciiAlphabetic (byte : UInt8) : Bool := (65 ≤ byte && byte ≤ 90) || (97 ≤ byte && byte ≤ 122)

def isAsciiAlphanumeric (byte : UInt8) : Bool := isAsciiAlphabetic byte || (48 ≤ byte && byte ≤ 57)

def isDbusComponent : List UInt8 → Bool
  | [] => false
  | first :: rest =>
    (isAsciiAlphabetic first || first == 95) && rest.all fun byte => isAsciiAlphanumeric byte || byte == 95

/-- `validate_dbus_name`: components separated by `.`, at most 255 bytes together. -/
def validateDbusName (name : String) : Bool :=
  let bytes := utf8Bytes name
  !bytes.isEmpty && bytes.length ≤ 255 && (bytes.splitOn 46).all isDbusComponent

/-! ## Reliability rules -/

def requirementPossible (requirement : AckRequirement) (recipients : Nat) : Bool :=
  match requirement with
  | .none => true
  | .any | .all => recipients ≠ 0
  | .minimum minimum => minimum.toNat ≤ recipients

def requirementMet (requirement : AckRequirement) (acknowledgements recipients : Nat) : Bool :=
  match requirement with
  | .none => true
  | .any => acknowledgements ≠ 0
  | .all => acknowledgements = recipients
  | .minimum minimum => minimum.toNat ≤ acknowledgements

def acknowledgementSatisfies : AckPolicy → AckPolicy → Bool
  | .received, .received | .received, .processed | .processed, .processed => true
  | _, _ => false

def retryNext (retry : RetryPolicy) (nowMs : UInt64) (attempts : UInt8) : Option UInt64 :=
  match retry with
  | .none => none
  | .exponential initialBackoffMs maxAttempts =>
    if maxAttempts ≤ attempts then some nowMs
    else
      let shift := min (attempts.toNat - 1) 16
      let delay := min (saturatingMul initialBackoffMs.toUInt64 (UInt64.ofNat (2 ^ shift))) 60000
      some (saturatingAdd nowMs delay)

def headerValueBytes : HeaderValue → Nat
  | .text value => (utf8Bytes value).length
  | .unsigned _ => 8
  | .boolean _ => 1
  | .binary value => value.length

/-- Retained bytes of a message: its payload, header names and header values. -/
def deliveryBytes : Frame → Nat
  | .message m =>
    m.payload.length +
      (m.headers.entries.map fun e => (utf8Bytes e.1).length + headerValueBytes e.2).sum
  | _ => 0

def payloadBytes : Frame → Nat
  | .message m => m.payload.length
  | _ => 0

/-- `PeerId`'s `Display`. -/
def peerLabel (peer : PeerId) : String := ":" ++ toString peer.get.toNat

def destinationLabel : Destination → String
  | .broker => "broker"
  | .peer peer => peerLabel peer
  | .namespace ns => ns.asStr
  | .channel channel => channel.asStr
  | .broadcast => "broadcast"
  | .clientId clientId selection =>
    clientId.asStr ++ ":" ++
      match selection with
      | .first => "First"
      | .any => "Any"
      | .all => "All"

def frameRetry : Frame → RetryPolicy
  | .message m => m.retry
  | _ => .none

/-- `matches!(frame, Frame::Message { kind: MessageKind::Request, .. })`. -/
def isRequest : Frame → Bool
  | .message m => m.kind = .request
  | _ => false

/-! ## Queries and the monitor -/

variable [Policy P]

def maxMonitorEvents : Nat := 1024

/-- Appends a record; the oldest one makes room. -/
def recordMonitor (broker : Broker P) (kind : MonitorKind) (peer : PeerId) (target : Option String)
    (messageId : Option MessageId) (payloadBytes : Nat) : Broker P :=
  let kept :=
    if broker.monitorEvents.length = maxMonitorEvents then broker.monitorEvents.tail
    else broker.monitorEvents
  { broker with
    monitorEvents := kept ++
      [{ sequence := broker.nextMonitorSequence, kind, peer, target, messageId, payloadBytes }]
    nextMonitorSequence := saturatingAdd broker.nextMonitorSequence 1 }

def credentials (broker : Broker P) (peer : PeerId) : Except Error Credentials :=
  match broker.peers.get? peer with
  | some found => .ok found.credentials
  | none => .error (.unknownPeer peer)

def authorizeHello (broker : Broker P) (credentials : Credentials) (hello : ClientHello)
    (action : Action) : Except Error Unit :=
  if Policy.permits broker.policy ⟨credentials, hello.clientId, hello.headers, action⟩ then .ok ()
  else .error (.denied action)

def authorize (broker : Broker P) (peer : PeerId) (action : Action) : Except Error Unit :=
  match broker.peers.get? peer with
  | none => .error (.unknownPeer peer)
  | some found =>
    if Policy.permits broker.policy
        ⟨found.credentials, found.hello.clientId, found.hello.headers, action⟩ then .ok ()
    else .error (.denied action)

/-- `monitor_events`: the records, after authorizing monitor access. -/
def monitorEventsFor (broker : Broker P) (peer : PeerId) : Except Error (List MonitorEvent) := do
  broker.authorize peer .monitor
  return broker.monitorEvents

/-- `metrics`: a snapshot without message contents. -/
def metricsSnapshot (broker : Broker P) : MetricsSnapshot where
  connectedPeers := broker.peers.size
  namespaces := broker.namespaces.size
  subscriptions := (broker.subscriptions.values.map OrdMap.size).sum
  totals := broker.metrics

def namespaceOwner (broker : Broker P) (ns : Namespace) : Option PeerId := broker.namespaces.get? ns

def dbusNameOwner (broker : Broker P) (name : String) : Option PeerId := broker.dbusNames.get? name

/-- Recipients before the check that a unicast destination has one. -/
def candidates (broker : Broker P) (sender : PeerId) (destination : Destination) (headers : Headers) :
    Except Error (List PeerId) :=
  match destination with
  | .broker => .error .noRecipient
  | .peer peer => do
    broker.authorize sender (.sendPeer peer)
    return if broker.peers.contains peer then [peer] else []
  | .namespace ns => do
    broker.authorize sender (.sendNamespace ns)
    return (broker.namespaceOwner ns).toList
  | .channel channel => do
    broker.authorize sender (.publish channel)
    return match broker.subscriptions.get? channel with
      | none => []
      | some subscribers => (subscribers.filter fun _ filters => filtersMatch filters headers).keys
  | .clientId clientId selection => do
    broker.authorize sender (.sendClient clientId)
    let matching := (broker.peers.values.filter fun peer => peer.hello.clientId = some clientId).map Peer.id
    return match selection with
      | .first | .any => matching.take 1
      | .all => matching
  | .broadcast => do
    broker.authorize sender .broadcast
    return broker.peers.keys.filter (· ≠ sender)

/-- A destination that may have no recipient. -/
def isMulticast : Destination → Bool
  | .channel _ | .broadcast => true
  | _ => false

def route (broker : Broker P) (sender : PeerId) (destination : Destination) (headers : Headers) :
    Except Error (List PeerId) := do
  let _ ← broker.credentials sender
  let recipients ← broker.candidates sender destination headers
  if isMulticast destination then return recipients
  else if recipients.isEmpty then throw .noRecipient
  else return recipients

def ensureDeliveryCapacity (broker : Broker P) (sender : PeerId) (message : Frame) (isRequestMessage : Bool) :
    Except Error Unit :=
  let queued := broker.deliveries.values.filter fun pending => pending.sender = sender
  if broker.limits.maximumQueuedMessages ≤ queued.length then .error (.limitExceeded .queuedMessages)
  else if (queued.map fun pending => deliveryBytes pending.message).sum + deliveryBytes message >
      broker.limits.maximumQueuedBytes then .error (.limitExceeded .queuedBytes)
  else if isRequestMessage ∧
      broker.limits.maximumInFlightRequests ≤ (queued.filter fun pending => isRequest pending.message).length then
    .error (.limitExceeded .inFlightRequests)
  else .ok ()

end Busd.Broker
