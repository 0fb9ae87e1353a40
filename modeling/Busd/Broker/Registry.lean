import Busd.Broker.State

/-!
# Connections, namespaces, subscriptions and D-Bus names

The operations of the broker that change who is connected and what each peer has registered.
-/

namespace Busd.Broker

open Words Busd.Protocol Busd.Policy

variable {P : Type} [Policy P]

def admitPeer (broker : Broker P) (credentials : Credentials) (hello : ClientHello)
    (capabilities : Capabilities) (nextPeer : UInt64) : Broker P :=
  let id := PeerId.new broker.nextPeer
  { broker with
    nextPeer
    peers := broker.peers.insert id { id, credentials, hello, capabilities }
    events := broker.events ++ [LifecycleEvent.peerConnected id] }.recordMonitor .connected id none none 0

def connectSession (broker : Broker P) (credentials : Credentials) (hello : ClientHello) :
    Outcome P ConnectedPeer :=
  broker.orReturn (validateClaimedHeaders hello.headers) fun _ =>
  broker.orReturn (broker.authorizeHello credentials hello .connect) fun _ =>
  match checkedAdd broker.nextPeer 1 with
  | none => (broker, .error .peerIdExhausted)
  | some nextPeer =>
    let capabilities := OrdSet.intersection broker.capabilities hello.capabilities
    (broker.admitPeer credentials hello capabilities nextPeer,
      .ok { id := .new broker.nextPeer, capabilities })

/-- `connect`: the session's identity only. -/
def connect (broker : Broker P) (credentials : Credentials) (hello : ClientHello) : Outcome P PeerId :=
  let (broker, session) := broker.connectSession credentials hello
  (broker, session.map ConnectedPeer.id)

/-- What `subscriptions.retain` keeps of one channel when `peer` leaves. -/
def withoutSubscriber {α : Type} (peer : PeerId) (subscribers : OrdMap PeerId α) : Option (OrdMap PeerId α) :=
  let subscribers := subscribers.erase peer
  if subscribers.isEmpty then none else some subscribers

/-- The state after everything registered by a peer was released. -/
def releasePeer (broker : Broker P) (peer : PeerId) : Broker P :=
  let released := (broker.namespaces.filter fun _ owner => owner = peer).keys
  { broker with
    peers := broker.peers.erase peer
    namespaces := broker.namespaces.filter fun _ owner => owner ≠ peer
    dbusNames := broker.dbusNames.filter fun _ owner => owner ≠ peer
    subscriptions := broker.subscriptions.filterMap fun _ subscribers => withoutSubscriber peer subscribers
    events := broker.events ++
      released.map (fun ns => LifecycleEvent.namespaceOwnerChanged ns (some peer) none) ++
      [LifecycleEvent.peerDisconnected peer] }.recordMonitor .disconnected peer none none 0

def removePeer (broker : Broker P) (peer : PeerId) : Outcome P Unit :=
  if !broker.peers.contains peer then (broker, .error (.unknownPeer peer))
  else (broker.releasePeer peer, .ok ())

/-- The deliveries that lose a recipient when `peer` leaves, with their senders. -/
def affected (broker : Broker P) (peer : PeerId) : List (MessageId × PeerId) :=
  (broker.deliveries.entries.filter fun e => e.2.recipients.contains peer).map fun e => (e.1, e.2.sender)

def disconnectWithEvents (broker : Broker P) (peer : PeerId) : Outcome P (List DeliveryEvent) :=
  match broker.removePeer peer with
  | (broker, .error error) => (broker, .error error)
  | (broker, .ok ()) =>
    let affected := broker.affected peer
    ({ broker with deliveries := affected.foldl (fun deliveries a => deliveries.erase a.1) broker.deliveries },
      .ok (affected.map fun a => .result a.2 a.1 .recipientDisconnected))

/-- `disconnect`, which drops the outcomes. -/
def disconnect (broker : Broker P) (peer : PeerId) : Outcome P Unit :=
  let (broker, events) := broker.disconnectWithEvents peer
  (broker, events.map fun _ => ())

def grantNamespace (broker : Broker P) (peer : PeerId) (ns : Namespace) : Broker P :=
  { broker with
    namespaces := broker.namespaces.insert ns peer
    events := broker.events ++ [LifecycleEvent.namespaceOwnerChanged ns none (some peer)] }.recordMonitor
      .namespaceClaimed peer (some ns.asStr) none 0

def claim (broker : Broker P) (peer : PeerId) (ns : Namespace) : Outcome P Unit :=
  broker.orReturn (broker.authorize peer (.claimNamespace ns)) fun _ =>
  if broker.limits.maximumNamespaceClaims ≤ (broker.namespaces.values.filter (· = peer)).length then
    (broker, .error (.limitExceeded .namespaceClaims))
  else
    match broker.namespaces.get? ns with
    | some owner => (broker, .error (.namespaceAlreadyOwned ns owner))
    | none => (broker.grantNamespace peer ns, .ok ())

/-- The subscribers of a channel; `or_default` creates an empty map. -/
def subscribersOf (broker : Broker P) (channel : Channel) : OrdMap PeerId (List HeaderFilter) :=
  (broker.subscriptions.get? channel).getD ∅

def addSubscriber (broker : Broker P) (peer : PeerId) (channel : Channel) (filters : List HeaderFilter) :
    Broker P :=
  { broker with
    subscriptions := broker.subscriptions.insert channel
      ((broker.subscribersOf channel).insert peer filters) }.recordMonitor
      .subscribed peer (some channel.asStr) none 0

def subscribeWithFilters (broker : Broker P) (peer : PeerId) (channel : Channel)
    (filters : List HeaderFilter) : Outcome P Unit :=
  broker.orReturn (broker.authorize peer (.subscribe channel)) fun _ =>
  if !(broker.subscribersOf channel).contains peer ∧
      broker.limits.maximumSubscriptions ≤
        (broker.subscriptions.values.filter fun subscribers => subscribers.contains peer).length then
    (broker, .error (.limitExceeded .subscriptions))
  else (broker.addSubscriber peer channel filters, .ok ())

def subscribe (broker : Broker P) (peer : PeerId) (channel : Channel) : Outcome P Unit :=
  broker.subscribeWithFilters peer channel []

def unsubscribe (broker : Broker P) (peer : PeerId) (channel : Channel) : Outcome P Unit :=
  broker.orReturn (broker.credentials peer) fun _ =>
  match broker.subscriptions.get? channel with
  | none => (broker, .ok ())
  | some subscribers =>
    let subscribers := subscribers.erase peer
    ({ broker with
        subscriptions :=
          if subscribers.isEmpty then broker.subscriptions.erase channel
          else broker.subscriptions.insert channel subscribers }, .ok ())

def registerDbusName (broker : Broker P) (peer : PeerId) (name : String) : Outcome P Unit :=
  if !validateDbusName name then (broker, .error (.invalidDbusName name))
  else
    broker.orReturn (broker.authorize peer (.registerDbusName name)) fun _ =>
    match broker.dbusNames.get? name with
    | some owner => (broker, .error (.dbusNameAlreadyOwned name owner))
    | none => ({ broker with dbusNames := broker.dbusNames.insert name peer }, .ok ())

def drainEvents (broker : Broker P) : Broker P × List LifecycleEvent :=
  ({ broker with events := [] }, broker.events)

end Busd.Broker
