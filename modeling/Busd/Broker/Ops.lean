import Busd.Broker.Delivery
import Busd.Lib.Run

/-!
# The broker as a machine

Every state-changing operation of the broker as one input of a machine, with its answer. Daemon
threads call these operations under one lock, so every interleaving of them is a run of this machine.

The `*_cases` theorems say what each operation can do; later modules use them and unfold nothing.
-/

namespace Busd.Broker

open Words Busd.Protocol Busd.Policy

inductive Op where
  | connect (credentials : Credentials) (hello : ClientHello)
  | disconnect (peer : PeerId)
  | claim (peer : PeerId) (ns : Namespace)
  | subscribe (peer : PeerId) (channel : Channel) (filters : List HeaderFilter)
  | unsubscribe (peer : PeerId) (channel : Channel)
  | registerDbusName (peer : PeerId) (name : String)
  | beginDelivery (sender : PeerId) (message : Frame) (nowMs : UInt64)
  | acknowledge (peer : PeerId) (messageId : MessageId) (policy : AckPolicy)
  | tick (nowMs : UInt64)
  | drainEvents
  deriving DecidableEq

inductive Reply where
  | connected (result : Except Error ConnectedPeer)
  | completed (result : Except Error Unit)
  | delivery (result : Except Error (List DeliveryEvent))
  | lifecycle (events : List LifecycleEvent)
  deriving DecidableEq

/-- The delivery events a call returns to the daemon. -/
def Reply.events : Reply → List DeliveryEvent
  | .delivery (.ok events) => events
  | _ => []

variable {P : Type}

def exec [Policy P] (broker : Broker P) : Op → Broker P × Reply
  | .connect credentials hello => (broker.connectSession credentials hello).map id .connected
  | .disconnect peer => (broker.disconnectWithEvents peer).map id .delivery
  | .claim peer ns => (broker.claim peer ns).map id .completed
  | .subscribe peer channel filters => (broker.subscribeWithFilters peer channel filters).map id .completed
  | .unsubscribe peer channel => (broker.unsubscribe peer channel).map id .completed
  | .registerDbusName peer name => (broker.registerDbusName peer name).map id .completed
  | .beginDelivery sender message nowMs => (broker.beginDelivery sender message nowMs).map id .delivery
  | .acknowledge peer messageId policy => (broker.acknowledge peer messageId policy).map id .delivery
  | .tick nowMs => (broker.tick nowMs).map id fun events => .delivery (.ok events)
  | .drainEvents => broker.drainEvents.map id .lifecycle

/-! ## Reading off successful checks -/

variable {broker : Broker P} {peer : PeerId}

theorem orReturn_cases {α β : Type} {x : Except Error α} {next : α → Outcome P β} {r : Outcome P β}
    (h : broker.orReturn x next = r) :
    (∃ error, x = .error error ∧ r = (broker, .error error)) ∨ ∃ a, x = .ok a ∧ next a = r := by
  cases x with
  | error error => exact .inl ⟨error, rfl, h.symm⟩
  | ok a => exact .inr ⟨a, rfl, h⟩

theorem contains_of_authorize [Policy P] {action : Action} (h : broker.authorize peer action = .ok ()) :
    broker.peers.contains peer = true := by
  unfold authorize at h
  split at h
  · cases h
  · next found hfound => exact OrdMap.contains_iff.mpr ⟨found, hfound⟩

theorem contains_of_credentials {credentials : Credentials} (h : broker.credentials peer = .ok credentials) :
    broker.peers.contains peer = true := by
  unfold Broker.credentials at h
  split at h
  · next found hfound => exact OrdMap.contains_iff.mpr ⟨found, hfound⟩
  · cases h

/-! ## The registry operations -/

section Registry

variable [Policy P]

theorem connectSession_cases (broker : Broker P) (credentials : Credentials) (hello : ClientHello) :
    (∃ error, broker.connectSession credentials hello = (broker, .error error)) ∨
      ∃ capabilities nextPeer, checkedAdd broker.nextPeer 1 = some nextPeer ∧
        broker.connectSession credentials hello =
          (broker.admitPeer credentials hello capabilities nextPeer,
            .ok { id := .new broker.nextPeer, capabilities }) := by
  rcases orReturn_cases (show broker.connectSession credentials hello = _ from rfl) with
    ⟨error, -, h⟩ | ⟨_, -, h⟩
  · exact .inl ⟨error, h⟩
  rcases orReturn_cases h with ⟨error, -, h⟩ | ⟨_, -, h⟩
  · exact .inl ⟨error, h⟩
  cases hnext : checkedAdd broker.nextPeer 1 with
  | none =>
    rw [hnext] at h
    exact .inl ⟨_, h.symm⟩
  | some nextPeer =>
    rw [hnext] at h
    exact .inr ⟨_, nextPeer, rfl, h.symm⟩

theorem claim_cases (broker : Broker P) (peer : PeerId) (ns : Namespace) :
    (∃ error, broker.claim peer ns = (broker, .error error)) ∨
      broker.peers.contains peer = true ∧ broker.namespaces.get? ns = none ∧
        broker.claim peer ns = (broker.grantNamespace peer ns, .ok ()) := by
  rcases orReturn_cases (show broker.claim peer ns = _ from rfl) with ⟨error, -, h⟩ | ⟨_, hauth, h⟩
  · exact .inl ⟨error, h⟩
  split_ifs at h with hlimit
  · exact .inl ⟨_, h.symm⟩
  cases howner : broker.namespaces.get? ns with
  | some owner =>
    rw [howner] at h
    exact .inl ⟨_, h.symm⟩
  | none =>
    rw [howner] at h
    exact .inr ⟨contains_of_authorize hauth, rfl, h.symm⟩

theorem subscribeWithFilters_cases (broker : Broker P) (peer : PeerId) (channel : Channel)
    (filters : List HeaderFilter) :
    (∃ error, broker.subscribeWithFilters peer channel filters = (broker, .error error)) ∨
      broker.peers.contains peer = true ∧
        broker.subscribeWithFilters peer channel filters =
          (broker.addSubscriber peer channel filters, .ok ()) := by
  rcases orReturn_cases (show broker.subscribeWithFilters peer channel filters = _ from rfl) with
    ⟨error, -, h⟩ | ⟨_, hauth, h⟩
  · exact .inl ⟨error, h⟩
  split_ifs at h with hlimit
  · exact .inl ⟨_, h.symm⟩
  · exact .inr ⟨contains_of_authorize hauth, h.symm⟩

end Registry

theorem unsubscribe_cases (broker : Broker P) (peer : PeerId) (channel : Channel) :
    (∃ result, broker.unsubscribe peer channel = (broker, result)) ∨
      ∃ subscribers, broker.subscriptions.get? channel = some subscribers ∧
        broker.unsubscribe peer channel =
          ({ broker with
              subscriptions :=
                if (subscribers.erase peer).isEmpty then broker.subscriptions.erase channel
                else broker.subscriptions.insert channel (subscribers.erase peer) }, .ok ()) := by
  rcases orReturn_cases (show broker.unsubscribe peer channel = _ from rfl) with
    ⟨error, -, h⟩ | ⟨_, -, h⟩
  · exact .inl ⟨_, h⟩
  cases hsubs : broker.subscriptions.get? channel with
  | none =>
    rw [hsubs] at h
    exact .inl ⟨_, h.symm⟩
  | some subscribers =>
    rw [hsubs] at h
    exact .inr ⟨subscribers, rfl, h.symm⟩

theorem registerDbusName_cases [Policy P] (broker : Broker P) (peer : PeerId) (name : String) :
    (∃ error, broker.registerDbusName peer name = (broker, .error error)) ∨
      broker.peers.contains peer = true ∧
        broker.registerDbusName peer name =
          ({ broker with dbusNames := broker.dbusNames.insert name peer }, .ok ()) := by
  unfold registerDbusName
  split_ifs with hname
  · exact .inl ⟨_, rfl⟩
  rcases orReturn_cases (show broker.orReturn (broker.authorize peer (.registerDbusName name)) _ = _ from rfl)
    with ⟨error, -, h⟩ | ⟨_, hauth, h⟩
  · exact .inl ⟨error, h⟩
  cases howner : broker.dbusNames.get? name with
  | some owner =>
    rw [howner] at h
    exact .inl ⟨_, h.symm⟩
  | none =>
    rw [howner] at h
    exact .inr ⟨contains_of_authorize hauth, h.symm⟩

/-- The deliveries left when `peer` is gone: those it is not a recipient of. -/
def remaining (broker : Broker P) (peer : PeerId) : OrdMap MessageId PendingDelivery :=
  broker.deliveries.filter fun _ pending => !pending.recipients.contains peer

theorem mem_affected {id : MessageId} {sender : PeerId} :
    (id, sender) ∈ broker.affected peer ↔ ∃ pending, broker.deliveries.get? id = some pending ∧
      pending.recipients.contains peer = true ∧ pending.sender = sender := by
  unfold affected
  simp only [List.mem_map, List.mem_filter, Prod.mk.injEq, Prod.exists, OrdMap.mem_entries_iff]
  constructor
  · rintro ⟨id, pending, ⟨hget, hmem⟩, rfl, rfl⟩
    exact ⟨pending, hget, hmem, rfl⟩
  · rintro ⟨pending, hget, hmem, rfl⟩
    exact ⟨id, pending, ⟨hget, hmem⟩, rfl, rfl⟩

theorem foldl_erase_affected (broker : Broker P) (peer : PeerId) :
    (broker.affected peer).foldl (fun deliveries a => deliveries.erase a.1) broker.deliveries =
      broker.remaining peer := by
  refine OrdMap.ext_get? fun id => ?_
  rw [OrdMap.get?_foldl_erase Prod.fst, remaining, OrdMap.get?_filter]
  cases hget : broker.deliveries.get? id with
  | none => simp
  | some pending =>
    have hmem : id ∈ (broker.affected peer).map Prod.fst ↔ pending.recipients.contains peer = true := by
      simp [mem_affected, hget]
    by_cases hrec : pending.recipients.contains peer = true
    · rw [if_pos (hmem.mpr hrec)]
      simp [Option.filter, hrec]
    · rw [if_neg (mt hmem.mp hrec)]
      simp [Option.filter, hrec]

theorem disconnectWithEvents_cases (broker : Broker P) (peer : PeerId) :
    (broker.peers.contains peer = false ∧
        broker.disconnectWithEvents peer = (broker, .error (.unknownPeer peer))) ∨
      broker.peers.contains peer = true ∧
        broker.disconnectWithEvents peer =
          ({ broker.releasePeer peer with deliveries := broker.remaining peer },
            .ok ((broker.affected peer).map fun a => .result a.2 a.1 .recipientDisconnected)) := by
  unfold disconnectWithEvents removePeer
  cases hpeer : broker.peers.contains peer with
  | false => exact .inl ⟨rfl, rfl⟩
  | true =>
    refine .inr ⟨rfl, ?_⟩
    rw [← foldl_erase_affected broker peer]
    rfl

/-! ## A concrete client and its messages -/

def plainHello : ClientHello := ⟨none, ∅, ∅⟩

def plainConnect : Op := .connect .default plainHello

/-- The identifier whose last byte is `n`. -/
def numberedId (n : UInt8) : MessageId := ⟨List.replicate 15 0 ++ [n], rfl⟩

def plainRequest (id : MessageId) (ackPolicy : AckPolicy) (ackRequirement : AckRequirement)
    (requestPolicy : RequestPolicy) (destination : Destination) : Message where
  kind := .request
  ackPolicy := ackPolicy
  ackRequirement := ackRequirement
  requestPolicy := requestPolicy
  deadlineMs := 1000
  retry := .none
  destination := destination
  messageId := id
  correlationId := .absent
  status := .success
  headers := ∅
  payload := []

/-- A response without headers or payload, to the request `correlationId` of the first peer. -/
def plainResponse (id correlationId : MessageId) (status : Status) : Message where
  kind := .response
  ackPolicy := .none
  ackRequirement := .none
  requestPolicy := .exact
  deadlineMs := 0
  retry := .none
  destination := .peer (.new 1)
  messageId := id
  correlationId := correlationId
  status := status
  headers := ∅
  payload := []

def plainNamespace : Namespace := ⟨"bus://worker", by decide⟩

def plainChannel : Channel := ⟨"news", by decide⟩

end Busd.Broker
