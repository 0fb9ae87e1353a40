import Busd.Broker.Registrations

/-!
# The registry, as the clients know it

Everything in the registry was put there by a call that succeeded, and stays until a call of the same peer takes it
away. A list of calls and replies therefore determines the registry, and the discovery queries list exactly this.

* `Ledger`, `Ledger.record` : who is connected, who owns which name and who listens with which filters, as functions,
  and what a call that succeeded does to them;
* `ledger` : what is in the broker, and `exec_ledger`, `run_ledger` : it is what the history says;
* `listPeers`, `listNamespaces`, `listSubscriptions`, `subscribers` : the queries of the source;
* `Lists` : a list without repetition, in increasing order, of what is recorded;
* `run_discovers` : in every reachable state the queries list what the history says.
-/

namespace Busd.Broker

open Words Machine Busd.Protocol Busd.Policy

variable {P : Type} {broker : Broker P} {history : List (Op × Reply)}

/-! ## The ledger -/

/-- Who is connected, who owns which name, and who listens to which channel with which filters. -/
@[ext] structure Ledger where
  peers : PeerId → Option Peer
  owner : Namespace → Option PeerId
  dbusOwner : String → Option PeerId
  filters : Channel → PeerId → Option (List HeaderFilter)

namespace Ledger

def empty : Ledger := ⟨fun _ => none, fun _ => none, fun _ => none, fun _ _ => none⟩

def without (ledger : Ledger) (peer : PeerId) : Ledger where
  peers := Function.update ledger.peers peer none
  owner ns := (ledger.owner ns).filter (· ≠ peer)
  dbusOwner name := (ledger.dbusOwner name).filter (· ≠ peer)
  filters channel := Function.update (ledger.filters channel) peer none

def listen (ledger : Ledger) (peer : PeerId) (channel : Channel) (filters : Option (List HeaderFilter)) : Ledger :=
  { ledger with
    filters := Function.update ledger.filters channel (Function.update (ledger.filters channel) peer filters) }

theorem filters_listen (ledger : Ledger) (peer id : PeerId) (channel channel' : Channel)
    (filters : Option (List HeaderFilter)) :
    (ledger.listen peer channel filters).filters channel' id =
      if channel' = channel ∧ id = peer then filters else ledger.filters channel' id := by
  by_cases hchannel : channel' = channel
  · subst hchannel
    simp only [listen, Function.update_self, Function.update_apply, true_and]
  · simp only [listen, Function.update_of_ne hchannel, hchannel, false_and, if_false]

theorem filters_without (ledger : Ledger) (peer id : PeerId) (channel : Channel) :
    (ledger.without peer).filters channel id = if id = peer then none else ledger.filters channel id :=
  Function.update_apply ..

/-- What one call with its reply says; a call that failed says nothing. -/
def record (ledger : Ledger) : Op × Reply → Ledger
  | (.connect credentials hello, .connected (.ok session)) =>
    { ledger with
      peers := Function.update ledger.peers session.id
        (some { id := session.id, credentials, hello, capabilities := session.capabilities }) }
  | (.disconnect peer, .delivery (.ok _)) => ledger.without peer
  | (.claim peer ns, .completed (.ok ())) => { ledger with owner := Function.update ledger.owner ns (some peer) }
  | (.registerDbusName peer name, .completed (.ok ())) =>
    { ledger with dbusOwner := Function.update ledger.dbusOwner name (some peer) }
  | (.subscribe peer channel filters, .completed (.ok ())) => ledger.listen peer channel (some filters)
  | (.unsubscribe peer channel, .completed (.ok ())) => ledger.listen peer channel none
  | _ => ledger

def ofHistory (history : List (Op × Reply)) : Ledger := history.foldl record empty

end Ledger

def ledger (broker : Broker P) : Ledger where
  peers := broker.peers.get?
  owner := broker.namespaces.get?
  dbusOwner := broker.dbusNames.get?
  filters channel peer := filtersOf broker peer channel

/-! ## What one call does -/

theorem SameRegistry.ledger {before after : Broker P} (h : SameRegistry before after) :
    after.ledger = before.ledger := by
  unfold Broker.ledger
  simp only [filtersOf_eq, h.peers, h.namespaces, h.dbusNames, h.subscriptions]

theorem get?_insert_eq_update {κ α : Type} [LinearOrder κ] [DecidableEq κ] (m : OrdMap κ α) (k : κ) (v : α) :
    (m.insert k v).get? = Function.update m.get? k (some v) := by
  funext k'
  rw [OrdMap.get?_insert, Function.update_apply]
  split_ifs <;> rfl

theorem get?_erase_eq_update {κ α : Type} [LinearOrder κ] [DecidableEq κ] (m : OrdMap κ α) (k : κ) :
    (m.erase k).get? = Function.update m.get? k none := by
  funext k'
  rw [OrdMap.get?_erase, Function.update_apply]
  split_ifs <;> rfl

theorem filtersOf_releasePeer_self (broker : Broker P) (gone : PeerId) (channel : Channel) :
    filtersOf (broker.releasePeer gone) gone channel = none := by
  rw [filtersOf_eq]
  change ((broker.subscriptions.filterMap _).get? channel).bind _ = _
  rw [OrdMap.get?_filterMap]
  cases broker.subscriptions.get? channel with
  | none => rfl
  | some subscribers =>
    simp only [Option.bind_some, withoutSubscriber]
    split_ifs
    · rfl
    · exact (OrdMap.get?_erase ..).trans (if_pos rfl)

theorem ledger_admitPeer (broker : Broker P) (credentials : Credentials) (hello : ClientHello)
    (capabilities : Capabilities) (nextPeer : UInt64) :
    (broker.admitPeer credentials hello capabilities nextPeer).ledger = { broker.ledger with
      peers := Function.update broker.ledger.peers (.new broker.nextPeer)
        (some { id := .new broker.nextPeer, credentials, hello, capabilities }) } := by
  refine Ledger.ext ?_ rfl rfl rfl
  exact get?_insert_eq_update broker.peers _ _

theorem ledger_releasePeer (broker : Broker P) (peer : PeerId) :
    (broker.releasePeer peer).ledger = broker.ledger.without peer := by
  refine Ledger.ext ?_ ?_ ?_ ?_
  · exact get?_erase_eq_update broker.peers peer
  · funext ns
    exact OrdMap.get?_filter ..
  · funext name
    exact OrdMap.get?_filter ..
  · funext channel id
    rw [Ledger.filters_without]
    split_ifs with hid
    · exact hid ▸ filtersOf_releasePeer_self broker peer channel
    · exact filtersOf_releasePeer broker peer hid

theorem ledger_addSubscriber (broker : Broker P) (peer : PeerId) (channel : Channel) (filters : List HeaderFilter) :
    (broker.addSubscriber peer channel filters).ledger = broker.ledger.listen peer channel (some filters) := by
  refine Ledger.ext rfl rfl rfl ?_
  funext channel' id
  rw [Ledger.filters_listen]
  exact filtersOf_addSubscriber broker peer channel filters

section Calls

variable [Policy P]

theorem ledger_unsubscribe {peer : PeerId} {channel : Channel} (h : (broker.unsubscribe peer channel).2 = .ok ()) :
    (broker.unsubscribe peer channel).1.ledger = broker.ledger.listen peer channel none := by
  have hfilters : ∀ channel' id, filtersOf (broker.unsubscribe peer channel).1 id channel' =
      if channel' = channel ∧ id = peer then none else filtersOf broker id channel' := by
    intro channel' id
    by_cases hid : id = peer
    · rw [hid, (unsubscribe_registrations h).2 channel']
      simp only [and_true]
    · rw [if_neg fun hboth => hid hboth.2]
      have hother : (Op.unsubscribe peer channel).registrant ≠ some id := fun heq => hid (Option.some.inj heq).symm
      exact (exec_registrations broker hother).filters channel'
  rcases unsubscribe_cases broker peer channel with ⟨result, heq⟩ | ⟨subscribers, -, heq⟩
  · rw [heq] at hfilters ⊢
    refine Ledger.ext rfl rfl rfl ?_
    funext channel' id
    rw [Ledger.filters_listen]
    exact hfilters channel' id
  · rw [heq] at hfilters ⊢
    refine Ledger.ext rfl rfl rfl ?_
    funext channel' id
    rw [Ledger.filters_listen]
    exact hfilters channel' id

/-- A call does to the broker what its reply says. -/
theorem exec_ledger (broker : Broker P) (op : Op) :
    (exec broker op).1.ledger = broker.ledger.record (op, (exec broker op).2) := by
  cases op with
  | connect credentials hello =>
    rcases connectSession_cases broker credentials hello with ⟨error, h⟩ | ⟨capabilities, nextPeer, -, h⟩
    · simp only [exec, h]
      rfl
    · simp only [exec, h]
      exact ledger_admitPeer broker credentials hello capabilities nextPeer
  | disconnect peer =>
    rcases disconnectWithEvents_cases broker peer with ⟨-, h⟩ | ⟨-, h⟩
    · simp only [exec, h]
      rfl
    · simp only [exec, h]
      exact ledger_releasePeer broker peer
  | claim peer ns =>
    rcases claim_cases broker peer ns with ⟨error, h⟩ | ⟨-, -, h⟩
    · simp only [exec, h]
      rfl
    · simp only [exec, h]
      exact Ledger.ext rfl (get?_insert_eq_update broker.namespaces ns peer) rfl rfl
  | subscribe peer channel filters =>
    rcases subscribeWithFilters_cases broker peer channel filters with ⟨error, h⟩ | ⟨-, h⟩
    · simp only [exec, h]
      rfl
    · simp only [exec, h]
      exact ledger_addSubscriber broker peer channel filters
  | unsubscribe peer channel =>
    cases hresult : (broker.unsubscribe peer channel).2 with
    | error error =>
      rcases unsubscribe_cases broker peer channel with ⟨result, h⟩ | ⟨_, -, h⟩
      · simp only [exec, h] at hresult ⊢
        rw [hresult]
        rfl
      · rw [h] at hresult
        cases hresult
    | ok =>
      have hledger := ledger_unsubscribe hresult
      simp only [exec, Prod.map_fst, Prod.map_snd, hresult]
      exact hledger
  | registerDbusName peer name =>
    rcases registerDbusName_cases broker peer name with ⟨error, h⟩ | ⟨-, h⟩
    · simp only [exec, h]
      rfl
    · simp only [exec, h]
      exact Ledger.ext rfl rfl (get?_insert_eq_update broker.dbusNames name peer) rfl
  | beginDelivery sender message nowMs => exact (beginDelivery_sameRegistry broker sender message nowMs).ledger
  | acknowledge peer messageId policy => exact (acknowledge_sameRegistry broker peer messageId policy).ledger
  | tick nowMs => exact (tick_sameRegistry broker nowMs).ledger
  | drainEvents => rfl

theorem run_ledger {policy : P} {limits : Limits} {capabilities : Capabilities}
    (hrun : Run exec (.empty policy limits capabilities) history broker) :
    broker.ledger = Ledger.ofHistory history := by
  induction hrun with
  | nil => rfl
  | @snoc b b' history op reply hrun hstep ih =>
    have hledger := exec_ledger b op
    rw [hstep] at hledger
    unfold Ledger.ofHistory at ih ⊢
    rw [hledger, ih, List.foldl_append]
    rfl

end Calls

/-! ## The queries -/

structure PeerInfo where
  id : PeerId
  clientId : Option ClientId
  claimedHeaders : Headers
  credentials : Credentials
  capabilities : Capabilities
  deriving DecidableEq

def PeerInfo.ofPeer (peer : Peer) : PeerInfo where
  id := peer.id
  clientId := peer.hello.clientId
  claimedHeaders := peer.hello.headers
  credentials := peer.credentials
  capabilities := peer.capabilities

structure SubscriptionInfo where
  channel : Channel
  subscribers : List (PeerId × List HeaderFilter)
  deriving DecidableEq

/-- `peers`: discovery records of every connected peer. -/
def listPeers (broker : Broker P) : List PeerInfo := broker.peers.values.map PeerInfo.ofPeer

/-- `namespaces`: every claimed namespace and its owner. -/
def listNamespaces (broker : Broker P) : List (Namespace × PeerId) := broker.namespaces.entries

/-- `subscriptions`: every channel with its subscribers and filters. -/
def listSubscriptions (broker : Broker P) : List SubscriptionInfo :=
  broker.subscriptions.entries.map fun e => { channel := e.1, subscribers := e.2.entries }

def subscribers (broker : Broker P) (channel : Channel) : List PeerId :=
  match broker.subscriptions.get? channel with
  | none => []
  | some peers => peers.keys

/-- `peer`: a connected peer's state. -/
def peerState (broker : Broker P) (peer : PeerId) : Option Peer := broker.peers.get? peer

/-! ## What they list -/

/-- The list holds exactly the values with the property, in increasing order of their keys and hence once each. -/
structure Lists {α κ : Type} [LinearOrder κ] (key : α → κ) (l : List α) (p : α → Prop) : Prop where
  increasing : l.Pairwise fun a b => key a < key b
  mem_iff : ∀ a, a ∈ l ↔ p a

/-- The queries show what is in the ledger. -/
structure Discovers (broker : Broker P) (ledger : Ledger) : Prop where
  peers : Lists PeerInfo.id broker.listPeers fun info =>
    ∃ peer, ledger.peers info.id = some peer ∧ info = .ofPeer peer
  namespaces : Lists Prod.fst broker.listNamespaces fun e => ledger.owner e.1 = some e.2
  channels : Lists SubscriptionInfo.channel broker.listSubscriptions fun info =>
    info.subscribers ≠ [] ∧ Lists Prod.fst info.subscribers fun e => ledger.filters info.channel e.1 = some e.2
  subscribers : ∀ channel, Lists id (broker.subscribers channel) fun peer => (ledger.filters channel peer).isSome
  queries : broker.peerState = ledger.peers ∧ broker.namespaceOwner = ledger.owner ∧
    broker.dbusNameOwner = ledger.dbusOwner
  counts : broker.metricsSnapshot = {
    connectedPeers := broker.listPeers.length
    namespaces := broker.listNamespaces.length
    subscriptions := (broker.listSubscriptions.map fun info => info.subscribers.length).sum
    totals := broker.metrics }

theorem Lists.unique {α κ : Type} [LinearOrder κ] {l l' : List (κ × α)} {p : κ × α → Prop} (h : Lists Prod.fst l p)
    (h' : Lists Prod.fst l' p) : l = l' := by
  have heq : (⟨l, h.increasing⟩ : OrdMap κ α) = ⟨l', h'.increasing⟩ := by
    refine OrdMap.ext_get? fun k => OrdMap.option_ext_some fun v => ?_
    rw [← OrdMap.mem_entries_iff, ← OrdMap.mem_entries_iff]
    exact (h.mem_iff _).trans (h'.mem_iff _).symm
  exact congrArg OrdMap.entries heq

theorem lists_entries {κ α : Type} [LinearOrder κ] (m : OrdMap κ α) :
    Lists Prod.fst m.entries fun e => m.get? e.1 = some e.2 :=
  ⟨m.sorted, fun _ => OrdMap.mem_entries_iff⟩

theorem lists_keys {κ α : Type} [LinearOrder κ] (m : OrdMap κ α) : Lists id m.keys fun k => (m.get? k).isSome :=
  ⟨m.sorted_keys, fun _ => OrdMap.mem_keys_iff⟩

theorem lists_peers (h : Integrity broker) : Lists PeerInfo.id broker.listPeers fun info =>
    ∃ peer, broker.peers.get? info.id = some peer ∧ info = .ofPeer peer := by
  have hid : ∀ e ∈ broker.peers.entries, e.2.id = e.1 := fun e he =>
    (h.peer e.1 e.2 (OrdMap.mem_entries_iff.mp he)).1
  refine ⟨?_, fun info => ?_⟩
  · unfold listPeers OrdMap.values
    rw [List.map_map, List.pairwise_map]
    refine broker.peers.sorted.imp_of_mem fun {a b} ha hb hlt => ?_
    show a.2.id < b.2.id
    rw [hid a ha, hid b hb]
    exact hlt
  · unfold listPeers
    rw [List.mem_map]
    constructor
    · rintro ⟨peer, hmem, rfl⟩
      obtain ⟨id, hget⟩ := OrdMap.mem_values_iff.mp hmem
      refine ⟨peer, ?_, rfl⟩
      have hpeer : peer.id = id := (h.peer id peer hget).1
      show broker.peers.get? peer.id = some peer
      rw [hpeer]
      exact hget
    · rintro ⟨peer, hget, rfl⟩
      exact ⟨peer, OrdMap.mem_values_iff.mpr ⟨_, hget⟩, rfl⟩

theorem lists_channels (h : Integrity broker) : Lists SubscriptionInfo.channel broker.listSubscriptions fun info =>
    info.subscribers ≠ [] ∧
      Lists Prod.fst info.subscribers fun e => filtersOf broker e.1 info.channel = some e.2 := by
  refine ⟨?_, fun info => ?_⟩
  · unfold listSubscriptions
    rw [List.pairwise_map]
    exact broker.subscriptions.sorted
  · unfold listSubscriptions
    rw [List.mem_map]
    constructor
    · rintro ⟨⟨channel, subscribers⟩, hmem, rfl⟩
      have hget := OrdMap.mem_entries_iff.mp hmem
      refine ⟨?_, ?_⟩
      · have hsome := (h.channel channel subscribers hget).1
        unfold OrdMap.isEmpty at hsome
        exact List.isEmpty_eq_false_iff.mp hsome
      · simp only [filtersOf_eq, hget, Option.bind_some]
        exact lists_entries subscribers
    · obtain ⟨channel, listed⟩ := info
      rintro ⟨hsome, hlists⟩
      simp only [filtersOf_eq] at hlists
      obtain ⟨e, he⟩ := List.exists_mem_of_ne_nil _ hsome
      obtain ⟨subscribers, hget, -⟩ := Option.bind_eq_some_iff.mp ((hlists.mem_iff e).mp he)
      refine ⟨(channel, subscribers), OrdMap.mem_entries_iff.mpr hget, ?_⟩
      simp only [hget, Option.bind_some] at hlists
      rw [hlists.unique (lists_entries subscribers)]

theorem lists_subscribers (channel : Channel) :
    Lists id (broker.subscribers channel) fun peer => (filtersOf broker peer channel).isSome := by
  have hkeys : broker.subscribers channel = (broker.subscribersOf channel).keys := by
    unfold subscribers subscribersOf
    cases broker.subscriptions.get? channel with
    | none => rfl
    | some peers => rfl
  rw [hkeys]
  exact lists_keys (broker.subscribersOf channel)

variable [Policy P]

/-- In every state a new broker reaches, the queries show exactly what the calls that succeeded say: nobody and nothing
is missing, stale or listed twice. -/
theorem run_discovers {policy : P} {limits : Limits} {capabilities : Capabilities}
    (hrun : Run exec (.empty policy limits capabilities) history broker) :
    Discovers broker (Ledger.ofHistory history) := by
  have hintegrity := (run_sound hrun (sound_empty policy limits capabilities)).1
  rw [← run_ledger hrun]
  exact {
    peers := lists_peers hintegrity
    namespaces := lists_entries broker.namespaces
    channels := lists_channels hintegrity
    subscribers := lists_subscribers
    queries := ⟨rfl, rfl, rfl⟩
    counts := by
      unfold metricsSnapshot listPeers listNamespaces listSubscriptions OrdMap.values OrdMap.size
      simp only [List.length_map, List.map_map]
      rfl }

/-- Two peers subscribe to a channel, the first one also claims a namespace, and leaves. -/
def subscriberLeaves : List (Op × Reply) × Broker AllowAll :=
  run exec (.empty .mk .default ∅) [plainConnect, plainConnect, .claim (.new 1) plainNamespace,
    .subscribe (.new 1) plainChannel [], .subscribe (.new 2) plainChannel [.doesExist "kind"], .disconnect (.new 1)]

theorem run_discovers_subscriberLeaves :
    Discovers subscriberLeaves.2 (Ledger.ofHistory subscriberLeaves.1) ∧
      subscriberLeaves.2.listNamespaces = [] ∧
      subscriberLeaves.2.listSubscriptions = [⟨plainChannel, [(.new 2, [.doesExist "kind"])]⟩] :=
  ⟨run_discovers (run_spec _ _), by decide +kernel, by decide +kernel⟩

end Busd.Broker
