import Busd.Broker.Integrity

/-!
# What the policy was asked

Everything the broker stores for a peer, and every message it hands out, goes back to a decision of the policy.
Retries repeat a message long after the decision, and responses are not put to the policy at all: a response is
justified by the request it answers.

* `Holds` : what a peer has in the registry, as the action that gave it to the peer;
* `Gains`, `exec_gains` : what a call adds to what a peer has;
* `exec_holds` : a call gives a peer nothing that the policy did not permit;
* `Origin` : how the message and the responses of an entry came in;
* `run_authorized` : both, in every run, and where each delivery comes from.
-/

namespace Busd.Broker

open Words Machine Busd.Protocol Busd.Policy
open Codec (bind_eq_ok)

variable {P : Type} {policy : P} {broker start : Broker P} {history : List (Op × Reply)}

/-! ## Decisions -/

section Authorized

variable [Policy P]

/-- The policy permits the action to the connected peer `id`, on its credentials and its hello. -/
def Permits (policy : P) (broker : Broker P) (id : PeerId) (action : Action) : Prop :=
  ∃ peer, broker.peers.get? id = some peer ∧
    Policy.permits policy ⟨peer.credentials, peer.hello.clientId, peer.hello.headers, action⟩ = true

theorem authorize_eq_ok {id : PeerId} {action : Action} :
    broker.authorize id action = .ok () ↔ Permits broker.policy broker id action := by
  unfold authorize Permits
  cases broker.peers.get? id with
  | none => simp
  | some peer => simp

def sendAction : Destination → Option Action
  | .broker => none
  | .peer peer => some (.sendPeer peer)
  | .namespace ns => some (.sendNamespace ns)
  | .channel channel => some (.publish channel)
  | .clientId clientId _ => some (.sendClient clientId)
  | .broadcast => some .broadcast

def MaySend (policy : P) (broker : Broker P) (sender : PeerId) (destination : Destination) : Prop :=
  ∃ action, sendAction destination = some action ∧ Permits policy broker sender action

theorem route_maySend {sender : PeerId} {destination : Destination} {headers : Headers} {recipients : List PeerId}
    (h : broker.route sender destination headers = .ok recipients) :
    MaySend broker.policy broker sender destination := by
  obtain ⟨_, -, h⟩ := bind_eq_ok.mp h
  obtain ⟨found, hfound, -⟩ := bind_eq_ok.mp h
  have hasked : ∀ {action : Action} {next : Unit → Except Error (List PeerId)},
      (broker.authorize sender action >>= next) = .ok found → Permits broker.policy broker sender action := by
    intro action next hbind
    obtain ⟨_, hauthorize, -⟩ := bind_eq_ok.mp hbind
    exact authorize_eq_ok.mp hauthorize
  cases destination with
  | broker => cases hfound
  | peer peer => exact ⟨_, rfl, hasked hfound⟩
  | «namespace» ns => exact ⟨_, rfl, hasked hfound⟩
  | channel channel => exact ⟨_, rfl, hasked hfound⟩
  | clientId clientId selection => exact ⟨_, rfl, hasked hfound⟩
  | broadcast => exact ⟨_, rfl, hasked hfound⟩

/-! ## The registry -/

/-- What a peer has in the registry, as the action that gave it to the peer. -/
inductive Holds (broker : Broker P) (id : PeerId) : Action → Prop
  | connected (h : broker.peers.contains id = true) : Holds broker id .connect
  | owner {ns : Namespace} (h : broker.namespaces.get? ns = some id) : Holds broker id (.claimNamespace ns)
  | subscriber {channel : Channel} {subscribers : OrdMap PeerId (List HeaderFilter)}
      (h : broker.subscriptions.get? channel = some subscribers) (hid : subscribers.contains id = true) :
      Holds broker id (.subscribe channel)
  | dbusName {name : String} (h : broker.dbusNames.get? name = some id) : Holds broker id (.registerDbusName name)

omit [Policy P] in
theorem Holds.of_sameRegistry {b b' : Broker P} (hsame : SameRegistry b b') {id : PeerId} {action : Action}
    (h : Holds b' id action) : Holds b id action := by
  cases h with
  | connected h => exact .connected (hsame.peers ▸ h)
  | owner h => exact .owner (hsame.namespaces ▸ h)
  | subscriber h hid => exact .subscriber (hsame.subscriptions ▸ h) hid
  | dbusName h => exact .dbusName (hsame.dbusNames ▸ h)

omit [Policy P] in
theorem Holds.isConnected (hintegrity : Integrity broker) {id : PeerId} {action : Action} (h : Holds broker id action) :
    broker.peers.contains id = true := by
  cases h with
  | connected h => exact h
  | owner h => exact hintegrity.namespace _ _ h
  | subscriber h hid => exact (hintegrity.channel _ _ h).2 id hid
  | dbusName h => exact hintegrity.dbusName _ _ h

theorem claim_authorized {peer : PeerId} {ns : Namespace} (h : (broker.claim peer ns).2 = .ok ()) :
    broker.authorize peer (.claimNamespace ns) = .ok () := by
  rcases orReturn_cases (show broker.claim peer ns = _ from rfl) with ⟨error, -, hc⟩ | ⟨_, hauthorize, -⟩
  · rw [hc] at h
    cases h
  · exact hauthorize

theorem subscribe_authorized {peer : PeerId} {channel : Channel} {filters : List HeaderFilter}
    (h : (broker.subscribeWithFilters peer channel filters).2 = .ok ()) :
    broker.authorize peer (.subscribe channel) = .ok () := by
  rcases orReturn_cases (show broker.subscribeWithFilters peer channel filters = _ from rfl) with
    ⟨error, -, hc⟩ | ⟨_, hauthorize, -⟩
  · rw [hc] at h
    cases h
  · exact hauthorize

theorem registerDbusName_authorized {peer : PeerId} {name : String} (h : (broker.registerDbusName peer name).2 = .ok ()) :
    broker.authorize peer (.registerDbusName name) = .ok () := by
  unfold registerDbusName at h
  split_ifs at h
  rcases orReturn_cases (show broker.orReturn (broker.authorize peer (.registerDbusName name)) _ = _ from rfl) with
    ⟨error, -, hc⟩ | ⟨_, hauthorize, -⟩
  · rw [hc] at h
    cases h
  · exact hauthorize

theorem connectSession_authorized {credentials : Credentials} {hello : ClientHello} {session : ConnectedPeer}
    (h : (broker.connectSession credentials hello).2 = .ok session) :
    Policy.permits broker.policy ⟨credentials, hello.clientId, hello.headers, .connect⟩ = true := by
  rcases orReturn_cases (show broker.connectSession credentials hello = _ from rfl) with ⟨error, -, hc⟩ | ⟨_, -, hc⟩
  · rw [hc] at h
    cases h
  rcases orReturn_cases hc with ⟨error, -, hc⟩ | ⟨_, hauthorize, -⟩
  · rw [hc] at h
    cases h
  · unfold authorizeHello at hauthorize
    split_ifs at hauthorize with hpermits
    exact hpermits

end Authorized

theorem admitPeer_holds {credentials : Credentials} {hello : ClientHello} {capabilities : Capabilities}
    {nextPeer : UInt64} {id : PeerId} {action : Action}
    (h : Holds (broker.admitPeer credentials hello capabilities nextPeer) id action) :
    Holds broker id action ∨ id = .new broker.nextPeer ∧ action = .connect := by
  cases h with
  | connected h =>
    rcases contains_admitPeer.mp h with hnew | hold
    · exact .inr ⟨hnew, rfl⟩
    · exact .inl (.connected hold)
  | owner h => exact .inl (.owner h)
  | subscriber h hid => exact .inl (.subscriber h hid)
  | dbusName h => exact .inl (.dbusName h)

theorem releasePeer_holds {gone id : PeerId} {action : Action}
    (h : Holds { broker.releasePeer gone with deliveries := broker.remaining gone } id action) :
    Holds broker id action ∧ id ≠ gone := by
  cases h with
  | connected h =>
    obtain ⟨hne, hold⟩ := OrdMap.contains_erase.mp h
    exact ⟨.connected hold, hne⟩
  | @owner ns h =>
    change (broker.namespaces.filter fun _ owner => owner ≠ gone).get? ns = some id at h
    rw [OrdMap.get?_filter, Option.filter_eq_some_iff] at h
    exact ⟨.owner h.1, of_decide_eq_true h.2⟩
  | @subscriber channel subscribers h hid =>
    change (broker.subscriptions.filterMap _).get? channel = some subscribers at h
    rw [OrdMap.get?_filterMap, Option.bind_eq_some_iff] at h
    obtain ⟨old, hold, hkept⟩ := h
    unfold withoutSubscriber at hkept
    simp only [] at hkept
    split_ifs at hkept
    cases hkept
    obtain ⟨hne, hid⟩ := OrdMap.contains_erase.mp hid
    exact ⟨.subscriber hold hid, hne⟩
  | @dbusName name h =>
    change (broker.dbusNames.filter fun _ owner => owner ≠ gone).get? name = some id at h
    rw [OrdMap.get?_filter, Option.filter_eq_some_iff] at h
    exact ⟨.dbusName h.1, of_decide_eq_true h.2⟩

theorem grantNamespace_holds {peer id : PeerId} {ns : Namespace} {action : Action}
    (h : Holds (broker.grantNamespace peer ns) id action) :
    Holds broker id action ∨ id = peer ∧ action = .claimNamespace ns := by
  cases h with
  | connected h => exact .inl (.connected h)
  | @owner ns' h =>
    change (broker.namespaces.insert ns peer).get? ns' = some id at h
    rw [OrdMap.get?_insert] at h
    split_ifs at h with hns
    · cases h
      exact .inr ⟨rfl, hns ▸ rfl⟩
    · exact .inl (.owner h)
  | subscriber h hid => exact .inl (.subscriber h hid)
  | dbusName h => exact .inl (.dbusName h)

theorem addSubscriber_holds {peer id : PeerId} {channel : Channel} {filters : List HeaderFilter} {action : Action}
    (h : Holds (broker.addSubscriber peer channel filters) id action) :
    Holds broker id action ∨ id = peer ∧ action = .subscribe channel := by
  cases h with
  | connected h => exact .inl (.connected h)
  | owner h => exact .inl (.owner h)
  | @subscriber channel' subscribers h hid =>
    change (broker.subscriptions.insert channel _).get? channel' = some subscribers at h
    rw [OrdMap.get?_insert] at h
    split_ifs at h with hchannel
    · cases h
      rw [hchannel]
      rcases OrdMap.contains_insert.mp hid with hnew | hold
      · exact .inr ⟨hnew, rfl⟩
      · left
        unfold subscribersOf at hold
        cases hsubs : broker.subscriptions.get? channel with
        | none =>
          rw [hsubs] at hold
          cases hold
        | some subscribers =>
          rw [hsubs] at hold
          exact .subscriber hsubs hold
    · exact .inl (.subscriber h hid)
  | dbusName h => exact .inl (.dbusName h)

theorem unsubscribe_holds {peer id : PeerId} {channel : Channel} {subscribers : OrdMap PeerId (List HeaderFilter)}
    (hsubs : broker.subscriptions.get? channel = some subscribers) {action : Action}
    (h : Holds { broker with
      subscriptions :=
        if (subscribers.erase peer).isEmpty then broker.subscriptions.erase channel
        else broker.subscriptions.insert channel (subscribers.erase peer) } id action) : Holds broker id action := by
  cases h with
  | connected h => exact .connected h
  | owner h => exact .owner h
  | @subscriber channel' subscribers' h hid =>
    change (ite _ _ _ : OrdMap Channel _).get? channel' = some subscribers' at h
    split_ifs at h
    · rw [OrdMap.get?_erase] at h
      split_ifs at h
      exact .subscriber h hid
    · rw [OrdMap.get?_insert] at h
      split_ifs at h with hchannel
      · cases h
        rw [hchannel]
        exact .subscriber hsubs (OrdMap.contains_erase.mp hid).2
      · exact .subscriber h hid
  | dbusName h => exact .dbusName h

theorem insertDbusName_holds {peer id : PeerId} {name : String} {action : Action}
    (h : Holds { broker with dbusNames := broker.dbusNames.insert name peer } id action) :
    Holds broker id action ∨ id = peer ∧ action = .registerDbusName name := by
  cases h with
  | connected h => exact .inl (.connected h)
  | owner h => exact .inl (.owner h)
  | subscriber h hid => exact .inl (.subscriber h hid)
  | @dbusName name' h =>
    change (broker.dbusNames.insert name peer).get? name' = some id at h
    rw [OrdMap.get?_insert] at h
    split_ifs at h with hname
    · cases h
      exact .inr ⟨rfl, hname ▸ rfl⟩
    · exact .inl (.dbusName h)

variable [Policy P]

theorem exec_settings (broker : Broker P) (op : Op) :
    (exec broker op).1.policy = broker.policy ∧ (exec broker op).1.capabilities = broker.capabilities := by
  have hsame : ∀ {b : Broker P}, SameRegistry broker b →
      b.policy = broker.policy ∧ b.capabilities = broker.capabilities := fun h => ⟨h.policy, h.capabilities⟩
  cases op with
  | connect credentials hello =>
    rcases connectSession_cases broker credentials hello with ⟨error, h⟩ | ⟨_, _, -, h⟩
    all_goals
      simp only [exec, h]
      exact ⟨rfl, rfl⟩
  | disconnect peer =>
    rcases disconnectWithEvents_cases broker peer with ⟨-, h⟩ | ⟨-, h⟩
    all_goals
      simp only [exec, h]
      exact ⟨rfl, rfl⟩
  | claim peer ns =>
    rcases claim_cases broker peer ns with ⟨error, h⟩ | ⟨-, -, h⟩
    all_goals
      simp only [exec, h]
      exact ⟨rfl, rfl⟩
  | subscribe peer channel filters =>
    rcases subscribeWithFilters_cases broker peer channel filters with ⟨error, h⟩ | ⟨-, h⟩
    all_goals
      simp only [exec, h]
      exact ⟨rfl, rfl⟩
  | unsubscribe peer channel =>
    rcases unsubscribe_cases broker peer channel with ⟨result, h⟩ | ⟨subscribers, -, h⟩
    all_goals
      simp only [exec, h]
      exact ⟨rfl, rfl⟩
  | registerDbusName peer name =>
    rcases registerDbusName_cases broker peer name with ⟨error, h⟩ | ⟨-, h⟩
    all_goals
      simp only [exec, h]
      exact ⟨rfl, rfl⟩
  | beginDelivery sender message nowMs => exact hsame (beginDelivery_sameRegistry broker sender message nowMs)
  | acknowledge peer messageId policy => exact hsame (acknowledge_sameRegistry broker peer messageId policy)
  | tick nowMs => exact hsame (tick_sameRegistry broker nowMs)
  | drainEvents => exact ⟨rfl, rfl⟩

theorem exec_peer (hintegrity : Integrity broker) {op : Op} {id : PeerId} {peer : Peer}
    (hpeer : broker.peers.get? id = some peer) (hop : op ≠ .disconnect id) :
    (exec broker op).1.peers.get? id = some peer := by
  cases op with
  | connect credentials hello =>
    rcases connectSession_cases broker credentials hello with ⟨error, h⟩ | ⟨_, _, -, h⟩
    · simpa only [exec, h, Prod.map_fst, id_eq] using hpeer
    · simp only [exec, h]
      have hbelow := (hintegrity.peer id peer hpeer).2.2
      have hne : id ≠ .new broker.nextPeer := by
        rintro rfl
        exact lt_irrefl _ hbelow
      exact (OrdMap.get?_insert _ _ _ _).trans ((if_neg hne).trans hpeer)
  | disconnect gone =>
    rcases disconnectWithEvents_cases broker gone with ⟨-, h⟩ | ⟨-, h⟩
    · simpa only [exec, h, Prod.map_fst, id_eq] using hpeer
    · simp only [exec, h]
      have hne : id ≠ gone := fun heq => hop (heq ▸ rfl)
      exact (OrdMap.get?_erase _ _ _).trans ((if_neg hne).trans hpeer)
  | _ =>
    rw [(exec_samePeers broker (fun _ _ h => by cases h) fun _ h => by cases h).peers]
    exact hpeer

theorem Permits.after (hintegrity : Integrity broker) {op : Op} {id : PeerId} {action : Action}
    (h : Permits policy broker id action) (hop : op ≠ .disconnect id) : Permits policy (exec broker op).1 id action := by
  obtain ⟨peer, hpeer, hpermits⟩ := h
  exact ⟨peer, exec_peer hintegrity hpeer hop, hpermits⟩

/-- What a successful call adds to what the peer `id` has. -/
inductive Gains (broker : Broker P) (op : Op) (id : PeerId) : Action → Prop
  | connected {credentials : Credentials} {hello : ClientHello} {capabilities : Capabilities} {session : ConnectedPeer}
      (hop : op = .connect credentials hello) (hok : (broker.connectSession credentials hello).2 = .ok session)
      (hpeer : (exec broker op).1.peers.get? id = some ⟨id, credentials, hello, capabilities⟩) :
      Gains broker op id .connect
  | owner {ns : Namespace} (hop : op = .claim id ns) (hok : (broker.claim id ns).2 = .ok ()) :
      Gains broker op id (.claimNamespace ns)
  | subscriber {channel : Channel} {filters : List HeaderFilter} (hop : op = .subscribe id channel filters)
      (hok : (broker.subscribeWithFilters id channel filters).2 = .ok ()) : Gains broker op id (.subscribe channel)
  | dbusName {name : String} (hop : op = .registerDbusName id name) (hok : (broker.registerDbusName id name).2 = .ok ()) :
      Gains broker op id (.registerDbusName name)

/-- What a peer has after a call, it had before, or the call gave it to the peer. -/
theorem exec_gains (op : Op) {id : PeerId} {action : Action} (h : Holds (exec broker op).1 id action) :
    Holds broker id action ∨ Gains broker op id action := by
  cases op with
  | connect credentials hello =>
    rcases connectSession_cases broker credentials hello with ⟨error, hc⟩ | ⟨capabilities, nextPeer, -, hc⟩
    · simp only [exec, hc] at h
      exact .inl h
    · have hb : (exec broker (.connect credentials hello)).1 =
          broker.admitPeer credentials hello capabilities nextPeer := by simp only [exec, hc, Prod.map_fst, id_eq]
      rw [hb] at h
      rcases admitPeer_holds h with hold | ⟨rfl, rfl⟩
      · exact .inl hold
      · have hpeer : (exec broker (.connect credentials hello)).1.peers.get? (.new broker.nextPeer) =
            some ⟨.new broker.nextPeer, credentials, hello, capabilities⟩ := by
          rw [hb]
          exact (OrdMap.get?_insert _ _ _ _).trans (if_pos rfl)
        exact .inr (.connected rfl (congrArg Prod.snd hc) hpeer)
  | disconnect gone =>
    rcases disconnectWithEvents_cases broker gone with ⟨-, hd⟩ | ⟨-, hd⟩
    · simp only [exec, hd] at h
      exact .inl h
    · simp only [exec, hd] at h
      exact .inl (releasePeer_holds h).1
  | claim peer ns =>
    rcases claim_cases broker peer ns with ⟨error, hc⟩ | ⟨-, -, hc⟩
    · simp only [exec, hc] at h
      exact .inl h
    · simp only [exec, hc] at h
      rcases grantNamespace_holds h with hold | ⟨rfl, rfl⟩
      · exact .inl hold
      · exact .inr (.owner rfl (congrArg Prod.snd hc))
  | subscribe peer channel filters =>
    rcases subscribeWithFilters_cases broker peer channel filters with ⟨error, hc⟩ | ⟨-, hc⟩
    · simp only [exec, hc] at h
      exact .inl h
    · simp only [exec, hc] at h
      rcases addSubscriber_holds h with hold | ⟨rfl, rfl⟩
      · exact .inl hold
      · exact .inr (.subscriber rfl (congrArg Prod.snd hc))
  | unsubscribe peer channel =>
    rcases unsubscribe_cases broker peer channel with ⟨result, hc⟩ | ⟨subscribers, hsubs, hc⟩
    · simp only [exec, hc] at h
      exact .inl h
    · simp only [exec, hc] at h
      exact .inl (unsubscribe_holds hsubs h)
  | registerDbusName peer name =>
    rcases registerDbusName_cases broker peer name with ⟨error, hc⟩ | ⟨-, hc⟩
    · simp only [exec, hc] at h
      exact .inl h
    · simp only [exec, hc] at h
      rcases insertDbusName_holds h with hold | ⟨rfl, rfl⟩
      · exact .inl hold
      · exact .inr (.dbusName rfl (congrArg Prod.snd hc))
  | beginDelivery sender message nowMs =>
    exact .inl (h.of_sameRegistry (beginDelivery_sameRegistry broker sender message nowMs))
  | acknowledge peer messageId policy =>
    exact .inl (h.of_sameRegistry (acknowledge_sameRegistry broker peer messageId policy))
  | tick nowMs => exact .inl (h.of_sameRegistry (tick_sameRegistry broker nowMs))
  | drainEvents =>
    have hsame : SameRegistry broker (exec broker .drainEvents).1 := ⟨rfl, rfl, rfl, rfl, rfl, rfl, rfl, rfl⟩
    exact .inl (h.of_sameRegistry hsame)

theorem not_holds_disconnected (hintegrity : Integrity broker) {id : PeerId} {action : Action} :
    ¬ Holds (exec broker (.disconnect id)).1 id action := by
  intro h
  rcases disconnectWithEvents_cases broker id with ⟨hunknown, hd⟩ | ⟨-, hd⟩
  · simp only [exec, hd] at h
    rw [Holds.isConnected hintegrity h] at hunknown
    cases hunknown
  · simp only [exec, hd] at h
    exact (releasePeer_holds h).2 rfl

/-- What a call gives was permitted, to a peer that is still there. -/
theorem Gains.permits (hintegrity : Integrity broker) {op : Op} {id : PeerId} {action : Action}
    (h : Gains broker op id action) : Permits broker.policy (exec broker op).1 id action := by
  have hasked : broker.authorize id action = .ok () → op ≠ .disconnect id →
      Permits broker.policy (exec broker op).1 id action :=
    fun hauthorize hop => (authorize_eq_ok.mp hauthorize).after hintegrity hop
  cases h with
  | connected hop hok hpeer => exact ⟨_, hpeer, connectSession_authorized hok⟩
  | owner hop hok => exact hasked (claim_authorized hok) (by simp [hop])
  | subscriber hop hok => exact hasked (subscribe_authorized hok) (by simp [hop])
  | dbusName hop hok => exact hasked (registerDbusName_authorized hok) (by simp [hop])

theorem exec_holds (hintegrity : Integrity broker) (op : Op) {id : PeerId} {action : Action}
    (h : Holds (exec broker op).1 id action) :
    (Holds broker id action ∧ op ≠ .disconnect id) ∨ Permits broker.policy (exec broker op).1 id action := by
  rcases exec_gains op h with hold | hgains
  · refine .inl ⟨hold, ?_⟩
    rintro rfl
    exact not_holds_disconnected hintegrity h
  · exact .inr (hgains.permits hintegrity)

/-- The broker asks this policy, and it permits what every peer has. -/
structure Authorized (policy : P) (broker : Broker P) : Prop where
  asked : broker.policy = policy
  holds : ∀ id action, Holds broker id action → Permits policy broker id action

theorem authorized_empty (policy : P) (limits : Limits) (capabilities : Capabilities) :
    Authorized policy (Broker.empty policy limits capabilities) := by
  refine ⟨rfl, fun id action h => ?_⟩
  cases h with
  | connected h => cases h
  | owner h => cases h
  | subscriber h _ => cases h
  | dbusName h => cases h

theorem exec_authorized (hintegrity : Integrity broker) (h : Authorized policy broker) (op : Op) :
    Authorized policy (exec broker op).1 := by
  refine ⟨(exec_settings broker op).1.trans h.asked, fun id action hholds => ?_⟩
  rcases exec_holds hintegrity op hholds with ⟨hold, hop⟩ | hpermits
  · exact (h.holds id action hold).after hintegrity hop
  · rwa [h.asked] at hpermits

/-! ## Messages and responses -/

/-- During the history the peer submitted the frame, in a state in which `Q` holds. -/
def Called (start : Broker P) (history : List (Op × Reply)) (sender : PeerId) (frame : Frame)
    (Q : Broker P → Prop) : Prop :=
  ∃ earlier nowMs reply later b, history = earlier ++ (.beginDelivery sender frame nowMs, reply) :: later ∧
    Run exec start earlier b ∧ Q b

theorem Called.mono {sender : PeerId} {frame : Frame} {Q : Broker P → Prop} (h : Called start history sender frame Q)
    (more : List (Op × Reply)) : Called start (history ++ more) sender frame Q := by
  obtain ⟨earlier, nowMs, reply, later, b, rfl, hrun, hQ⟩ := h
  exact ⟨earlier, nowMs, reply, later ++ more, b, by simp, hrun, hQ⟩

theorem Called.now {sender : PeerId} {frame : Frame} {Q : Broker P → Prop} {nowMs : UInt64} {op : Op} {reply : Reply}
    (hrun : Run exec start history broker) (hop : op = .beginDelivery sender frame nowMs) (hQ : Q broker) :
    Called start (history ++ [(op, reply)]) sender frame Q :=
  ⟨history, nowMs, reply, [], broker, by rw [hop], hrun, hQ⟩

/-- How the message and the responses of an entry came in. -/
structure Origin (policy : P) (start : Broker P) (history : List (Op × Reply)) (pending : PendingDelivery) : Prop where
  message : ∃ m, pending.message = .message m ∧
    Called start history pending.sender (.message m) fun b => MaySend policy b pending.sender m.destination
  responses : ∀ peer frame, pending.responses.get? peer = some frame → pending.recipients.contains peer = true ∧
    Called start history peer frame fun b => b.peers.contains peer = true

theorem Origin.mono {pending : PendingDelivery} (h : Origin policy start history pending)
    (more : List (Op × Reply)) : Origin policy start (history ++ more) pending := by
  obtain ⟨m, hm, hcalled⟩ := h.message
  refine ⟨⟨m, hm, hcalled.mono more⟩, fun peer frame hget => ?_⟩
  obtain ⟨hrecipient, hanswered⟩ := h.responses peer frame hget
  exact ⟨hrecipient, hanswered.mono more⟩

theorem exec_origin (hentries : Entries broker) (hpolicy : broker.policy = policy)
    (hrun : Run exec start history broker) (op : Op)
    (h : ∀ id pending, broker.deliveries.get? id = some pending → Origin policy start history pending) :
    ∀ id pending, (exec broker op).1.deliveries.get? id = some pending →
      Origin policy start (history ++ [(op, (exec broker op).2)]) pending := by
  intro id pending hafter
  cases hbefore : broker.deliveries.get? id with
  | none =>
    obtain ⟨sender, m, nowMs, _, _, _, hop, -, hrouted, -, rfl, -⟩ := inserted_spec hentries hbefore hafter
    refine ⟨⟨m, rfl, .now hrun hop ?_⟩, fun _ _ hget => by cases hget⟩
    exact hpolicy ▸ route_maySend hrouted.route
  | some old =>
    have hold := (h id old hbefore).mono [(op, (exec broker op).2)]
    have heffect := exec_effect hentries op id
    rw [hbefore, hafter] at heffect
    generalize eventsAbout id _ = events at heffect
    generalize hnow : some pending = after at heffect
    cases heffect with
    | untouched _ =>
      cases hnow
      exact hold
    | acknowledged _ _ _ _ _ _ =>
      split_ifs at hnow
      cases hnow
      exact ⟨hold.message, hold.responses⟩
    | @answered _ _ response sender _ hcall _ _ _ _ hrecipient _ =>
      split_ifs at hnow
      cases hnow
      refine ⟨hold.message, fun peer frame hget => ?_⟩
      change (addResponse old sender response).get? peer = some frame at hget
      unfold addResponse at hget
      rw [OrdMap.get?_insert] at hget
      split_ifs at hget with hpeer
      · cases hget
        obtain ⟨_, hadmitted⟩ := hcall.admitted
        rw [hpeer]
        exact ⟨hrecipient, .now hrun hcall.1 hadmitted.connected⟩
      · exact hold.responses peer frame hget
    | ticked _ =>
      rw [afterTick_eq_some hnow.symm]
      exact ⟨hold.message, hold.responses⟩
    | recipientLost _ _ => cases hnow

/-- The state of a run, with the history that led to it. -/
structure Justified (policy : P) (start : Broker P) (history : List (Op × Reply)) (broker : Broker P) : Prop
    extends Sound broker, Authorized policy broker where
  origin : ∀ id pending, broker.deliveries.get? id = some pending → Origin policy start history pending

theorem run_justified {limits : Limits} {capabilities : Capabilities}
    (hrun : Run exec (Broker.empty policy limits capabilities) history broker) :
    Justified policy (Broker.empty policy limits capabilities) history broker := by
  generalize hstart : Broker.empty policy limits capabilities = start at hrun
  induction hrun with
  | nil =>
    subst hstart
    exact ⟨sound_empty policy limits capabilities, authorized_empty policy limits capabilities,
      fun _ _ hget => by cases hget⟩
  | @snoc b b' history op reply hrun hstep ih =>
    obtain ⟨hsound, hauthorized, horigin⟩ := ih
    have hsound' := exec_sound b op hsound
    have hauthorized' := exec_authorized hsound.integrity hauthorized op
    have horigin' := exec_origin hsound.entries hauthorized.asked hrun op horigin
    rw [hstep] at hsound' hauthorized' horigin'
    exact ⟨hsound', hauthorized', horigin'⟩

/-! ## Deliveries -/

/-- A frame that its sender was permitted to send when it was submitted. -/
def Sendable (policy : P) (start : Broker P) (history : List (Op × Reply)) (sender : PeerId) (m : Message) : Prop :=
  Called start history sender (.message m) fun b => MaySend policy b sender m.destination

/-- A response for the requester of a pending request. The caller that completes the exchange and the peer that
submitted the response are recipients of the request. -/
def Answers (start : Broker P) (history : List (Op × Reply)) (broker : Broker P) (sender : PeerId)
    (recipients : List PeerId) (m : Message) : Prop :=
  ∃ pending request, broker.deliveries.get? m.correlationId = some pending ∧ pending.message = .message request ∧
    request.kind = .request ∧ recipients = [pending.sender] ∧ pending.recipients.contains sender = true ∧
    ∃ submitter, pending.recipients.contains submitter = true ∧
      Called start history submitter (.message m) fun b => b.peers.contains submitter = true

/-- What a delivery of the next call goes back to. -/
theorem Justified.deliver (h : Justified policy start history broker) (hrun : Run exec start history broker) {op : Op}
    {sender : PeerId} {recipients : List PeerId} {frame : Frame}
    (hevent : .deliver sender recipients frame ∈ (exec broker op).2.events) :
    ∃ m, frame = .message m ∧
      (m.kind ≠ .response → Sendable policy start (history ++ [(op, (exec broker op).2)]) sender m) ∧
      (m.kind = .response →
        Answers start (history ++ [(op, (exec broker op).2)]) broker sender recipients m) := by
  rcases deliver_cases hevent with ⟨m, nowMs, _, _, hop, rfl, hrouted, -⟩ | ⟨nowMs, id, pending, -, hpending, heq⟩ |
    ⟨response, nowMs, pending, request, hop, hkind, hexpected, hrecipients, hforward⟩
  · refine ⟨m, rfl, fun _ => .now hrun hop ?_, fun hresponse => absurd hresponse hrouted.kind⟩
    exact h.asked ▸ route_maySend hrouted.route
  · obtain ⟨m, hm, hcalled⟩ := ((h.origin id pending hpending).mono [(op, (exec broker op).2)]).message
    obtain ⟨m', hm', -, hkind, -⟩ := (h.entries id pending hpending).message
    cases heq
    cases hm.symm.trans hm'
    exact ⟨m, hm, fun _ => hcalled, fun hresponse => absurd hresponse hkind⟩
  · obtain ⟨r, rfl, hr, hid⟩ := forwarded_response (h.entries _ _ hexpected.found) hkind rfl hforward
    refine ⟨r, rfl, fun hnot => absurd hr hnot, fun _ => ?_⟩
    refine ⟨pending, request, hid ▸ hexpected.found, hexpected.message, hexpected.kind, hrecipients,
      hexpected.recipient, ?_⟩
    rcases forwarded_cases hforward with heq | ⟨peer, hpeer⟩
    · cases heq
      subst hop
      obtain ⟨_, hadmitted⟩ := (submits_of_events hevent).admitted
      exact ⟨sender, hexpected.recipient, .now hrun rfl hadmitted.connected⟩
    · obtain ⟨hrecipient, hanswered⟩ :=
        ((h.origin _ _ hexpected.found).mono [(op, (exec broker op).2)]).responses peer _ hpeer
      exact ⟨peer, hrecipient, hanswered⟩

/-- After every run the policy permits what every peer has in the registry. Whatever the next call is, the frames
it delivers are messages that their senders were permitted to send when they submitted them, or responses for the
requester of a pending request. -/
theorem run_authorized {limits : Limits} {capabilities : Capabilities}
    (hrun : Run exec (Broker.empty policy limits capabilities) history broker) :
    (∀ id action, Holds broker id action → Permits policy broker id action) ∧
      ∀ op sender recipients frame, .deliver sender recipients frame ∈ (exec broker op).2.events →
        ∃ m, frame = .message m ∧
          (m.kind ≠ .response → Sendable policy (Broker.empty policy limits capabilities)
            (history ++ [(op, (exec broker op).2)]) sender m) ∧
          (m.kind = .response → Answers (Broker.empty policy limits capabilities)
            (history ++ [(op, (exec broker op).2)]) broker sender recipients m) := by
  have hjustified := run_justified hrun
  exact ⟨hjustified.holds, fun op sender recipients frame hevent => hjustified.deliver hrun hevent⟩

/-- The request that the second of two peers, which owns the namespace, gets from the first one. -/
def namespaceRequest : Message := plainRequest (numberedId 1) .none .none .exact (.namespace plainNamespace)

/-- Under the default policy a request to the owner of a namespace is delivered on a decision of the policy, and
so does the owner have the namespace. -/
theorem run_authorized_namespace :
    let before := run exec (Broker.empty SafeDefaults.mk .default ∅)
      [plainConnect, plainConnect, .claim (.new 2) plainNamespace]
    let op := Op.beginDelivery (.new 1) (.message namespaceRequest) 0
    Permits SafeDefaults.mk before.2 (.new 2) (.claimNamespace plainNamespace) ∧
      .deliver (.new 1) [.new 2] (.message namespaceRequest) ∈ (exec before.2 op).2.events ∧
      Sendable SafeDefaults.mk (Broker.empty SafeDefaults.mk .default ∅) (before.1 ++ [(op, (exec before.2 op).2)])
        (.new 1) namespaceRequest := by
  intro before op
  obtain ⟨hholds, hdeliver⟩ := run_authorized (run_spec _ _ : Run exec
    (Broker.empty SafeDefaults.mk .default ∅) before.1 before.2)
  have hevent : .deliver (.new 1) [.new 2] (.message namespaceRequest) ∈ (exec before.2 op).2.events := by
    decide +kernel
  obtain ⟨m, heq, hsendable, -⟩ := hdeliver op _ _ _ hevent
  cases heq
  exact ⟨hholds _ _ (.owner (by decide +kernel)), hevent, hsendable (by decide)⟩

end Busd.Broker
