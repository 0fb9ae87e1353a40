import Busd.Broker.Effects
import Busd.Lib.Codec

/-!
# Registry integrity

Every identity the broker stores belongs to a connected peer, whatever the order of the calls.

* `Integrity` : the joint invariant over the five maps;
* `route_connected` : every routing mode selects connected peers, because of the other parts;
* `exec_integrity` : every call preserves it;
* `registry_integrity` : it holds after every run, and the identities handed out are never reused.
-/

namespace Busd.Broker

open Words Machine Busd.Protocol Busd.Policy
open Codec (bind_eq_ok)

variable {P : Type} {broker : Broker P}

/-- Who is connected and who is stored where. -/
structure Integrity (broker : Broker P) : Prop where
  next : 1 ≤ broker.nextPeer
  peer : ∀ id peer, broker.peers.get? id = some peer →
    peer.id = id ∧ 1 ≤ id.get ∧ id.get < broker.nextPeer
  «namespace» : ∀ ns owner, broker.namespaces.get? ns = some owner → broker.peers.contains owner = true
  dbusName : ∀ name owner, broker.dbusNames.get? name = some owner → broker.peers.contains owner = true
  channel : ∀ channel subscribers, broker.subscriptions.get? channel = some subscribers →
    subscribers.isEmpty = false ∧
      ∀ peer, subscribers.contains peer = true → broker.peers.contains peer = true
  recipient : ∀ id pending, broker.deliveries.get? id = some pending →
    ∀ peer, pending.recipients.contains peer = true → broker.peers.contains peer = true

theorem integrity_empty (policy : P) (limits : Limits) (capabilities : Capabilities) :
    Integrity (Broker.empty policy limits capabilities) where
  next := le_refl _
  peer _ _ h := by cases h
  «namespace» _ _ h := by cases h
  dbusName _ _ h := by cases h
  channel _ _ h := by cases h
  recipient _ _ h := by cases h

/-! ## Routing -/

theorem candidates_connected [Policy P] (h : Integrity broker) {sender : PeerId} {destination : Destination}
    {headers : Headers} {recipients : List PeerId}
    (hc : broker.candidates sender destination headers = .ok recipients) :
    ∀ peer ∈ recipients, broker.peers.contains peer = true := by
  intro peer hmem
  cases destination with
  | broker => cases hc
  | peer target =>
    obtain ⟨_, -, hc⟩ := bind_eq_ok.mp hc
    cases hc
    split_ifs at hmem with htarget
    · rwa [List.mem_singleton.mp hmem]
    · cases hmem
  | «namespace» ns =>
    obtain ⟨_, -, hc⟩ := bind_eq_ok.mp hc
    cases hc
    exact h.namespace ns peer (Option.mem_toList.mp hmem)
  | channel channel =>
    obtain ⟨_, -, hc⟩ := bind_eq_ok.mp hc
    cases hc
    cases hsubs : broker.subscriptions.get? channel with
    | none =>
      rw [hsubs] at hmem
      cases hmem
    | some subscribers =>
      rw [hsubs, OrdMap.mem_keys_iff, OrdMap.contains_iff] at hmem
      obtain ⟨filters, hfilters⟩ := hmem
      rw [OrdMap.get?_filter, Option.filter_eq_some_iff] at hfilters
      exact (h.channel channel subscribers hsubs).2 peer (OrdMap.contains_iff.mpr ⟨filters, hfilters.1⟩)
  | clientId clientId selection =>
    obtain ⟨_, -, hc⟩ := bind_eq_ok.mp hc
    cases hc
    have hmatching : peer ∈
        (broker.peers.values.filter fun p => p.hello.clientId = some clientId).map Peer.id := by
      cases selection with
      | first => exact List.mem_of_mem_take hmem
      | any => exact List.mem_of_mem_take hmem
      | all => exact hmem
    obtain ⟨found, hfound, rfl⟩ := List.mem_map.mp hmatching
    obtain ⟨id, hid⟩ := OrdMap.mem_values_iff.mp (List.mem_filter.mp hfound).1
    rw [(h.peer id found hid).1]
    exact OrdMap.contains_iff.mpr ⟨found, hid⟩
  | broadcast =>
    obtain ⟨_, -, hc⟩ := bind_eq_ok.mp hc
    cases hc
    exact OrdMap.mem_keys_iff.mp (List.mem_filter.mp hmem).1

theorem route_connected [Policy P] (h : Integrity broker) {sender : PeerId} {destination : Destination}
    {headers : Headers} {recipients : List PeerId}
    (hroute : broker.route sender destination headers = .ok recipients) :
    ∀ peer ∈ recipients, broker.peers.contains peer = true := by
  obtain ⟨_, -, hroute⟩ := bind_eq_ok.mp hroute
  obtain ⟨found, hfound, hroute⟩ := bind_eq_ok.mp hroute
  have heq : found = recipients := by
    split_ifs at hroute
    · cases hroute
      rfl
    · cases hroute
      rfl
  rw [← heq]
  exact candidates_connected h hfound

/-! ## Calls -/

/-- A call that leaves the registry alone and retains only connected recipients. -/
theorem Integrity.of_sameRegistry {b b' : Broker P} (h : Integrity b) (hsame : SameRegistry b b')
    (hrecipient : ∀ id pending, b'.deliveries.get? id = some pending →
      ∀ peer, pending.recipients.contains peer = true → b.peers.contains peer = true) : Integrity b' where
  next := hsame.nextPeer ▸ h.next
  peer id peer hget := by
    rw [hsame.peers] at hget
    rw [hsame.nextPeer]
    exact h.peer id peer hget
  «namespace» ns owner hget := by
    rw [hsame.namespaces] at hget
    rw [hsame.peers]
    exact h.namespace ns owner hget
  dbusName name owner hget := by
    rw [hsame.dbusNames] at hget
    rw [hsame.peers]
    exact h.dbusName name owner hget
  channel channel subscribers hget := by
    rw [hsame.subscriptions] at hget
    rw [hsame.peers]
    exact h.channel channel subscribers hget
  recipient id pending hget peer hpeer := by
    rw [hsame.peers]
    exact hrecipient id pending hget peer hpeer

theorem connect_integrity (h : Integrity broker) {credentials : Credentials} {hello : ClientHello}
    {capabilities : Capabilities} {nextPeer : UInt64} (hnext : checkedAdd broker.nextPeer 1 = some nextPeer) :
    Integrity (broker.admitPeer credentials hello capabilities nextPeer) := by
  have hlt : broker.nextPeer < nextPeer := lt_of_checkedAdd (by decide) hnext
  have hgrow : ∀ id, broker.peers.contains id = true →
      (broker.admitPeer credentials hello capabilities nextPeer).peers.contains id = true :=
    fun id hid => contains_admitPeer.mpr (.inr hid)
  refine ⟨h.next.trans hlt.le, ?_, ?_, ?_, ?_, ?_⟩
  · intro id peer hget
    change (broker.peers.insert (.new broker.nextPeer) _).get? id = some peer at hget
    rw [OrdMap.get?_insert] at hget
    split_ifs at hget with heq
    · cases hget
      subst heq
      exact ⟨rfl, h.next, hlt⟩
    · obtain ⟨hid, hpos, hbound⟩ := h.peer id peer hget
      exact ⟨hid, hpos, hbound.trans hlt⟩
  · intro ns owner hget
    exact hgrow owner (h.namespace ns owner hget)
  · intro name owner hget
    exact hgrow owner (h.dbusName name owner hget)
  · intro channel subscribers hget
    obtain ⟨hne, hall⟩ := h.channel channel subscribers hget
    exact ⟨hne, fun peer hpeer => hgrow peer (hall peer hpeer)⟩
  · intro id pending hget peer hpeer
    exact hgrow peer (h.recipient id pending hget peer hpeer)

theorem claim_integrity (h : Integrity broker) {peer : PeerId} {ns : Namespace}
    (hpeer : broker.peers.contains peer = true) : Integrity (broker.grantNamespace peer ns) := by
  refine ⟨h.next, h.peer, ?_, h.dbusName, h.channel, h.recipient⟩
  intro ns' owner hget
  change (broker.namespaces.insert ns peer).get? ns' = some owner at hget
  rw [OrdMap.get?_insert] at hget
  split_ifs at hget with heq
  · cases hget
    exact hpeer
  · exact h.namespace ns' owner hget

theorem registerDbusName_integrity (h : Integrity broker) {peer : PeerId} {name : String}
    (hpeer : broker.peers.contains peer = true) :
    Integrity { broker with dbusNames := broker.dbusNames.insert name peer } := by
  refine ⟨h.next, h.peer, h.namespace, ?_, h.channel, h.recipient⟩
  intro name' owner hget
  rw [OrdMap.get?_insert] at hget
  split_ifs at hget with heq
  · cases hget
    exact hpeer
  · exact h.dbusName name' owner hget

theorem subscribersOf_connected (h : Integrity broker) {channel : Channel} {peer : PeerId}
    (hpeer : (broker.subscribersOf channel).contains peer = true) : broker.peers.contains peer = true := by
  unfold subscribersOf at hpeer
  cases hsubs : broker.subscriptions.get? channel with
  | none =>
    rw [hsubs] at hpeer
    cases hpeer
  | some subscribers =>
    rw [hsubs] at hpeer
    exact (h.channel channel subscribers hsubs).2 peer hpeer

theorem subscribe_integrity (h : Integrity broker) {peer : PeerId} {channel : Channel}
    {filters : List HeaderFilter} (hpeer : broker.peers.contains peer = true) :
    Integrity (broker.addSubscriber peer channel filters) := by
  refine ⟨h.next, h.peer, h.namespace, h.dbusName, ?_, h.recipient⟩
  intro channel' subscribers hget
  change (broker.subscriptions.insert channel _).get? channel' = some subscribers at hget
  rw [OrdMap.get?_insert] at hget
  split_ifs at hget with heq
  · cases hget
    refine ⟨?_, fun p hp => ?_⟩
    · rw [Bool.eq_false_iff]
      intro hempty
      have := OrdMap.isEmpty_iff.mp hempty peer
      rw [OrdMap.get?_insert, if_pos rfl] at this
      cases this
    · rcases OrdMap.contains_insert.mp hp with rfl | hp
      · exact hpeer
      · exact subscribersOf_connected h hp
  · exact h.channel channel' subscribers hget

theorem unsubscribe_integrity (h : Integrity broker) {peer : PeerId} {channel : Channel}
    {subscribers : OrdMap PeerId (List HeaderFilter)}
    (hsubs : broker.subscriptions.get? channel = some subscribers) :
    Integrity { broker with
      subscriptions :=
        if (subscribers.erase peer).isEmpty then broker.subscriptions.erase channel
        else broker.subscriptions.insert channel (subscribers.erase peer) } := by
  refine ⟨h.next, h.peer, h.namespace, h.dbusName, ?_, h.recipient⟩
  intro channel' subscribers' hget
  change (ite _ _ _ : OrdMap Channel _).get? channel' = some subscribers' at hget
  split_ifs at hget with hempty
  · rw [OrdMap.get?_erase] at hget
    split_ifs at hget
    exact h.channel channel' subscribers' hget
  · rw [OrdMap.get?_insert] at hget
    split_ifs at hget with heq
    · cases hget
      exact ⟨by simpa using hempty, fun p hp => (h.channel channel subscribers hsubs).2 p (OrdMap.contains_erase.mp hp).2⟩
    · exact h.channel channel' subscribers' hget

/-- A peer that leaves takes every mention of it along. -/
theorem disconnect_integrity (h : Integrity broker) (peer : PeerId) :
    Integrity { broker.releasePeer peer with deliveries := broker.remaining peer } := by
  have hstay : ∀ id, broker.peers.contains id = true → id ≠ peer → (broker.peers.erase peer).contains id = true :=
    fun id hid hne => OrdMap.contains_erase.mpr ⟨hne, hid⟩
  refine ⟨h.next, ?_, ?_, ?_, ?_, ?_⟩
  · intro id p hget
    change (broker.peers.erase peer).get? id = some p at hget
    rw [OrdMap.get?_erase] at hget
    split_ifs at hget
    exact h.peer id p hget
  · intro ns owner hget
    change (broker.namespaces.filter fun _ owner => owner ≠ peer).get? ns = some owner at hget
    rw [OrdMap.get?_filter, Option.filter_eq_some_iff] at hget
    exact hstay owner (h.namespace ns owner hget.1) (of_decide_eq_true hget.2)
  · intro name owner hget
    change (broker.dbusNames.filter fun _ owner => owner ≠ peer).get? name = some owner at hget
    rw [OrdMap.get?_filter, Option.filter_eq_some_iff] at hget
    exact hstay owner (h.dbusName name owner hget.1) (of_decide_eq_true hget.2)
  · intro channel subscribers hget
    change (broker.subscriptions.filterMap _).get? channel = some subscribers at hget
    rw [OrdMap.get?_filterMap, Option.bind_eq_some_iff] at hget
    obtain ⟨old, hold, hkept⟩ := hget
    unfold withoutSubscriber at hkept
    simp only [] at hkept
    split_ifs at hkept with hempty
    cases hkept
    refine ⟨by simpa using hempty, fun p hp => ?_⟩
    obtain ⟨hne, hp⟩ := OrdMap.contains_erase.mp hp
    exact hstay p ((h.channel channel old hold).2 p hp) hne
  · intro id pending hget p hp
    change (broker.deliveries.filter _).get? id = some pending at hget
    rw [OrdMap.get?_filter, Option.filter_eq_some_iff] at hget
    refine hstay p (h.recipient id pending hget.1 p hp) ?_
    rintro rfl
    simp [hp] at hget

variable [Policy P]

/-- The recipients of every entry after a call were connected before it. -/
theorem exec_recipients (h : Integrity broker) (hentries : Entries broker) (op : Op) :
    ∀ id pending, (exec broker op).1.deliveries.get? id = some pending →
      ∀ peer, pending.recipients.contains peer = true → broker.peers.contains peer = true := by
  refine exec_static hentries (fun _ a b hsame hold peer hpeer => hold peer (hsame.recipients ▸ hpeer)) ?_ ?_
  · exact h.recipient
  · intro id pending hfresh hafter peer hpeer
    obtain ⟨_, _, _, _, recipients, _, -, -, hrouted, -, rfl, -⟩ := inserted_spec hentries hfresh hafter
    exact route_connected h hrouted.route peer (OrdSet.contains_ofList.mp hpeer)

theorem exec_integrity (h : Integrity broker) (hentries : Entries broker) (op : Op) :
    Integrity (exec broker op).1 := by
  have hrecipients := exec_recipients h hentries op
  cases op with
  | connect credentials hello =>
    rcases connectSession_cases broker credentials hello with ⟨error, hc⟩ | ⟨_, _, hnext, hc⟩
    · simpa [exec, hc] using h
    · simpa [exec, hc] using connect_integrity h hnext
  | disconnect peer =>
    rcases disconnectWithEvents_cases broker peer with ⟨-, hc⟩ | ⟨-, hc⟩
    · simpa [exec, hc] using h
    · simpa [exec, hc] using disconnect_integrity h peer
  | claim peer ns =>
    rcases claim_cases broker peer ns with ⟨error, hc⟩ | ⟨hpeer, -, hc⟩
    · simpa [exec, hc] using h
    · simpa [exec, hc] using claim_integrity h hpeer
  | subscribe peer channel filters =>
    rcases subscribeWithFilters_cases broker peer channel filters with ⟨error, hc⟩ | ⟨hpeer, hc⟩
    · simpa [exec, hc] using h
    · simpa [exec, hc] using subscribe_integrity h hpeer
  | unsubscribe peer channel =>
    rcases unsubscribe_cases broker peer channel with ⟨result, hc⟩ | ⟨subscribers, hsubs, hc⟩
    · simpa [exec, hc] using h
    · simpa [exec, hc] using unsubscribe_integrity h hsubs
  | registerDbusName peer name =>
    rcases registerDbusName_cases broker peer name with ⟨error, hc⟩ | ⟨hpeer, hc⟩
    · simpa [exec, hc] using h
    · simpa [exec, hc] using registerDbusName_integrity h hpeer
  | beginDelivery sender message nowMs =>
    exact h.of_sameRegistry (beginDelivery_sameRegistry broker sender message nowMs) hrecipients
  | acknowledge peer messageId policy =>
    exact h.of_sameRegistry (acknowledge_sameRegistry broker peer messageId policy) hrecipients
  | tick nowMs => exact h.of_sameRegistry (tick_sameRegistry broker nowMs) hrecipients
  | drainEvents => exact h.of_sameRegistry ⟨rfl, rfl, rfl, rfl, rfl, rfl, rfl, rfl⟩ h.recipient

/-! ## Runs -/

/-- The joint invariant of the two parts of the state. -/
structure Sound (broker : Broker P) : Prop where
  integrity : Integrity broker
  entries : Entries broker

omit [Policy P] in
theorem sound_empty (policy : P) (limits : Limits) (capabilities : Capabilities) :
    Sound (Broker.empty policy limits capabilities) :=
  ⟨integrity_empty policy limits capabilities, entries_empty policy limits capabilities⟩

theorem exec_sound (broker : Broker P) (op : Op) (h : Sound broker) : Sound (exec broker op).1 :=
  ⟨exec_integrity h.integrity h.entries op, exec_entries broker op h.entries⟩

theorem run_sound {b b' : Broker P} {history : List (Op × Reply)} (hrun : Run exec b history b')
    (h : Sound b) : Sound b' :=
  hrun.invariant exec_sound h

def Reply.assigned : Reply → Option PeerId
  | .connected (.ok session) => some session.id
  | _ => none

def assigned (history : List (Op × Reply)) : List PeerId := history.filterMap fun e => e.2.assigned

/-- A call hands out the next identity or none; the next identity never goes down. -/
theorem exec_assigned (broker : Broker P) (op : Op) :
    ((exec broker op).2.assigned = none ∧ broker.nextPeer ≤ (exec broker op).1.nextPeer) ∨
      (exec broker op).2.assigned = some (.new broker.nextPeer) ∧
        broker.nextPeer < (exec broker op).1.nextPeer := by
  cases op with
  | connect credentials hello =>
    rcases connectSession_cases broker credentials hello with ⟨error, h⟩ | ⟨_, nextPeer, hnext, h⟩
    · exact .inl ⟨by simp [exec, h, Reply.assigned], by simp [exec, h]⟩
    · have hlt : broker.nextPeer < nextPeer := lt_of_checkedAdd (by decide) hnext
      have hafter : (exec broker (.connect credentials hello)).1.nextPeer = nextPeer := by
        simp only [exec, h]
        rfl
      exact .inr ⟨by simp [exec, h, Reply.assigned], hafter ▸ hlt⟩
  | disconnect peer => exact .inl ⟨rfl, (disconnect_nextPeer broker peer).1.ge⟩
  | _ => exact .inl ⟨rfl, (exec_samePeers broker (fun _ _ h => by cases h) fun _ h => by cases h).nextPeer.ge⟩

/-- The identities handed out so far are distinct, not zero, and below the next one. -/
theorem run_assigned {b b' : Broker P} {history : List (Op × Reply)} (hrun : Run exec b history b')
    (hb : 1 ≤ b.nextPeer) :
    1 ≤ b'.nextPeer ∧ (assigned history).Nodup ∧
      ∀ id ∈ assigned history, 1 ≤ id.get ∧ id.get < b'.nextPeer := by
  induction hrun with
  | nil => exact ⟨hb, List.nodup_nil, fun id hid => absurd hid List.not_mem_nil⟩
  | @snoc s' s'' history op reply _ hexec ih =>
    obtain ⟨hnext, hnodup, hall⟩ := ih
    have hstep := exec_assigned s' op
    rw [hexec] at hstep
    unfold assigned at hnodup hall ⊢
    rw [List.filterMap_append]
    rcases hstep with ⟨hnone, hle⟩ | ⟨hsome, hlt⟩
    · have hlast : [(op, reply)].filterMap (fun e => e.2.assigned) = [] := by simp [hnone]
      rw [hlast, List.append_nil]
      exact ⟨hnext.trans hle, hnodup, fun id hid => ⟨(hall id hid).1, (hall id hid).2.trans_le hle⟩⟩
    · have hlast : [(op, reply)].filterMap (fun e => e.2.assigned) = [PeerId.new s'.nextPeer] := by
        simp [hsome]
      rw [hlast]
      refine ⟨hnext.trans hlt.le, ?_, ?_⟩
      · refine List.nodup_append.mpr ⟨hnodup, List.nodup_singleton _, fun id hid id' hid' heq => ?_⟩
        rw [List.mem_singleton] at hid'
        have hbelow := (hall id hid).2
        rw [heq, hid'] at hbelow
        exact lt_irrefl _ hbelow
      · intro id hid
        rcases List.mem_append.mp hid with hid | hid
        · exact ⟨(hall id hid).1, (hall id hid).2.trans hlt⟩
        · rw [List.mem_singleton.mp hid]
          exact ⟨hnext, hlt⟩

/-- After every run the registry is sound, and no identity was handed out twice. -/
theorem registry_integrity {policy : P} {limits : Limits} {capabilities : Capabilities}
    {history : List (Op × Reply)} {broker : Broker P}
    (hrun : Run exec (Broker.empty policy limits capabilities) history broker) :
    Integrity broker ∧ (assigned history).Nodup ∧ ∀ id ∈ assigned history, id.get ≠ 0 := by
  have hsound := run_sound hrun (sound_empty policy limits capabilities)
  obtain ⟨-, hnodup, hall⟩ := run_assigned hrun (le_refl _)
  refine ⟨hsound.integrity, hnodup, fun id hid hzero => ?_⟩
  have hpos := (hall id hid).1
  rw [hzero] at hpos
  exact absurd hpos (by decide)

/-- A peer that comes back gets a new identity. -/
theorem registry_integrity_reconnect :
    let result := run exec (Broker.empty AllowAll.mk .default ∅)
      [plainConnect, plainConnect, .disconnect (.new 1), plainConnect]
    assigned result.1 = [.new 1, .new 2, .new 3] ∧
      Integrity result.2 ∧ (assigned result.1).Nodup ∧ ∀ id ∈ assigned result.1, id.get ≠ 0 :=
  ⟨by decide +kernel, registry_integrity (run_spec _ _)⟩

end Busd.Broker
