import Busd.Broker.Quotas

/-!
# What a peer has registered

The namespaces a peer owns and the filters of its subscriptions, as far as other peers can change them, and when
the broker accepts more of them.

* `filtersOf` : the filters under which a peer is subscribed to a channel;
* `exec_registrations` : nobody but the peer itself changes what it has registered;
* `claim_of`, `subscribe_of` : when a claim or a subscription is accepted;
* `namespaces_eq_card`, `subscriptions_eq_card` : what the limits count.
-/

namespace Busd.Broker

open Words Machine Busd.Protocol Busd.Policy

variable {P : Type} {broker : Broker P} {id peer : PeerId} {channel channel' : Channel}

/-! ## Subscriptions -/

/-- The filters under which a peer is subscribed to a channel. -/
def filtersOf (broker : Broker P) (id : PeerId) (channel : Channel) : Option (List HeaderFilter) :=
  (broker.subscribersOf channel).get? id

theorem filtersOf_eq (broker : Broker P) (id : PeerId) (channel : Channel) :
    filtersOf broker id channel = (broker.subscriptions.get? channel).bind fun subscribers => subscribers.get? id := by
  unfold filtersOf subscribersOf
  cases broker.subscriptions.get? channel with
  | none => rfl
  | some subscribers => rfl

theorem filtersOf_addSubscriber (broker : Broker P) (peer : PeerId) (channel : Channel) (filters : List HeaderFilter) :
    filtersOf (broker.addSubscriber peer channel filters) id channel' =
      if channel' = channel ∧ id = peer then some filters else filtersOf broker id channel' := by
  rw [filtersOf_eq]
  change ((broker.subscriptions.insert channel _).get? channel').bind _ = _
  rw [OrdMap.get?_insert]
  by_cases hchannel : channel' = channel
  · rw [if_pos hchannel, hchannel]
    simp only [Option.bind_some, OrdMap.get?_insert, true_and]
    split_ifs <;> rfl
  · rw [if_neg hchannel, if_neg fun h => hchannel h.1, filtersOf_eq]

/-- What is left of a channel when one subscriber is gone, kept or not if that is nothing. -/
theorem get?_bind_erase {subscriptions : OrdMap Channel (OrdMap PeerId (List HeaderFilter))}
    {subscribers : OrdMap PeerId (List HeaderFilter)} (hsubs : subscriptions.get? channel = some subscribers) :
    ((if (subscribers.erase peer).isEmpty then subscriptions.erase channel
        else subscriptions.insert channel (subscribers.erase peer)).get? channel').bind (fun s => s.get? id) =
      if channel' = channel ∧ id = peer then none else (subscriptions.get? channel').bind fun s => s.get? id := by
  have hleft : ∀ hchannel : channel' = channel, (subscribers.erase peer).get? id =
      if channel' = channel ∧ id = peer then none else (subscriptions.get? channel').bind fun s => s.get? id := by
    intro hchannel
    rw [OrdMap.get?_erase, hchannel, hsubs]
    simp
  by_cases hchannel : channel' = channel
  · rw [← hleft hchannel]
    split_ifs with hempty
    · rw [OrdMap.get?_erase, if_pos hchannel, OrdMap.isEmpty_iff.mp hempty id]
      rfl
    · rw [OrdMap.get?_insert, if_pos hchannel]
      rfl
  · have hother : ¬ (channel' = channel ∧ id = peer) := fun h => hchannel h.1
    simp only [hother, if_false]
    split_ifs
    · rw [OrdMap.get?_erase, if_neg hchannel]
    · rw [OrdMap.get?_insert, if_neg hchannel]

theorem filtersOf_releasePeer (broker : Broker P) (gone : PeerId) (hne : id ≠ gone) :
    filtersOf (broker.releasePeer gone) id channel = filtersOf broker id channel := by
  rw [filtersOf_eq, filtersOf_eq]
  change ((broker.subscriptions.filterMap _).get? channel).bind _ = _
  rw [OrdMap.get?_filterMap]
  cases broker.subscriptions.get? channel with
  | none => rfl
  | some subscribers =>
    simp only [Option.bind_some, withoutSubscriber]
    have hkept : (subscribers.erase gone).get? id = subscribers.get? id := by
      rw [OrdMap.get?_erase, if_neg hne]
    rw [← hkept]
    split_ifs with hempty
    · rw [OrdMap.isEmpty_iff.mp hempty id]
      rfl
    · rfl

/-! ## What the limits count -/

theorem namespaces_eq_card {s : Finset Namespace} (h : ∀ ns, ns ∈ s ↔ broker.namespaces.get? ns = some id) :
    (usage broker id).namespaces = s.card := by
  refine OrdMap.length_filter_values_eq_card fun ns => ?_
  rw [h]
  simp

theorem subscriptions_eq_card {s : Finset Channel} (h : ∀ channel, channel ∈ s ↔ (filtersOf broker id channel).isSome) :
    (usage broker id).subscriptions = s.card := by
  refine OrdMap.length_filter_values_eq_card fun channel => ?_
  rw [h, filtersOf_eq]
  cases broker.subscriptions.get? channel with
  | none => simp
  | some subscribers => simp [OrdMap.contains]

/-! ## What other peers do -/

/-- The peer whose registrations a call changes. -/
def Op.registrant : Op → Option PeerId
  | .claim peer _ | .subscribe peer _ _ | .unsubscribe peer _ | .disconnect peer => some peer
  | _ => none

/-- A peer owns the same namespaces in both states, and is subscribed to the same channels. -/
structure SameRegistrations (before after : Broker P) (id : PeerId) : Prop where
  owner : ∀ ns, after.namespaces.get? ns = some id ↔ before.namespaces.get? ns = some id
  filters : ∀ channel, filtersOf after id channel = filtersOf before id channel

theorem SameRegistry.registrations {before after : Broker P} (h : SameRegistry before after) (id : PeerId) :
    SameRegistrations before after id where
  owner ns := by rw [h.namespaces]
  filters channel := by rw [filtersOf_eq, filtersOf_eq, h.subscriptions]

variable [Policy P]

/-- Nobody but the peer itself changes what it has registered. -/
theorem exec_registrations (broker : Broker P) {op : Op} (hop : op.registrant ≠ some id) :
    SameRegistrations broker (exec broker op).1 id := by
  have hself : SameRegistrations broker broker id := ⟨fun _ => Iff.rfl, fun _ => rfl⟩
  cases op with
  | connect credentials hello =>
    rcases connectSession_cases broker credentials hello with ⟨error, h⟩ | ⟨_, _, -, h⟩
    · simp only [exec, h]
      exact hself
    · simp only [exec, h]
      exact ⟨fun _ => Iff.rfl, fun _ => rfl⟩
  | disconnect gone =>
    have hne : id ≠ gone := fun heq => hop (heq ▸ rfl)
    rcases disconnectWithEvents_cases broker gone with ⟨-, h⟩ | ⟨-, h⟩
    · simp only [exec, h]
      exact hself
    · simp only [exec, h]
      refine ⟨fun ns => ?_, fun channel => filtersOf_releasePeer broker gone hne⟩
      change (broker.namespaces.filter fun _ owner => owner ≠ gone).get? ns = some id ↔ _
      rw [OrdMap.get?_filter, Option.filter_eq_some_iff]
      simp [hne]
  | claim peer ns =>
    have hne : id ≠ peer := fun heq => hop (heq ▸ rfl)
    rcases claim_cases broker peer ns with ⟨error, h⟩ | ⟨-, hfree, h⟩
    · simp only [exec, h]
      exact hself
    · simp only [exec, h]
      refine ⟨fun ns' => ?_, fun _ => rfl⟩
      change (broker.namespaces.insert ns peer).get? ns' = some id ↔ _
      rw [OrdMap.get?_insert]
      split_ifs with hns
      · rw [hns, hfree]
        simp [hne.symm]
      · exact Iff.rfl
  | subscribe peer channel filters =>
    have hne : id ≠ peer := fun heq => hop (heq ▸ rfl)
    rcases subscribeWithFilters_cases broker peer channel filters with ⟨error, h⟩ | ⟨-, h⟩
    · simp only [exec, h]
      exact hself
    · simp only [exec, h]
      refine ⟨fun _ => Iff.rfl, fun channel' => ?_⟩
      exact (filtersOf_addSubscriber broker peer channel filters).trans (if_neg fun heq => hne heq.2)
  | unsubscribe peer channel =>
    have hne : id ≠ peer := fun heq => hop (heq ▸ rfl)
    rcases unsubscribe_cases broker peer channel with ⟨result, h⟩ | ⟨subscribers, hsubs, h⟩
    · simp only [exec, h]
      exact hself
    · simp only [exec, h]
      refine ⟨fun _ => Iff.rfl, fun channel' => ?_⟩
      rw [filtersOf_eq, filtersOf_eq]
      exact (get?_bind_erase hsubs).trans (if_neg fun heq => hne heq.2)
  | registerDbusName peer name =>
    rcases registerDbusName_cases broker peer name with ⟨error, h⟩ | ⟨-, h⟩
    · simp only [exec, h]
      exact hself
    · simp only [exec, h]
      exact ⟨fun _ => Iff.rfl, fun _ => rfl⟩
  | beginDelivery sender message nowMs => exact (beginDelivery_sameRegistry broker sender message nowMs).registrations id
  | acknowledge peer messageId policy => exact (acknowledge_sameRegistry broker peer messageId policy).registrations id
  | tick nowMs => exact (tick_sameRegistry broker nowMs).registrations id
  | drainEvents => exact ⟨fun _ => Iff.rfl, fun _ => rfl⟩

/-! ## What the peer itself does -/

variable {ns : Namespace} {filters : List HeaderFilter}

theorem claim_of (hauthorize : broker.authorize id (.claimNamespace ns) = .ok ())
    (hroom : (usage broker id).namespaces < broker.limits.maximumNamespaceClaims)
    (hfree : broker.namespaces.get? ns = none) : broker.claim id ns = (broker.grantNamespace id ns, .ok ()) := by
  have hlimit : ¬ broker.limits.maximumNamespaceClaims ≤ (broker.namespaces.values.filter (· = id)).length :=
    not_le.mpr hroom
  simp only [claim, orReturn, hauthorize, hlimit, if_false, hfree]

theorem subscribe_of (hauthorize : broker.authorize id (.subscribe channel) = .ok ())
    (hroom : (filtersOf broker id channel).isSome = true ∨
      (usage broker id).subscriptions < broker.limits.maximumSubscriptions) :
    broker.subscribeWithFilters id channel filters = (broker.addSubscriber id channel filters, .ok ()) := by
  have hlimit : ¬ ((!(broker.subscribersOf channel).contains id) = true ∧ broker.limits.maximumSubscriptions ≤
      (broker.subscriptions.values.filter fun subscribers => subscribers.contains id).length) := by
    rintro ⟨hnew, hfull⟩
    rcases hroom with hold | hroom
    · have hcontains : (broker.subscribersOf channel).contains id = true := hold
      rw [hcontains] at hnew
      cases hnew
    · exact absurd hfull (not_le.mpr hroom)
  simp only [subscribeWithFilters, orReturn, hauthorize]
  rw [if_neg hlimit]

theorem claim_registrations (h : (broker.claim id ns).2 = .ok ()) :
    (∀ ns', (broker.claim id ns).1.namespaces.get? ns' =
        if ns' = ns then some id else broker.namespaces.get? ns') ∧
      ∀ channel, filtersOf (broker.claim id ns).1 id channel = filtersOf broker id channel := by
  rcases claim_cases broker id ns with ⟨error, hc⟩ | ⟨-, -, hc⟩
  · rw [hc] at h
    cases h
  · rw [hc]
    exact ⟨fun ns' => OrdMap.get?_insert .., fun _ => rfl⟩

theorem subscribe_registrations (h : (broker.subscribeWithFilters id channel filters).2 = .ok ()) :
    (∀ ns, (broker.subscribeWithFilters id channel filters).1.namespaces.get? ns = broker.namespaces.get? ns) ∧
      ∀ channel', filtersOf (broker.subscribeWithFilters id channel filters).1 id channel' =
        if channel' = channel then some filters else filtersOf broker id channel' := by
  rcases subscribeWithFilters_cases broker id channel filters with ⟨error, hc⟩ | ⟨-, hc⟩
  · rw [hc] at h
    cases h
  · rw [hc]
    refine ⟨fun _ => rfl, fun channel' => ?_⟩
    rw [filtersOf_addSubscriber]
    simp

omit [Policy P] in
theorem unsubscribe_registrations (h : (broker.unsubscribe id channel).2 = .ok ()) :
    (∀ ns, (broker.unsubscribe id channel).1.namespaces.get? ns = broker.namespaces.get? ns) ∧
      ∀ channel', filtersOf (broker.unsubscribe id channel).1 id channel' =
        if channel' = channel then none else filtersOf broker id channel' := by
  rcases orReturn_cases (show broker.unsubscribe id channel = _ from rfl) with ⟨error, -, hc⟩ | ⟨_, -, hc⟩
  · rw [hc] at h
    cases h
  · rw [← hc]
    cases hsubs : broker.subscriptions.get? channel with
    | none =>
      refine ⟨fun _ => rfl, fun channel' => ?_⟩
      simp only [filtersOf_eq]
      split_ifs with hchannel
      · rw [hchannel, hsubs]
        rfl
      · rfl
    | some subscribers =>
      refine ⟨fun _ => rfl, fun channel' => ?_⟩
      simp only [filtersOf_eq]
      rw [get?_bind_erase hsubs]
      simp

/-! ## Sessions -/

theorem connectSession_eq_ok_iff {credentials : Credentials} {hello : ClientHello} {broker' : Broker P}
    {session : ConnectedPeer} :
    broker.connectSession credentials hello = (broker', .ok session) ↔
      validateClaimedHeaders hello.headers = .ok () ∧
        Policy.permits broker.policy ⟨credentials, hello.clientId, hello.headers, .connect⟩ = true ∧
        ∃ nextPeer, checkedAdd broker.nextPeer 1 = some nextPeer ∧
          broker' = broker.admitPeer credentials hello
            (OrdSet.intersection broker.capabilities hello.capabilities) nextPeer ∧
          session = ⟨.new broker.nextPeer, OrdSet.intersection broker.capabilities hello.capabilities⟩ := by
  unfold connectSession authorizeHello
  cases validateClaimedHeaders hello.headers with
  | error error => simp [orReturn]
  | ok u =>
    cases Policy.permits broker.policy ⟨credentials, hello.clientId, hello.headers, .connect⟩ with
    | false => simp [orReturn]
    | true =>
      cases checkedAdd broker.nextPeer 1 with
      | none => simp [orReturn]
      | some nextPeer => simp [orReturn, Prod.ext_iff, eq_comm]

def Reached (policy : P) (limits : Limits) (capabilities : Capabilities) (broker : Broker P) : Prop :=
  ∃ history, Run exec (Broker.empty policy limits capabilities) history broker

section Reached

variable {policy : P} {limits : Limits} {capabilities : Capabilities}

theorem Reached.exec (h : Reached policy limits capabilities broker) (op : Op) :
    Reached policy limits capabilities (exec broker op).1 := by
  obtain ⟨history, hrun⟩ := h
  exact ⟨_, hrun.snoc rfl⟩

theorem Reached.run (h : Reached policy limits capabilities broker) (ops : List Op) :
    Reached policy limits capabilities (run Broker.exec broker ops).2 := by
  obtain ⟨history, hrun⟩ := h
  exact ⟨_, hrun.append (run_spec broker ops)⟩

theorem Reached.integrity (h : Reached policy limits capabilities broker) : Integrity broker := by
  obtain ⟨history, hrun⟩ := h
  exact (run_sound hrun (sound_empty policy limits capabilities)).integrity

theorem Reached.settings (h : Reached policy limits capabilities broker) :
    broker.policy = policy ∧ broker.limits = limits ∧ broker.capabilities = capabilities := by
  obtain ⟨history, hrun⟩ := h
  refine hrun.invariant (I := fun b => b.policy = policy ∧ b.limits = limits ∧ b.capabilities = capabilities) ?_
    ⟨rfl, rfl, rfl⟩
  intro b op ⟨hpolicy, hlimits, hcapabilities⟩
  exact ⟨(exec_settings b op).1.trans hpolicy, (exec_limits_peers b op).1.trans hlimits,
    (exec_settings b op).2.trans hcapabilities⟩

omit [Policy P] in
theorem Integrity.unregistered (h : Integrity broker) :
    (∀ ns, broker.namespaces.get? ns ≠ some (.new broker.nextPeer)) ∧
      ∀ channel, filtersOf broker (.new broker.nextPeer) channel = none := by
  have hunknown : broker.peers.contains (.new broker.nextPeer) = false := by
    by_contra hcontains
    obtain ⟨peer, hpeer⟩ := OrdMap.contains_iff.mp (by simpa using hcontains)
    exact lt_irrefl _ (h.peer _ _ hpeer).2.2
  refine ⟨fun ns howner => ?_, fun channel => ?_⟩
  · have hconnected := h.namespace ns _ howner
    rw [hunknown] at hconnected
    cases hconnected
  · by_contra hsubscribed
    obtain ⟨filters, hfilters⟩ := Option.ne_none_iff_exists'.mp hsubscribed
    rw [filtersOf_eq, Option.bind_eq_some_iff] at hfilters
    obtain ⟨subscribers, hsubs, hget⟩ := hfilters
    have hconnected := (h.channel channel subscribers hsubs).2 _ (OrdMap.contains_iff.mpr ⟨filters, hget⟩)
    rw [hunknown] at hconnected
    cases hconnected

end Reached

end Busd.Broker
