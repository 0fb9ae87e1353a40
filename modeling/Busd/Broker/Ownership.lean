import Busd.Broker.Quotas
import Busd.Broker.Lifecycle

/-!
# Who the pending deliveries belong to

Disconnecting removes the deliveries a peer was to receive, but not those it sent. They stay pending, and
what happens to them is reported to a peer that is gone.

* `Owned` : after a call every sender is connected, and so is everybody the call reports to;
* `QueueBounded` : the number of deliveries retained for each sender, in every run;
* `nothingInFlight_of_owned`, `owned_of_nothingInFlight` : a call keeps this exactly if it disconnects no peer with
  pending deliveries;
* `deliveries_owned_iff` : the same over every run.
-/

namespace Busd.Broker

open Words Machine Busd.Protocol Busd.Policy

variable {P : Type} {broker : Broker P}

/-! ## The deliveries of one sender -/

/-- No sender has more deliveries retained than the limit. -/
def QueueBounded (broker : Broker P) : Prop :=
  ∀ sender, (queuedBy broker sender).length ≤ broker.limits.maximumQueuedMessages

theorem exec_queueBounded [Policy P] (hentries : Entries broker) (h : QueueBounded broker) (op : Op) :
    QueueBounded (exec broker op).1 := by
  intro sender
  rw [(exec_limits_peers broker op).1]
  rcases exec_messages hentries op sender with hle | hwithin
  · exact hle.trans (h sender)
  · exact hwithin

def SendersConnected (broker : Broker P) : Prop :=
  ∀ id pending, broker.deliveries.get? id = some pending → broker.peers.contains pending.sender = true

/-- Connected senders share the deliveries among them. -/
theorem deliveries_size_le (hbound : QueueBounded broker) (hsenders : SendersConnected broker) :
    broker.deliveries.size ≤ broker.peers.size * broker.limits.maximumQueuedMessages := by
  have hmaps : ∀ e ∈ broker.deliveries.entries.toFinset, e.2.sender ∈ broker.peers.keys.toFinset := by
    intro e he
    rw [List.mem_toFinset, OrdMap.mem_keys_iff]
    exact hsenders e.1 e.2 (OrdMap.mem_entries_iff.mp (List.mem_toFinset.mp he))
  have hfiber : ∀ peer ∈ broker.peers.keys.toFinset,
      (broker.deliveries.entries.toFinset.filter fun e => e.2.sender = peer).card ≤
        broker.limits.maximumQueuedMessages := by
    intro peer _
    refine le_trans (le_of_eq ?_) (hbound peer)
    have hlist : (broker.deliveries.entries.toFinset.filter fun e => e.2.sender = peer) =
        (broker.deliveries.entries.filter fun e => e.2.sender = peer).toFinset := by
      rw [List.toFinset_filter]
      simp only [decide_eq_true_eq]
    rw [hlist, List.toFinset_card_of_nodup (broker.deliveries.nodup_entries.filter _)]
    unfold queuedBy OrdMap.values
    rw [List.filter_map, List.length_map]
    rfl
  have hcard := Finset.card_le_mul_card_image_of_maps_to hmaps _ hfiber
  rw [List.toFinset_card_of_nodup broker.deliveries.nodup_entries,
    List.toFinset_card_of_nodup broker.peers.nodup_keys] at hcard
  rw [Nat.mul_comm]
  refine hcard.trans (le_of_eq ?_)
  unfold OrdMap.keys OrdMap.size
  rw [List.length_map]

/-! ## Who is told -/

/-- The peers that are told what became of a message they sent. -/
def reportsTo : DeliveryEvent → List PeerId
  | .result sender _ _ => [sender]
  | .deliver _ recipients (.message m) => if m.kind = .response then recipients else []
  | .deliver .. => []

theorem WhilePending.reportsTo {id : MessageId} {pending : PendingDelivery} {event : DeliveryEvent}
    (h : WhilePending id pending event) (hentry : Entry id pending) :
    ∀ peer ∈ Broker.reportsTo event, peer = pending.sender := by
  intro peer hmem
  cases h with
  | message recipients =>
    obtain ⟨m, hm, -, hkind, -⟩ := hentry.message
    rw [hm, Broker.reportsTo, if_neg hkind] at hmem
    cases hmem
  | acknowledged _ _ => exact List.mem_singleton.mp hmem
  | response _ _ _ hkind _ =>
    rw [Broker.reportsTo, if_pos hkind] at hmem
    exact List.mem_singleton.mp hmem

theorem Completion.reportsTo {id : MessageId} {pending : PendingDelivery} {event : DeliveryEvent}
    (h : Completion id pending event) : ∀ peer ∈ Broker.reportsTo event, peer = pending.sender := by
  intro peer hmem
  cases h with
  | acknowledged _ _ => exact List.mem_singleton.mp hmem
  | failed _ => exact List.mem_singleton.mp hmem
  | answered _ hkind _ =>
    rw [Broker.reportsTo, if_pos hkind] at hmem
    exact List.mem_singleton.mp hmem

theorem acceptedEvents_reportsTo {sender : PeerId} {m : Message} {recipients : OrdSet PeerId}
    (hkind : m.kind ≠ .response) : ∀ event ∈ acceptedEvents sender m recipients,
      ∀ peer ∈ reportsTo event, peer = sender := by
  intro event hmem peer hpeer
  unfold acceptedEvents at hmem
  rcases List.mem_cons.mp hmem with rfl | hmem
  · rw [reportsTo, if_neg hkind] at hpeer
    cases hpeer
  · split_ifs at hmem
    · rw [List.mem_singleton.mp hmem] at hpeer
      exact List.mem_singleton.mp hpeer
    · cases hmem

/-- A call reports to the sender of a pending delivery, or to its own caller. -/
theorem Effect.reportsTo {op : Op} {reply : Reply} {id : MessageId} {before after : Option PendingDelivery}
    {events : List DeliveryEvent} (h : Effect op reply id before after events)
    (hentry : ∀ pending, before = some pending → Entry id pending) :
    ∀ event ∈ events, ∀ peer ∈ Broker.reportsTo event,
      (∃ pending, before = some pending ∧ peer = pending.sender) ∨
        ∃ m nowMs, op = .beginDelivery peer (.message m) nowMs := by
  intro event hmem peer hpeer
  cases before with
  | some pending =>
    refine .inl ⟨pending, rfl, ?_⟩
    cases after with
    | some pending' =>
      exact ((h.whilePending (hentry pending rfl)).1 event hmem).reportsTo (hentry pending rfl) peer hpeer
    | none =>
      obtain ⟨event', rfl, hcompletion, -⟩ := h.completion (hentry pending rfl)
      rw [List.mem_singleton.mp hmem] at hpeer
      exact hcompletion.reportsTo peer hpeer
  | none =>
    generalize hbefore : none = before at h
    cases h with
    | untouched _ => cases hmem
    | passed hcall hkind _ hevents =>
      rcases hevents with rfl | ⟨recipients, rfl⟩
      · rw [List.mem_singleton.mp hmem] at hpeer
        rw [List.mem_singleton.mp hpeer]
        exact .inr ⟨_, _, hcall.1⟩
      · rw [acceptedEvents_reportsTo hkind event hmem peer hpeer]
        exact .inr ⟨_, _, hcall.1⟩
    | inserted hcall hkind _ _ =>
      rw [acceptedEvents_reportsTo hkind event hmem peer hpeer]
      exact .inr ⟨_, _, hcall.1⟩
    | acknowledged _ _ _ _ _ _ => cases hbefore
    | answered _ _ _ _ _ _ _ => cases hbefore
    | ticked _ => cases hbefore
    | recipientLost _ _ => cases hbefore

theorem about_of_reportsTo {event : DeliveryEvent} {peer : PeerId} (h : peer ∈ reportsTo event) :
    ∃ id, about event = some id := by
  cases event with
  | result sender id outcome => exact ⟨id, rfl⟩
  | deliver sender recipients frame =>
    cases frame with
    | message m => exact ⟨_, rfl⟩
    | _ => cases h

variable [Policy P]

theorem exec_reportsTo (hentries : Entries broker) (op : Op) :
    ∀ event ∈ (exec broker op).2.events, ∀ peer ∈ reportsTo event,
      (∃ id pending, broker.deliveries.get? id = some pending ∧ peer = pending.sender) ∨
        (∃ m nowMs, op = .beginDelivery peer m nowMs) ∧ broker.peers.contains peer = true := by
  intro event hmem peer hpeer
  obtain ⟨id, hid⟩ := about_of_reportsTo hpeer
  have habout : event ∈ eventsAbout id (exec broker op).2.events :=
    List.mem_filter.mpr ⟨hmem, decide_eq_true hid⟩
  rcases (exec_effect hentries op id).reportsTo (hentries id) event habout peer hpeer with
    ⟨pending, hbefore, hsender⟩ | ⟨m, nowMs, rfl⟩
  · exact .inl ⟨id, pending, hbefore, hsender⟩
  · refine .inr ⟨⟨_, _, rfl⟩, ?_⟩
    obtain ⟨_, hadmitted⟩ := (submits_of_events hmem).admitted
    exact hadmitted.connected

/-! ## Disconnecting -/

/-- After a call every sender is connected, and so is everybody it reports to. -/
structure Owned (after : Broker P) (reply : Reply) : Prop where
  senders : SendersConnected after
  bounded : after.deliveries.size ≤ after.peers.size * after.limits.maximumQueuedMessages
  reports : ∀ event ∈ reply.events, ∀ peer ∈ reportsTo event, after.peers.contains peer = true

/-- A peer that is disconnected has no pending deliveries of its own. -/
def NothingInFlight (broker : Broker P) (op : Op) : Prop :=
  ∀ peer, op = .disconnect peer → broker.peers.contains peer = true →
    ∀ id pending, broker.deliveries.get? id = some pending → pending.sender ≠ peer

/-- Disconnecting a peer with a pending delivery leaves the delivery behind, or reports it to that peer. -/
theorem nothingInFlight_of_owned (hentries : Entries broker) {op : Op}
    (h : Owned (exec broker op).1 (exec broker op).2) : NothingInFlight broker op := by
  intro peer hop hpeer id pending hpending hsender
  subst hop
  have hgone : (exec broker (.disconnect peer)).1.peers.contains peer = false := by
    rw [Bool.eq_false_iff]
    exact fun h => (contains_disconnect.mp h).1 rfl
  have heffect := exec_effect hentries (.disconnect peer) id
  rw [hpending] at heffect
  cases hafter : (exec broker (.disconnect peer)).1.deliveries.get? id with
  | some kept =>
    rw [hafter] at heffect
    have hconnected := h.senders id kept hafter
    rw [heffect.sameDelivery.sender, hsender, hgone] at hconnected
    cases hconnected
  | none =>
    rw [hafter] at heffect
    obtain ⟨event, hevent, hcompletion, -⟩ := heffect.completion (hentries id pending hpending)
    have hmem : event ∈ (exec broker (.disconnect peer)).2.events := by
      have hself : event ∈ eventsAbout id (exec broker (.disconnect peer)).2.events :=
        hevent ▸ List.mem_singleton_self event
      exact (List.mem_filter.mp hself).1
    have htold : peer ∈ reportsTo event := by
      rw [← hsender]
      cases hcompletion with
      | acknowledged _ _ => exact List.mem_singleton_self _
      | failed _ => exact List.mem_singleton_self _
      | answered _ hkind _ =>
        rw [reportsTo, if_pos hkind]
        exact List.mem_singleton_self _
    rw [h.reports event hmem peer htold] at hgone
    cases hgone

theorem owned_of_nothingInFlight (hentries : Entries broker) (hbound : QueueBounded broker)
    (hsenders : SendersConnected broker) {op : Op} (h : NothingInFlight broker op) :
    Owned (exec broker op).1 (exec broker op).2 := by
  have hkept := (exec_limits_peers broker op).2
  -- the sender of a pending delivery is not the peer that leaves
  have hsender : ∀ id pending, broker.deliveries.get? id = some pending →
      (exec broker op).1.peers.contains pending.sender = true := by
    intro id pending hpending
    have hconnected := hsenders id pending hpending
    exact hkept pending.sender hconnected fun hop => h _ hop hconnected id pending hpending rfl
  have hafter : SendersConnected (exec broker op).1 := by
    intro id new hnew
    cases hbefore : broker.deliveries.get? id with
    | some old =>
      have heffect := exec_effect hentries op id
      rw [hbefore, hnew] at heffect
      rw [heffect.sameDelivery.sender]
      exact hsender id old hbefore
    | none =>
      obtain ⟨sender, m, nowMs, _, _, _, rfl, -, hrouted, -, rfl, -⟩ := inserted_spec hentries hbefore hnew
      exact hkept sender hrouted.connected fun hop => by cases hop
  refine ⟨hafter, deliveries_size_le (exec_queueBounded hentries hbound op) hafter, ?_⟩
  intro event hmem peer hpeer
  rcases exec_reportsTo hentries op event hmem peer hpeer with
    ⟨id, pending, hpending, rfl⟩ | ⟨⟨m, nowMs, rfl⟩, hconnected⟩
  · exact hsender id pending hpending
  · exact hkept peer hconnected fun hop => by cases hop

/-- In a run, every state has its senders connected, holds at most `maximumQueuedMessages` deliveries for each
connected peer and is reached by a call that reports to connected peers only, exactly when no peer is
disconnected while a delivery it sent is pending. -/
theorem deliveries_owned_iff {policy : P} {limits : Limits} {capabilities : Capabilities}
    {history : List (Op × Reply)}
    (hrun : Run exec (Broker.empty policy limits capabilities) history broker) :
    Every exec (Broker.empty policy limits capabilities)
        (fun b op => Owned (exec b op).1 (exec b op).2) history ↔
      Every exec (Broker.empty policy limits capabilities) NothingInFlight history := by
  have hempty : Entries (Broker.empty policy limits capabilities) ∧
      QueueBounded (Broker.empty policy limits capabilities) ∧
      SendersConnected (Broker.empty policy limits capabilities) :=
    ⟨entries_empty policy limits capabilities, fun _ => Nat.zero_le _, fun _ _ h => by cases h⟩
  refine (hrun.every_iff (I := fun b => Entries b ∧ QueueBounded b ∧ SendersConnected b) ?_ ?_ hempty).1
  · intro b op hI
    exact ⟨nothingInFlight_of_owned hI.1, owned_of_nothingInFlight hI.1 hI.2.1 hI.2.2⟩
  · intro b op hI howned
    exact ⟨exec_entries b op hI.1, exec_queueBounded hI.1 hI.2.1 op, howned.senders⟩

/-! ## A requester that leaves -/

def requesterLeft : List (Op × Reply) × Broker AllowAll :=
  run exec (Broker.empty .mk .default ∅) [plainConnect, plainConnect,
    .beginDelivery (.new 1) (.message (plainRequest (numberedId 1) .none .none .exact (.peer (.new 2)))) 0,
    .disconnect (.new 1)]

/-- Its request is still pending, and its timeout is reported to nobody. -/
theorem requesterLeft_pending :
    Run exec (Broker.empty AllowAll.mk .default ∅) requesterLeft.1 requesterLeft.2 ∧
      (requesterLeft.2.deliveries.get? (numberedId 1)).map PendingDelivery.sender = some (.new 1) ∧
      requesterLeft.2.peers.contains (.new 1) = false ∧
      (requesterLeft.2.tick 1000).2 = [.result (.new 1) (numberedId 1) .timeout] :=
  ⟨run_spec _ _, by decide +kernel, by decide +kernel, by decide +kernel⟩

/-- A requester that stays sees its request time out. -/
def requesterStays : List Op :=
  [plainConnect, plainConnect,
    .beginDelivery (.new 1) (.message (plainRequest (numberedId 1) .none .none .exact (.peer (.new 2)))) 0,
    .tick 1000]

theorem deliveries_owned_iff_requesterStays :
    Every exec (Broker.empty AllowAll.mk .default ∅) (fun b op => Owned (exec b op).1 (exec b op).2)
      (run exec (Broker.empty AllowAll.mk .default ∅) requesterStays).1 := by
  refine (deliveries_owned_iff (run_spec _ _)).mpr ?_
  intro h₁ op reply h₂ b hhistory _ peer hop
  have hinputs : (run exec (Broker.empty AllowAll.mk .default ∅) requesterStays).1.map Prod.fst =
      requesterStays := run_inputs _ _
  have hmem : op ∈ requesterStays := by
    rw [← hinputs, hhistory]
    exact List.mem_map.mpr ⟨(op, reply), List.mem_append_right _ List.mem_cons_self, rfl⟩
  subst hop
  simp [requesterStays, plainConnect] at hmem

end Busd.Broker
