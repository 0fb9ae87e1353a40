import Busd.Broker.Registrations

/-!
# What a peer cannot do

A peer that has left cannot come back under its identity, and nobody can act for it or send to it. A delivery is out
of reach for everybody but its recipients and the clock, its own sender included.

* `exec_unknown` : a call in the name of somebody who is not connected fails and changes nothing;
* `Departed`, `departed_forever` : what holds of a peer in every state after it left;
* `delivery_untouched` : a run in which no recipient of a delivery takes part and the clock stands still.
-/

namespace Busd.Broker

open Words Machine Busd.Protocol Busd.Policy

variable {P : Type} {broker : Broker P} {peer : PeerId} {policy : P} {limits : Limits}
  {capabilities : Capabilities}

/-! ## Peers that left -/

def Reply.isError : Reply → Bool
  | .connected (.error _) | .completed (.error _) | .delivery (.error _) => true
  | _ => false

theorem authorize_unknown [Policy P] (h : broker.peers.get? peer = none) (action : Action) :
    broker.authorize peer action = .error (.unknownPeer peer) := by
  unfold authorize
  rw [h]

theorem credentials_unknown (h : broker.peers.get? peer = none) :
    broker.credentials peer = .error (.unknownPeer peer) := by
  unfold Broker.credentials
  rw [h]

variable [Policy P]

theorem exec_unknown (h : broker.peers.get? peer = none) {op : Op} (hop : op.caller = some peer) :
    (exec broker op).1 = broker ∧ (exec broker op).2.isError = true := by
  have hauth := authorize_unknown h
  have hcredentials := credentials_unknown h
  cases op with
  | connect credentials hello => cases hop
  | disconnect caller =>
    obtain rfl : caller = peer := Option.some.inj hop
    rcases disconnectWithEvents_cases broker caller with ⟨-, heq⟩ | ⟨hknown, -⟩
    · simp only [exec, heq]
      exact ⟨rfl, rfl⟩
    · rw [OrdMap.contains_iff, h] at hknown
      obtain ⟨_, hsome⟩ := hknown
      cases hsome
  | claim caller ns =>
    obtain rfl : caller = peer := Option.some.inj hop
    simp only [exec, claim, hauth, orReturn]
    exact ⟨rfl, rfl⟩
  | subscribe caller channel filters =>
    obtain rfl : caller = peer := Option.some.inj hop
    simp only [exec, subscribeWithFilters, hauth, orReturn]
    exact ⟨rfl, rfl⟩
  | unsubscribe caller channel =>
    obtain rfl : caller = peer := Option.some.inj hop
    simp only [exec, unsubscribe, hcredentials, orReturn]
    exact ⟨rfl, rfl⟩
  | registerDbusName caller name =>
    obtain rfl : caller = peer := Option.some.inj hop
    simp only [exec, registerDbusName, hauth, orReturn]
    split_ifs
    · exact ⟨rfl, rfl⟩
    · exact ⟨rfl, rfl⟩
  | beginDelivery caller frame nowMs =>
    obtain rfl : caller = peer := Option.some.inj hop
    cases frame with
    | message m =>
      simp only [exec, beginDelivery, hcredentials, orReturn]
      exact ⟨rfl, rfl⟩
    | _ => exact ⟨rfl, rfl⟩
  | acknowledge caller messageId policy =>
    obtain rfl : caller = peer := Option.some.inj hop
    simp only [exec, acknowledge, hauth, orReturn]
    exact ⟨rfl, rfl⟩
  | tick nowMs => cases hop
  | drainEvents => cases hop

/-- The identity was given to somebody who is no longer connected. -/
structure Left (broker : Broker P) (peer : PeerId) : Prop where
  used : peer.get < broker.nextPeer
  absent : broker.peers.get? peer = none

/-- An identity is handed out once: nobody gets the one of a peer that left. -/
theorem exec_left (broker : Broker P) (op : Op) (h : Left broker peer) : Left (exec broker op).1 peer := by
  have hkept : SamePeers broker (exec broker op).1 → Left (exec broker op).1 peer := fun hsame =>
    ⟨hsame.nextPeer ▸ h.used, hsame.peers ▸ h.absent⟩
  cases op with
  | connect credentials hello =>
    rcases connectSession_cases broker credentials hello with ⟨error, heq⟩ | ⟨_, nextPeer, hnext, heq⟩
    · simp only [exec, heq]
      exact h
    · have hlt : broker.nextPeer < nextPeer := lt_of_checkedAdd (by decide) hnext
      have hne : peer ≠ .new broker.nextPeer := by
        rintro rfl
        exact lt_irrefl _ h.used
      simp only [exec, heq]
      refine ⟨h.used.trans hlt, ?_⟩
      exact (OrdMap.get?_insert ..).trans ((if_neg hne).trans h.absent)
  | disconnect gone =>
    refine ⟨(disconnect_nextPeer broker gone).1 ▸ h.used, OrdMap.contains_eq_false_iff.mp ?_⟩
    rw [Bool.eq_false_iff]
    intro hcontains
    have hbefore := (contains_disconnect.mp hcontains).2
    rw [OrdMap.contains_eq_false_iff.mpr h.absent] at hbefore
    cases hbefore
  | _ => exact hkept (exec_samePeers broker (fun _ _ h => by cases h) fun _ h => by cases h)

/-- The peer has a request pending under this identifier. -/
def Asked (broker : Broker P) (peer : PeerId) (id : MessageId) : Prop :=
  ∃ pending request, broker.deliveries.get? id = some pending ∧ pending.sender = peer ∧
    pending.message = .message request ∧ request.kind = .request

/-- What holds of a peer that left: it is registered nowhere and expected nowhere, no call can be made in its name, and
no call connects it again or sends it a message that is not the answer to a request of its own. -/
structure Departed (broker : Broker P) (peer : PeerId) : Prop where
  absent : broker.peers.get? peer = none
  noNamespace : ∀ ns, broker.namespaces.get? ns ≠ some peer
  noDbusName : ∀ name, broker.dbusNames.get? name ≠ some peer
  noChannel : ∀ channel, filtersOf broker peer channel = none
  unexpected : ∀ id pending, broker.deliveries.get? id = some pending → pending.recipients.contains peer = false
  powerless : ∀ op, op.caller = some peer → (exec broker op).1 = broker ∧ (exec broker op).2.isError = true
  notAssigned : ∀ op, (exec broker op).2.assigned ≠ some peer
  unreachable : ∀ op sender recipients m, .deliver sender recipients (.message m) ∈ (exec broker op).2.events →
    peer ∈ recipients → m.kind = .response ∧ Asked broker peer m.correlationId

theorem Left.notAssigned (h : Left broker peer) (op : Op) : (exec broker op).2.assigned ≠ some peer := by
  rcases exec_assigned broker op with ⟨hnone, -⟩ | ⟨hsome, -⟩
  · rw [hnone]
    exact Option.some_ne_none peer ∘ Eq.symm
  · rw [hsome]
    intro heq
    have hused := h.used
    rw [← Option.some.inj heq] at hused
    exact lt_irrefl _ hused

/-- A message is routed to, or repeated for, connected peers; only an answer goes to whoever asked for it. -/
theorem deliver_connected (hsound : Sound broker) {op : Op} {sender : PeerId} {recipients : List PeerId} {m : Message}
    (hevent : .deliver sender recipients (.message m) ∈ (exec broker op).2.events) :
    ∀ recipient ∈ recipients, m.kind ≠ .response ∧ broker.peers.contains recipient = true ∨
      m.kind = .response ∧ Asked broker recipient m.correlationId := by
  intro recipient hmem
  rcases deliver_cases hevent with ⟨m', nowMs, priority, selected, -, hsame, hrouted, rfl⟩ |
    ⟨nowMs, id, pending, -, hget, hredelivery⟩ |
    ⟨response, nowMs, pending, request, -, hresponse, hexpected, rfl, hframe⟩
  · have hselected : OrdMap.contains (OrdSet.ofList selected) recipient = true := OrdMap.mem_keys_iff.mp hmem
    obtain rfl := Frame.message.inj hsame
    refine .inl ⟨hrouted.kind, ?_⟩
    exact route_connected hsound.integrity hrouted.route recipient (OrdSet.contains_ofList.mp hselected)
  · obtain ⟨-, hrecipients, hframe⟩ := DeliveryEvent.deliver.inj hredelivery
    obtain ⟨m', hmessage, -, hkind, -⟩ := (hsound.entries id pending hget).message
    obtain rfl := Frame.message.inj (hframe.trans hmessage)
    rw [hrecipients] at hmem
    have hleft := OrdMap.mem_keys_iff.mp hmem
    exact .inl ⟨hkind, hsound.integrity.recipient id pending hget recipient (OrdSet.contains_difference.mp hleft).1⟩
  · obtain ⟨r, hr, hkind, hid⟩ := forwarded_response (hsound.entries _ _ hexpected.found) hresponse rfl hframe
    cases hr
    refine .inr ⟨hkind, pending, request, hid ▸ hexpected.found, ?_, hexpected.message, hexpected.kind⟩
    exact (List.mem_singleton.mp hmem).symm

theorem Left.departed (hsound : Sound broker) (h : Left broker peer) : Departed broker peer := by
  have habsent : broker.peers.contains peer = false := OrdMap.contains_eq_false_iff.mpr h.absent
  have hnot : ∀ {p : Prop}, (p → broker.peers.contains peer = true) → ¬ p := by
    intro p himp hp
    have hcontains := himp hp
    rw [habsent] at hcontains
    cases hcontains
  refine {
    absent := h.absent
    noNamespace := fun ns => hnot (hsound.integrity.namespace ns peer)
    noDbusName := fun name => hnot (hsound.integrity.dbusName name peer)
    noChannel := fun channel => ?_
    unexpected := fun id pending hget => ?_
    powerless := fun op hop => exec_unknown h.absent hop
    notAssigned := h.notAssigned
    unreachable := fun op sender recipients m hevent hmem =>
      (deliver_connected hsound hevent peer hmem).resolve_left (hnot And.right) }
  · refine OrdMap.contains_eq_false_iff.mp (Bool.eq_false_iff.mpr ?_)
    exact hnot (subscribersOf_connected hsound.integrity)
  · exact Bool.eq_false_iff.mpr (hnot (hsound.integrity.recipient id pending hget peer))

/-- In every state that a new broker reaches after a peer disconnected, whatever was called in between, the peer is
gone for good. -/
theorem departed_forever {before after : List (Op × Reply)} {events : List DeliveryEvent}
    (hrun : Run exec (.empty policy limits capabilities)
      (before ++ (.disconnect peer, .delivery (.ok events)) :: after) broker) :
    Departed broker peer := by
  have hsound := run_sound hrun (sound_empty policy limits capabilities)
  rw [List.append_cons] at hrun
  obtain ⟨s', hfirst, hafter⟩ := hrun.split
  refine Left.departed hsound (hafter.invariant exec_left ?_)
  -- the peer was connected, so its identity is below the next one
  obtain ⟨s, hbefore, hstep⟩ := hfirst.snoc_inv
  have hs := run_sound hbefore (sound_empty policy limits capabilities)
  have hs' : s' = (exec s (.disconnect peer)).1 := by rw [hstep]
  have hknown : s.peers.contains peer = true := by
    rcases disconnectWithEvents_cases s peer with ⟨-, heq⟩ | ⟨hknown, -⟩
    · simp only [exec, heq] at hstep
      cases hstep
    · exact hknown
  obtain ⟨found, hfound⟩ := OrdMap.contains_iff.mp hknown
  rw [hs']
  refine ⟨?_, OrdMap.contains_eq_false_iff.mp (Bool.eq_false_iff.mpr fun hcontains => ?_)⟩
  · rw [(disconnect_nextPeer s peer).1]
    exact (hs.integrity.peer peer found hfound).2.2
  · exact (contains_disconnect.mp hcontains).1 rfl

def broadcastAfter : List (Op × Reply) × Broker AllowAll :=
  run exec (.empty .mk .default ∅) [plainConnect, plainConnect, .disconnect (.new 1), plainConnect,
    .beginDelivery (.new 2) (.message (plainRequest (numberedId 1) .none .none .first .broadcast)) 0]

theorem departed_forever_broadcastAfter : Departed broadcastAfter.2 (.new 1) := by
  have hsplit : broadcastAfter.1 =
      broadcastAfter.1.take 2 ++ (.disconnect (.new 1), .delivery (.ok [])) :: broadcastAfter.1.drop 3 := by
    decide +kernel
  have hrun : Run exec (.empty AllowAll.mk .default ∅) broadcastAfter.1 broadcastAfter.2 := run_spec _ _
  rw [hsplit] at hrun
  exact departed_forever hrun

/-! ## Deliveries of others -/

/-- A call that is neither made by a recipient of the delivery nor by the clock. -/
def Op.outside (pending : PendingDelivery) : Op → Bool
  | .tick _ => false
  | op => op.caller.all fun caller => !pending.recipients.contains caller

theorem not_recipient_of_outside {op : Op} {pending : PendingDelivery} (h : op.outside pending = true) {caller : PeerId}
    (hcaller : op.caller = some caller) : ¬ pending.recipients.contains caller = true := by
  cases op with
  | tick nowMs => cases h
  | _ =>
    simp only [Op.outside, hcaller, Option.all_some, Bool.not_eq_true'] at h
    exact Bool.eq_false_iff.mp h

theorem Effect.outside {op : Op} {reply : Reply} {id : MessageId} {pending : PendingDelivery}
    {after : Option PendingDelivery} {events : List DeliveryEvent} (h : Effect op reply id (some pending) after events)
    (houtside : op.outside pending = true) : after = some pending ∧ events = [] := by
  generalize hbefore : some pending = before at h
  cases h with
  | untouched _ => exact ⟨rfl, rfl⟩
  | passed => cases hbefore
  | inserted => cases hbefore
  | acknowledged hop _ _ hrecipient =>
    cases hbefore
    exact absurd hrecipient (not_recipient_of_outside houtside (by rw [hop]; rfl))
  | answered hcall _ _ _ _ hrecipient =>
    cases hbefore
    exact absurd hrecipient (not_recipient_of_outside houtside (by rw [hcall.1]; rfl))
  | ticked hop =>
    rw [hop] at houtside
    cases houtside
  | recipientLost hop hrecipient =>
    cases hbefore
    exact absurd hrecipient (not_recipient_of_outside houtside (by rw [hop]; rfl))

/-- From a state that a new broker reaches, in a run in which no recipient of a pending delivery makes a call and the
clock does not tick, the delivery stays exactly as it is and nothing is reported about it, whatever its sender and all
others do. -/
theorem delivery_untouched {before history : List (Op × Reply)} {start : Broker P} {id : MessageId}
    {pending : PendingDelivery} (hstart : Run exec (.empty policy limits capabilities) before start)
    (hget : start.deliveries.get? id = some pending) (hrun : Run exec start history broker)
    (houtside : ∀ e ∈ history, e.1.outside pending = true) :
    broker.deliveries.get? id = some pending ∧ ∀ e ∈ history, eventsAbout id e.2.events = [] := by
  have hentries := (run_sound hstart (sound_empty policy limits capabilities)).entries
  induction hrun with
  | nil => exact ⟨hget, fun e he => by cases he⟩
  | @snoc s s' history op reply hrun hstep ih =>
    obtain ⟨hkept, hevents⟩ := ih fun e he => houtside e (List.mem_append_left _ he)
    have heffect := exec_effect (run_entries hrun hentries) op id
    rw [hstep, hkept] at heffect
    have hlast : (op, reply) ∈ history ++ [(op, reply)] := List.mem_append_right _ List.mem_cons_self
    obtain ⟨hafter, hnone⟩ := heffect.outside (houtside _ hlast)
    refine ⟨hafter, fun e he => ?_⟩
    rcases List.mem_append.mp he with he | he
    · exact hevents e he
    · rw [List.mem_singleton.mp he]
      exact hnone

/-- The first peer asks the second one, then leaves; the third one acknowledges and answers in vain. -/
def asked : List (Op × Reply) × Broker AllowAll :=
  run exec (.empty .mk .default ∅) [plainConnect, plainConnect, plainConnect,
    .beginDelivery (.new 1) (.message (plainRequest (numberedId 1) .received .any .first (.peer (.new 2)))) 0]

def intruded : List (Op × Reply) × Broker AllowAll :=
  run exec asked.2 [.acknowledge (.new 3) (numberedId 1) .processed,
    .beginDelivery (.new 3) (.message (plainResponse (numberedId 2) (numberedId 1) .success)) 1, .disconnect (.new 1)]

theorem delivery_untouched_intruded :
    (asked.2.deliveries.get? (numberedId 1)).isSome = true ∧
      intruded.2.deliveries.get? (numberedId 1) = asked.2.deliveries.get? (numberedId 1) := by
  have hsome : (asked.2.deliveries.get? (numberedId 1)).isSome = true := by decide +kernel
  have hall : ∀ pending ∈ asked.2.deliveries.get? (numberedId 1), ∀ e ∈ intruded.1, e.1.outside pending = true := by
    decide +kernel
  obtain ⟨pending, hget⟩ := Option.isSome_iff_exists.mp hsome
  have hstart : Run exec (.empty AllowAll.mk .default ∅) asked.1 asked.2 := run_spec _ _
  have hrun : Run exec asked.2 intruded.1 intruded.2 := run_spec _ _
  exact ⟨hsome, hget ▸ (delivery_untouched hstart hget hrun (hall pending hget)).1⟩

end Busd.Broker
