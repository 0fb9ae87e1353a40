import Busd.Broker.Atomicity

/-!
# The routing counters

`begin_delivery` counts a message as routed, and records it as delivered, once it has found recipients. After that
it may still answer that there is no recipient, if they cannot meet the requirement of the message, or refuse the
message for lack of room. The counters and the record then speak of a delivery that was not made.

* `submitted` : the events that signals and requests had, by the calls of a history;
* `Deliverable` : a call whose message is delivered if it has recipients;
* `Quiet` : a step that counts nothing and records no delivery;
* `exec_counts` : a call is quiet, or its message has recipients and is counted;
* `Unsaturated` : the counters are below their bound, `run_unsaturated` : and were so all along;
* `routing_metrics_iff` : over a run, the counters and the records tell what was delivered exactly if every call of the
  run was deliverable.
-/

namespace Busd.Broker

open Words Machine Busd.Protocol Busd.Policy

variable {P : Type} {broker : Broker P} {sender : PeerId} {m : Message}

/-! ## What the counters are for -/

/-- The events that `begin_delivery` returned for a signal or a request. -/
def submitted : Op × Reply → List DeliveryEvent
  | (.beginDelivery _ (.message m) _, reply) => if m.kind = .response then [] else reply.events
  | _ => []

def recipientCount : DeliveryEvent → Nat
  | .deliver _ recipients _ => recipients.length
  | .result .. => 0

def recipientBytes : DeliveryEvent → Nat
  | .deliver _ recipients frame => payloadBytes frame * recipients.length
  | .result .. => 0

def servedCount (events : List DeliveryEvent) : Nat := (events.map recipientCount).sum

def servedBytes (events : List DeliveryEvent) : Nat := (events.map recipientBytes).sum

section Metrics

variable [Policy P]

/-- The call adds a `Delivered` record to the history of the monitor. -/
def RecordsDelivery (broker : Broker P) (op : Op) : Prop :=
  ∃ record ∈ (exec broker op).1.monitorEvents, record ∉ broker.monitorEvents ∧ record.kind = .delivered

def DeliversToSomebody (broker : Broker P) (op : Op) : Prop :=
  ∃ sender recipients frame, .deliver sender recipients frame ∈ submitted (op, (exec broker op).2) ∧ recipients ≠ []

/-- The counters and the records of a run tell what was delivered. -/
structure MetricsExact (start : Broker P) (history : List (Op × Reply)) (broker : Broker P) : Prop where
  messages : broker.metrics.messagesRouted.toNat = servedCount (history.flatMap submitted)
  bytes : broker.metrics.bytesRouted.toNat = servedBytes (history.flatMap submitted)
  monitor : Every exec start (fun b op => RecordsDelivery b op ↔ DeliversToSomebody b op) history

/-- The recipients can meet the requirement of the message, and there is room for it if it is retained. -/
structure Servable (broker : Broker P) (sender : PeerId) (m : Message) (recipients : OrdSet PeerId) (nowMs : UInt64) :
    Prop where
  possible : requirementPossible m.ackRequirement recipients.size = true
  fits : isTracked m = true → Fits broker sender m nowMs

/-- A call whose message, if it has recipients, can be served. -/
def Deliverable (broker : Broker P) (op : Op) : Prop :=
  ∀ sender m nowMs priority recipients, op = .beginDelivery sender (.message m) nowMs →
    Routed broker sender m priority recipients → recipients ≠ [] →
    Servable broker sender m (OrdSet.ofList recipients) nowMs

end Metrics

/-! ## Steps that count nothing -/

/-- No record of the monitor has the next sequence number or a later one, as long as the numbers last. -/
def FreshSequence (broker : Broker P) : Prop :=
  broker.nextMonitorSequence < u64Max →
    ∀ record ∈ broker.monitorEvents, record.sequence < broker.nextMonitorSequence

/-- The step counts nothing as routed and records no delivery. -/
structure Quiet (before after : Broker P) : Prop where
  messages : after.metrics.messagesRouted = before.metrics.messagesRouted
  bytes : after.metrics.bytesRouted = before.metrics.bytesRouted
  monitor : ∀ record ∈ after.monitorEvents, record ∈ before.monitorEvents ∨ record.kind ≠ .delivered
  sequence : before.nextMonitorSequence ≤ after.nextMonitorSequence
  fresh : FreshSequence before → FreshSequence after

theorem Quiet.of_same {before after : Broker P}
    (hmetrics : after.metrics.messagesRouted = before.metrics.messagesRouted)
    (hbytes : after.metrics.bytesRouted = before.metrics.bytesRouted)
    (hmonitor : after.monitorEvents = before.monitorEvents)
    (hsequence : after.nextMonitorSequence = before.nextMonitorSequence) : Quiet before after := by
  refine ⟨hmetrics, hbytes, fun record hrecord => .inl (hmonitor ▸ hrecord), hsequence.ge, fun hfresh => ?_⟩
  unfold FreshSequence
  rw [hmonitor, hsequence]
  exact hfresh

theorem Quiet.refl (broker : Broker P) : Quiet broker broker := .of_same rfl rfl rfl rfl

theorem Quiet.trans {b₁ b₂ b₃ : Broker P} (h : Quiet b₁ b₂) (h' : Quiet b₂ b₃) : Quiet b₁ b₃ where
  messages := h'.messages.trans h.messages
  bytes := h'.bytes.trans h.bytes
  monitor record hrecord := by
    rcases h'.monitor record hrecord with hrecord | hkind
    · exact h.monitor record hrecord
    · exact .inr hkind
  sequence := h.sequence.trans h'.sequence
  fresh hfresh := h'.fresh (h.fresh hfresh)

theorem mem_pushRecord {events : List MonitorEvent} {record new : MonitorEvent}
    (h : record ∈ pushRecord events new) : record ∈ events ∨ record = new := by
  unfold pushRecord at h
  rcases List.mem_append.mp h with h | h
  · split_ifs at h
    · exact .inl (List.mem_of_mem_tail h)
    · exact .inl h
  · exact .inr (List.mem_singleton.mp h)

theorem freshSequence_push {before after : Broker P} {record : MonitorEvent} (h : FreshSequence before)
    (hrecord : record.sequence = before.nextMonitorSequence)
    (hmonitor : after.monitorEvents = pushRecord before.monitorEvents record)
    (hsequence : after.nextMonitorSequence = saturatingAdd before.nextMonitorSequence 1) : FreshSequence after := by
  unfold FreshSequence
  rw [hmonitor, hsequence]
  intro hlast other hother
  have hnext := saturatingAdd_one hlast
  rcases mem_pushRecord hother with hother | rfl
  · exact (h (hnext.trans hlast) other hother).trans hnext
  · rw [hrecord]
    exact hnext

theorem Quiet.record {kind : MonitorKind} (hkind : kind ≠ .delivered) (broker : Broker P) (peer : PeerId)
    (target : Option String) (messageId : Option MessageId) (payloadBytes : Nat) :
    Quiet broker (broker.recordMonitor kind peer target messageId payloadBytes) := by
  refine ⟨rfl, rfl, fun record hrecord => ?_, le_saturatingAdd _ _, fun h => freshSequence_push h rfl rfl rfl⟩
  rcases mem_pushRecord hrecord with hrecord | rfl
  · exact .inl hrecord
  · exact .inr hkind

/-- A step that writes other fields, and then a record that is not of a delivery. -/
theorem Quiet.then_record {kind : MonitorKind} (hkind : kind ≠ .delivered) {before after : Broker P}
    (h : Quiet before after) (peer : PeerId) (target : Option String) (messageId : Option MessageId)
    (payloadBytes : Nat) : Quiet before (after.recordMonitor kind peer target messageId payloadBytes) :=
  h.trans (.record hkind after peer target messageId payloadBytes)

theorem admitPeer_quiet (broker : Broker P) (credentials : Credentials) (hello : ClientHello)
    (capabilities : Capabilities) (nextPeer : UInt64) :
    Quiet broker (broker.admitPeer credentials hello capabilities nextPeer) := by
  refine Quiet.then_record (show MonitorKind.connected ≠ .delivered by decide) ?_ (.new broker.nextPeer) none none 0
  exact .of_same rfl rfl rfl rfl

theorem releasePeer_quiet (broker : Broker P) (peer : PeerId) : Quiet broker (broker.releasePeer peer) := by
  refine Quiet.then_record (show MonitorKind.disconnected ≠ .delivered by decide) ?_ peer none none 0
  exact .of_same rfl rfl rfl rfl

theorem grantNamespace_quiet (broker : Broker P) (peer : PeerId) (ns : Namespace) :
    Quiet broker (broker.grantNamespace peer ns) := by
  refine Quiet.then_record (show MonitorKind.namespaceClaimed ≠ .delivered by decide) ?_ peer (some ns.asStr) none 0
  exact .of_same rfl rfl rfl rfl

theorem addSubscriber_quiet (broker : Broker P) (peer : PeerId) (channel : Channel) (filters : List HeaderFilter) :
    Quiet broker (broker.addSubscriber peer channel filters) := by
  refine Quiet.then_record (show MonitorKind.subscribed ≠ .delivered by decide) ?_ peer (some channel.asStr) none 0
  exact .of_same rfl rfl rfl rfl

theorem acknowledge_quiet [Policy P] (broker : Broker P) (peer : PeerId) (messageId : MessageId) (policy : AckPolicy) :
    Quiet broker (broker.acknowledge peer messageId policy).1 := by
  rcases acknowledge_eq broker peer messageId policy with ⟨error, h⟩ | ⟨pending, m, outcome, -, h⟩
  · rw [h]
    exact .refl broker
  · have hrecorded : Quiet broker (broker.recordMonitor .acknowledged peer none (some messageId) 0) :=
      .record (by decide) broker peer none (some messageId) 0
    rw [h]
    exact hrecorded.trans (.of_same rfl rfl rfl rfl)

theorem tickStep_quiet (nowMs : UInt64) (state : TickState P) (id : MessageId) :
    Quiet state.broker (tickStep nowMs state id).broker := by
  rw [tickStep_eq]
  cases state.broker.deliveries.get? id with
  | none => exact Quiet.refl state.broker
  | some pending =>
    simp only []
    cases tickResult nowMs pending with
    | keep => exact Quiet.refl state.broker
    | expire =>
      refine Quiet.then_record (show MonitorKind.timedOut ≠ .delivered by decide) ?_ pending.sender none (some id) 0
      exact .of_same rfl rfl rfl rfl
    | abandon => exact .of_same rfl rfl rfl rfl
    | retry updated =>
      refine Quiet.then_record (show MonitorKind.retried ≠ .delivered by decide) ?_ pending.sender none (some id)
        (deliveryBytes pending.message)
      exact .of_same rfl rfl rfl rfl

theorem tick_quiet (broker : Broker P) (nowMs : UInt64) : Quiet broker (broker.tick nowMs).1 := by
  have hloop : ∀ (ids : List MessageId) (state : TickState P),
      Quiet state.broker (ids.foldl (tickStep nowMs) state).broker := by
    intro ids
    induction ids with
    | nil => exact fun state => .refl _
    | cons id ids ih => exact fun state => (tickStep_quiet nowMs state id).trans (ih (tickStep nowMs state id))
  exact hloop broker.deliveries.keys ⟨broker, [], []⟩

/-! ## Events that serve nobody -/

def ServesNobody (events : List DeliveryEvent) : Prop :=
  ∀ sender recipients frame, .deliver sender recipients frame ∈ events → recipients = []

theorem ServesNobody.served {events : List DeliveryEvent} (h : ServesNobody events) :
    servedCount events = 0 ∧ servedBytes events = 0 := by
  have hzero : ∀ event ∈ events, recipientCount event = 0 ∧ recipientBytes event = 0 := by
    intro event hmem
    cases event with
    | deliver sender recipients frame =>
      obtain rfl := h sender recipients frame hmem
      exact ⟨rfl, Nat.mul_zero _⟩
    | result _ _ _ => exact ⟨rfl, rfl⟩
  refine ⟨List.sum_eq_zero fun n hn => ?_, List.sum_eq_zero fun n hn => ?_⟩
  · obtain ⟨event, hmem, rfl⟩ := List.mem_map.mp hn
    exact (hzero event hmem).1
  · obtain ⟨event, hmem, rfl⟩ := List.mem_map.mp hn
    exact (hzero event hmem).2

theorem servesNobody_nil : ServesNobody [] := fun _ _ _ hmem => absurd hmem List.not_mem_nil

theorem servesNobody_result (receiver : PeerId) (id : MessageId) (outcome : DeliveryOutcome) :
    ServesNobody [.result receiver id outcome] := by
  intro sender recipients frame hmem
  cases List.mem_singleton.mp hmem

theorem servesNobody_acceptedEvents {recipients : OrdSet PeerId} (h : recipients.isEmpty = true) :
    ServesNobody (acceptedEvents sender m recipients) := by
  intro sender' recipients' frame hmem
  obtain ⟨-, rfl, -⟩ := deliver_of_mem_acceptedEvents hmem
  rw [OrdMap.keys, List.isEmpty_iff.mp h]
  rfl

theorem served_acceptedEvents (sender : PeerId) (m : Message) (recipients : OrdSet PeerId) :
    servedCount (acceptedEvents sender m recipients) = recipients.size ∧
      servedBytes (acceptedEvents sender m recipients) = m.payload.length * recipients.size := by
  unfold servedCount servedBytes acceptedEvents
  split_ifs
  · simp [recipientCount, recipientBytes, payloadBytes, OrdMap.length_keys]
  · simp [recipientCount, recipientBytes, payloadBytes, OrdMap.length_keys]

/-! ## A message with recipients -/

/-- A message with recipients is counted, and served exactly if it can be. -/
theorem deliverRouted_of_nonempty {recipients : OrdSet PeerId} {priority : UInt8} {nowMs : UInt64}
    (hnonempty : recipients.isEmpty = false) :
    (∃ deliveries, (broker.deliverRouted sender m recipients priority nowMs).1 =
        { broker.recordRouting sender m recipients with deliveries }) ∧
      (Servable broker sender m recipients nowMs →
        (broker.deliverRouted sender m recipients priority nowMs).2 = .ok (acceptedEvents sender m recipients)) ∧
      (¬ Servable broker sender m recipients nowMs → ∀ events,
        (broker.deliverRouted sender m recipients priority nowMs).2 = .ok events →
          events = [.result sender m.messageId .noRecipient]) := by
  have hcases := deliverRouted_cases broker sender m recipients priority nowMs
  refine ⟨deliverRouted_state broker sender m recipients priority nowMs, fun hservable => ?_,
    fun hnot events hok => ?_⟩
  · by_cases htracked : isTracked m = true
    · have hretainable : Retainable m recipients := ⟨htracked, hnonempty, hservable.possible⟩
      rcases hcases with ⟨hnot, -⟩ | ⟨huntracked, -⟩ | ⟨-, error, hrefused, -⟩ | ⟨deadlineMs, -, hd⟩
      · exact absurd hretainable hnot
      · rw [htracked] at huntracked
        cases huntracked
      · exact absurd (hservable.fits htracked) (refused_iff.mp ⟨error, hrefused⟩)
      · rw [hd]
    · unfold deliverRouted
      simp [hnonempty, hservable.possible, htracked]
  · by_cases hpossible : requirementPossible m.ackRequirement recipients.size = true
    · have htracked : isTracked m = true ∧ ¬ Fits broker sender m nowMs := by
        by_contra hfits
        refine hnot ⟨hpossible, fun htracked => ?_⟩
        by_contra hroom
        exact hfits ⟨htracked, hroom⟩
      have hretainable : Retainable m recipients := ⟨htracked.1, hnonempty, hpossible⟩
      rcases hcases with ⟨hno, -⟩ | ⟨huntracked, -⟩ | ⟨-, error, -, hd⟩ | ⟨deadlineMs, hretained, -⟩
      · exact absurd hretainable hno
      · rw [htracked.1] at huntracked
        cases huntracked
      · rw [hd] at hok
        cases hok
      · exact absurd hretained.fits htracked.2
    · unfold deliverRouted at hok
      simp only [hnonempty, hpossible, Bool.false_eq_true, false_and, if_false, Bool.not_false, if_true] at hok
      exact (Except.ok.inj hok).symm

variable [Policy P]

structure Counts (broker : Broker P) (op : Op) (sender : PeerId) (m : Message) (nowMs : UInt64)
    (recipients : OrdSet PeerId) : Prop where
  call : op = .beginDelivery sender (.message m) nowMs
  nonempty : recipients.isEmpty = false
  connected : ∀ peer, recipients.contains peer = true → broker.peers.contains peer = true
  state : ∃ deliveries, (exec broker op).1 = { broker.recordRouting sender m recipients with deliveries }
  served : Servable broker sender m recipients nowMs →
    submitted (op, (exec broker op).2) = acceptedEvents sender m recipients
  unserved : ¬ Servable broker sender m recipients nowMs → ServesNobody (submitted (op, (exec broker op).2))
  deliverable : Deliverable broker op ↔ Servable broker sender m recipients nowMs

theorem isEmpty_ofList_iff {l : List PeerId} : (OrdSet.ofList l).isEmpty = true ↔ l = [] := by
  rw [OrdMap.isEmpty_iff, List.eq_nil_iff_forall_not_mem]
  refine forall_congr' fun peer => ?_
  rw [← OrdMap.contains_eq_false_iff, ← OrdSet.contains_ofList, Bool.not_eq_true]

theorem Routed.counts (h : Integrity broker) {priority : UInt8} {recipients : List PeerId} {nowMs : UInt64}
    (hrouted : Routed broker sender m priority recipients) (hsome : recipients ≠ []) :
    Counts broker (.beginDelivery sender (.message m) nowMs) sender m nowMs (OrdSet.ofList recipients) := by
  have hnonempty : (OrdSet.ofList recipients).isEmpty = false := by
    rw [← Bool.not_eq_true, isEmpty_ofList_iff]
    exact hsome
  have hexec : exec broker (.beginDelivery sender (.message m) nowMs) =
      (broker.deliverRouted sender m (OrdSet.ofList recipients) priority nowMs).map id .delivery := by
    rw [exec, hrouted.beginDelivery_eq]
  obtain ⟨hstate, hserved, hunserved⟩ := @deliverRouted_of_nonempty P broker sender m _ priority nowMs hnonempty
  have hsubmitted : submitted (.beginDelivery sender (.message m) nowMs,
      (exec broker (.beginDelivery sender (.message m) nowMs)).2) =
      (Reply.delivery (broker.deliverRouted sender m (OrdSet.ofList recipients) priority nowMs).2).events := by
    rw [hexec]
    exact if_neg hrouted.kind
  refine ⟨rfl, hnonempty, fun peer hpeer => ?_, ?_, fun hservable => ?_, fun hnot => ?_, fun h => ?_, fun h => ?_⟩
  · exact route_connected h hrouted.route peer (OrdSet.contains_ofList.mp hpeer)
  · rw [hexec]
    exact hstate
  · rw [hsubmitted, hserved hservable]
    rfl
  · rw [hsubmitted]
    cases hresult : (broker.deliverRouted sender m (OrdSet.ofList recipients) priority nowMs).2 with
    | error error => exact servesNobody_nil
    | ok events =>
      obtain rfl := hunserved hnot events hresult
      exact servesNobody_result _ _ _
  · exact h sender m nowMs priority recipients rfl hrouted hsome
  · intro sender' m' nowMs' priority' recipients' hop hrouted' _
    cases hop
    cases hrouted.route.symm.trans hrouted'.route
    exact h

structure CountsNothing (broker : Broker P) (op : Op) : Prop where
  quiet : Quiet broker (exec broker op).1
  served : ServesNobody (submitted (op, (exec broker op).2))
  deliverable : Deliverable broker op

omit [Policy P] in
theorem recordRouting_quiet {recipients : OrdSet PeerId} (h : recipients.isEmpty = true) :
    Quiet broker (broker.recordRouting sender m recipients) := by
  have hzero : UInt64.ofNat recipients.size = 0 := by
    rw [OrdMap.size, List.isEmpty_iff.mp h]
    rfl
  have hmul : saturatingMul (UInt64.ofNat m.payload.length) (UInt64.ofNat recipients.size) = 0 :=
    saturatingMul_eq_zero_iff.mpr (.inr hzero)
  have hcounted : Quiet broker { broker with
      metrics := { broker.metrics with
        messagesRouted := saturatingAdd broker.metrics.messagesRouted (UInt64.ofNat recipients.size)
        bytesRouted := saturatingAdd broker.metrics.bytesRouted
          (saturatingMul (UInt64.ofNat m.payload.length) (UInt64.ofNat recipients.size)) } } :=
    .of_same (saturatingAdd_eq_left_iff.mpr (.inr hzero)) (saturatingAdd_eq_left_iff.mpr (.inr hmul)) rfl rfl
  have hrecorded := hcounted.then_record (show MonitorKind.droppedSignal ≠ .delivered by decide) sender
    (some (destinationLabel m.destination)) (some m.messageId) m.payload.length
  unfold recordRouting
  simp only [h, if_true, true_and]
  split_ifs
  · exact hrecorded.trans (.of_same rfl rfl rfl rfl)
  · exact hrecorded

omit [Policy P] in
theorem deliverRouted_quiet {recipients : OrdSet PeerId} {priority : UInt8} {nowMs : UInt64}
    (h : recipients.isEmpty = true) :
    Quiet broker (broker.deliverRouted sender m recipients priority nowMs).1 ∧
      ServesNobody (Reply.delivery (broker.deliverRouted sender m recipients priority nowMs).2).events := by
  have hquiet := @recordRouting_quiet P broker sender m recipients h
  rcases deliverRouted_cases broker sender m recipients priority nowMs with
    ⟨-, hd⟩ | ⟨-, hd⟩ | ⟨-, error, -, hd⟩ | ⟨deadlineMs, -, hd⟩
  · rw [hd]
    exact ⟨hquiet, servesNobody_result _ _ _⟩
  · rw [hd]
    exact ⟨hquiet, servesNobody_acceptedEvents h⟩
  · rw [hd]
    exact ⟨hquiet, servesNobody_nil⟩
  · rw [hd]
    exact ⟨hquiet.trans (.of_same rfl rfl rfl rfl), servesNobody_acceptedEvents h⟩

theorem beginDelivery_countsNothing (sender : PeerId) (message : Frame) (nowMs : UInt64)
    (hnobody : ∀ m priority recipients, message = .message m → Routed broker sender m priority recipients →
      recipients = []) : CountsNothing broker (.beginDelivery sender message nowMs) := by
  have hdeliverable : Deliverable broker (.beginDelivery sender message nowMs) := by
    intro sender' m nowMs' priority recipients hop hrouted hsome
    cases hop
    exact absurd (hnobody m priority recipients rfl hrouted) hsome
  have hsubmitted : ServesNobody (Reply.delivery (broker.beginDelivery sender message nowMs).2).events →
      ServesNobody (submitted (.beginDelivery sender message nowMs,
        (exec broker (.beginDelivery sender message nowMs)).2)) := by
    intro hserves
    cases message with
    | message m =>
      change ServesNobody (if m.kind = .response then [] else _)
      split_ifs
      · exact servesNobody_nil
      · exact hserves
    | _ => exact servesNobody_nil
  rcases beginDelivery_cases broker sender message nowMs with
    ⟨error, hb⟩ | ⟨m, _, rfl, -, hkind, hb⟩ | ⟨m, _, rfl, -, -, -, hb⟩ | ⟨m, priority, recipients, rfl, hrouted, hb⟩
  · refine ⟨?_, hsubmitted ?_, hdeliverable⟩
    · rw [exec, hb]
      exact .refl broker
    · rw [hb]
      exact servesNobody_nil
  · refine ⟨?_, ?_, hdeliverable⟩
    · rw [exec, hb]
      obtain ⟨deliveries, hstate⟩ := completeResponse_state broker sender m
      change Quiet broker (broker.completeResponse sender (.message m)).1
      rw [hstate]
      exact .of_same rfl rfl rfl rfl
    · change ServesNobody (if m.kind = .response then [] else _)
      rw [if_pos hkind]
      exact servesNobody_nil
  · refine ⟨?_, hsubmitted ?_, hdeliverable⟩
    · rw [exec, hb]
      exact .refl broker
    · rw [hb]
      exact servesNobody_result _ _ _
  · have hempty := isEmpty_ofList_iff.mpr (hnobody m priority recipients rfl hrouted)
    obtain ⟨hquiet, hserves⟩ := @deliverRouted_quiet P broker sender m _ priority nowMs hempty
    refine ⟨?_, hsubmitted ?_, hdeliverable⟩
    · rw [exec, hb]
      exact hquiet
    · rw [hb]
      exact hserves

theorem connectSession_quiet (broker : Broker P) (credentials : Credentials) (hello : ClientHello) :
    Quiet broker (broker.connectSession credentials hello).1 := by
  rcases connectSession_cases broker credentials hello with ⟨error, hc⟩ | ⟨capabilities, nextPeer, -, hc⟩
  · rw [hc]
    exact .refl broker
  · rw [hc]
    exact admitPeer_quiet broker credentials hello capabilities nextPeer

omit [Policy P] in
theorem disconnectWithEvents_quiet (broker : Broker P) (peer : PeerId) :
    Quiet broker (broker.disconnectWithEvents peer).1 := by
  rcases disconnectWithEvents_cases broker peer with ⟨-, hc⟩ | ⟨-, hc⟩
  · rw [hc]
    exact .refl broker
  · rw [hc]
    exact (releasePeer_quiet broker peer).trans (.of_same rfl rfl rfl rfl)

theorem claim_quiet (broker : Broker P) (peer : PeerId) (ns : Namespace) : Quiet broker (broker.claim peer ns).1 := by
  rcases claim_cases broker peer ns with ⟨error, hc⟩ | ⟨-, -, hc⟩
  · rw [hc]
    exact .refl broker
  · rw [hc]
    exact grantNamespace_quiet broker peer ns

theorem subscribeWithFilters_quiet (broker : Broker P) (peer : PeerId) (channel : Channel)
    (filters : List HeaderFilter) : Quiet broker (broker.subscribeWithFilters peer channel filters).1 := by
  rcases subscribeWithFilters_cases broker peer channel filters with ⟨error, hc⟩ | ⟨-, hc⟩
  · rw [hc]
    exact .refl broker
  · rw [hc]
    exact addSubscriber_quiet broker peer channel filters

omit [Policy P] in
theorem unsubscribe_quiet (broker : Broker P) (peer : PeerId) (channel : Channel) :
    Quiet broker (broker.unsubscribe peer channel).1 := by
  rcases unsubscribe_cases broker peer channel with ⟨result, hc⟩ | ⟨subscribers, -, hc⟩
  · rw [hc]
    exact .refl broker
  · rw [hc]
    exact .of_same rfl rfl rfl rfl

theorem registerDbusName_quiet (broker : Broker P) (peer : PeerId) (name : String) :
    Quiet broker (broker.registerDbusName peer name).1 := by
  rcases registerDbusName_cases broker peer name with ⟨error, hc⟩ | ⟨-, hc⟩
  · rw [hc]
    exact .refl broker
  · rw [hc]
    exact .of_same rfl rfl rfl rfl

theorem exec_countsNothing {op : Op} (hop : ∀ sender message nowMs, op ≠ .beginDelivery sender message nowMs) :
    CountsNothing broker op := by
  have hdeliverable : Deliverable broker op :=
    fun sender m nowMs _ _ heq => absurd heq (hop sender (.message m) nowMs)
  cases op with
  | beginDelivery sender message nowMs => exact absurd rfl (hop sender message nowMs)
  | connect credentials hello => exact ⟨connectSession_quiet broker credentials hello, servesNobody_nil, hdeliverable⟩
  | disconnect peer => exact ⟨disconnectWithEvents_quiet broker peer, servesNobody_nil, hdeliverable⟩
  | claim peer ns => exact ⟨claim_quiet broker peer ns, servesNobody_nil, hdeliverable⟩
  | subscribe peer channel filters =>
    exact ⟨subscribeWithFilters_quiet broker peer channel filters, servesNobody_nil, hdeliverable⟩
  | unsubscribe peer channel => exact ⟨unsubscribe_quiet broker peer channel, servesNobody_nil, hdeliverable⟩
  | registerDbusName peer name => exact ⟨registerDbusName_quiet broker peer name, servesNobody_nil, hdeliverable⟩
  | acknowledge peer messageId policy =>
    exact ⟨acknowledge_quiet broker peer messageId policy, servesNobody_nil, hdeliverable⟩
  | tick nowMs => exact ⟨tick_quiet broker nowMs, servesNobody_nil, hdeliverable⟩
  | drainEvents => exact ⟨.of_same rfl rfl rfl rfl, servesNobody_nil, hdeliverable⟩

/-- A call counts nothing, or it has a message with recipients and counts it. -/
theorem exec_counts (h : Integrity broker) (op : Op) :
    CountsNothing broker op ∨ ∃ sender m nowMs recipients, Counts broker op sender m nowMs recipients := by
  by_cases hbegin : ∃ sender message nowMs, op = .beginDelivery sender message nowMs
  · obtain ⟨sender, message, nowMs, rfl⟩ := hbegin
    by_cases hsome : ∃ m priority recipients, message = .message m ∧ Routed broker sender m priority recipients ∧
        recipients ≠ []
    · obtain ⟨m, priority, recipients, rfl, hrouted, hne⟩ := hsome
      exact .inr ⟨sender, m, nowMs, _, hrouted.counts h hne⟩
    · refine .inl (beginDelivery_countsNothing sender message nowMs fun m priority recipients hm hrouted => ?_)
      by_contra hne
      exact hsome ⟨m, priority, recipients, hm, hrouted, hne⟩
  · refine .inl (exec_countsNothing fun sender message nowMs heq => ?_)
    exact hbegin ⟨sender, message, nowMs, heq⟩

/-! ## The counters of one call -/

/-- The counters and the sequence numbers are below their bound. -/
structure Unsaturated (broker : Broker P) : Prop where
  messages : broker.metrics.messagesRouted < u64Max
  bytes : broker.metrics.bytesRouted < u64Max
  sequence : broker.nextMonitorSequence < u64Max

/-- The payload of a message has a length that fits the machine word, as every vector has. -/
def Op.Sized (op : Op) : Prop :=
  ∀ sender m nowMs, op = .beginDelivery sender (.message m) nowMs → m.payload.length < 2 ^ 64

section Counts

variable {op : Op} {nowMs : UInt64} {recipients : OrdSet PeerId}

theorem Counts.routed (h : Counts broker op sender m nowMs recipients) :
    (exec broker op).1.metrics.messagesRouted =
        saturatingAdd broker.metrics.messagesRouted (UInt64.ofNat recipients.size) ∧
      (exec broker op).1.metrics.bytesRouted = saturatingAdd broker.metrics.bytesRouted
        (saturatingMul (UInt64.ofNat m.payload.length) (UInt64.ofNat recipients.size)) ∧
      (exec broker op).1.monitorEvents =
        pushRecord broker.monitorEvents (deliveredRecord sender m broker.nextMonitorSequence) ∧
      (exec broker op).1.nextMonitorSequence = saturatingAdd broker.nextMonitorSequence 1 := by
  obtain ⟨deliveries, hstate⟩ := h.state
  rw [hstate, recordRouting_eq h.nonempty]
  exact ⟨rfl, rfl, rfl, rfl⟩

theorem Counts.messages (h : Counts broker op sender m nowMs recipients) (hintegrity : Integrity broker)
    (hafter : Unsaturated (exec broker op).1) :
    (exec broker op).1.metrics.messagesRouted.toNat = broker.metrics.messagesRouted.toNat + recipients.size := by
  have hbelow := hafter.messages
  rw [h.routed.1] at hbelow ⊢
  rw [toNat_saturatingAdd_of_lt hbelow, UInt64.toNat_ofNat_of_lt' (size_lt_of_connected hintegrity h.connected)]

theorem Counts.bytes (h : Counts broker op sender m nowMs recipients) (hintegrity : Integrity broker)
    (hsized : op.Sized) (hafter : Unsaturated (exec broker op).1) :
    (exec broker op).1.metrics.bytesRouted.toNat =
      broker.metrics.bytesRouted.toNat + m.payload.length * recipients.size := by
  have hbelow := hafter.bytes
  rw [h.routed.2.1] at hbelow ⊢
  have hsum := toNat_saturatingAdd_of_lt hbelow
  rw [UInt64.lt_iff_toNat_lt, hsum, toNat_saturatingMul, toNat_u64Max,
    UInt64.toNat_ofNat_of_lt' (size_lt_of_connected hintegrity h.connected),
    UInt64.toNat_ofNat_of_lt' (hsized sender m nowMs h.call)] at hbelow
  rw [hsum, toNat_saturatingMul, UInt64.toNat_ofNat_of_lt' (size_lt_of_connected hintegrity h.connected),
    UInt64.toNat_ofNat_of_lt' (hsized sender m nowMs h.call)]
  omega

theorem Counts.size_pos (h : Counts broker op sender m nowMs recipients) : 0 < recipients.size :=
  OrdMap.isEmpty_eq_false_iff.mp h.nonempty

end Counts

/-- The counters were below their bound before a call if they are after it. -/
theorem exec_unsaturated (hintegrity : Integrity broker) {op : Op} (h : Unsaturated (exec broker op).1) :
    Unsaturated broker := by
  rcases exec_counts hintegrity op with hnothing | ⟨sender, m, nowMs, recipients, hcounts⟩
  · have hquiet := hnothing.quiet
    exact ⟨hquiet.messages ▸ h.messages, hquiet.bytes ▸ h.bytes, hquiet.sequence.trans_lt h.sequence⟩
  · obtain ⟨hmessages, hbytes, -, hsequence⟩ := hcounts.routed
    refine ⟨(le_saturatingAdd _ _).trans_lt (hmessages ▸ h.messages), ?_, ?_⟩
    · exact (le_saturatingAdd _ _).trans_lt (hbytes ▸ h.bytes)
    · exact (le_saturatingAdd _ _).trans_lt (hsequence ▸ h.sequence)

theorem exec_freshSequence (hintegrity : Integrity broker) (op : Op) (h : FreshSequence broker) :
    FreshSequence (exec broker op).1 := by
  rcases exec_counts hintegrity op with hnothing | ⟨sender, m, nowMs, recipients, hcounts⟩
  · exact hnothing.quiet.fresh h
  · obtain ⟨-, -, hmonitor, hsequence⟩ := hcounts.routed
    exact freshSequence_push h rfl hmonitor hsequence

/-- The counter grows by at least what is served, and by no more exactly if the call is deliverable. -/
theorem exec_counters (hintegrity : Integrity broker) {op : Op} (hsized : op.Sized)
    (hafter : Unsaturated (exec broker op).1) :
    ∃ counted, (exec broker op).1.metrics.messagesRouted.toNat = broker.metrics.messagesRouted.toNat + counted ∧
      servedCount (submitted (op, (exec broker op).2)) ≤ counted ∧
      (servedCount (submitted (op, (exec broker op).2)) = counted ↔ Deliverable broker op) ∧
      (Deliverable broker op → (exec broker op).1.metrics.bytesRouted.toNat =
        broker.metrics.bytesRouted.toNat + servedBytes (submitted (op, (exec broker op).2))) := by
  rcases exec_counts hintegrity op with hnothing | ⟨sender, m, nowMs, recipients, hcounts⟩
  · obtain ⟨hcount, hbytes⟩ := hnothing.served.served
    refine ⟨0, by rw [hnothing.quiet.messages, Nat.add_zero], hcount.le, ?_, fun _ => ?_⟩
    · exact ⟨fun _ => hnothing.deliverable, fun _ => hcount⟩
    · rw [hnothing.quiet.bytes, hbytes, Nat.add_zero]
  · refine ⟨recipients.size, hcounts.messages hintegrity hafter, ?_⟩
    rw [hcounts.deliverable]
    by_cases hservable : Servable broker sender m recipients nowMs
    · obtain ⟨hcount, hbytes⟩ := served_acceptedEvents sender m recipients
      rw [hcounts.served hservable, hcount, hbytes]
      exact ⟨le_refl _, ⟨fun _ => hservable, fun _ => rfl⟩, fun _ => hcounts.bytes hintegrity hsized hafter⟩
    · obtain ⟨hcount, -⟩ := (hcounts.unserved hservable).served
      rw [hcount]
      refine ⟨Nat.zero_le _, ⟨fun hzero => ?_, fun h => absurd h hservable⟩, fun h => absurd h hservable⟩
      exact absurd hzero hcounts.size_pos.ne

/-- A deliverable call records a delivery exactly if it makes one. -/
theorem recordsDelivery_iff (hintegrity : Integrity broker) {op : Op} (hfresh : FreshSequence broker)
    (hbefore : Unsaturated broker) (hdeliverable : Deliverable broker op) :
    RecordsDelivery broker op ↔ DeliversToSomebody broker op := by
  rcases exec_counts hintegrity op with hnothing | ⟨sender, m, nowMs, recipients, hcounts⟩
  · refine ⟨?_, ?_⟩
    · rintro ⟨record, hmem, hnew, hkind⟩
      rcases hnothing.quiet.monitor record hmem with hold | hother
      · exact absurd hold hnew
      · exact absurd hkind hother
    · rintro ⟨receiver, others, frame, hmem, hsome⟩
      exact absurd (hnothing.served receiver others frame hmem) hsome
  · have hservable := hcounts.deliverable.mp hdeliverable
    obtain ⟨-, -, hmonitor, -⟩ := hcounts.routed
    refine ⟨fun _ => ?_, fun _ => ?_⟩
    · refine ⟨sender, recipients.keys, .message m, ?_, fun hnil => ?_⟩
      · rw [hcounts.served hservable]
        exact List.mem_cons_self
      · have hsize := recipients.length_keys
        rw [hnil] at hsize
        exact absurd hsize hcounts.size_pos.ne
    · refine ⟨deliveredRecord sender m broker.nextMonitorSequence, ?_, fun hold => ?_, rfl⟩
      · rw [hmonitor]
        exact List.mem_append_right _ (List.mem_singleton_self _)
      · exact lt_irrefl _ (hfresh hbefore.sequence _ hold)

/-! ## The counters of a run -/

variable {start : Broker P} {history : List (Op × Reply)}

/-- What the induction over a run needs of its states. -/
structure CountersSound (broker : Broker P) : Prop where
  sound : Sound broker
  fresh : FreshSequence broker

theorem exec_countersSound (broker : Broker P) (op : Op) (h : CountersSound broker) :
    CountersSound (exec broker op).1 :=
  ⟨exec_sound broker op h.sound, exec_freshSequence h.sound.integrity op h.fresh⟩

omit [Policy P] in
theorem countersSound_empty (policy : P) (limits : Limits) (capabilities : Capabilities) :
    CountersSound (Broker.empty policy limits capabilities) :=
  ⟨sound_empty policy limits capabilities, fun _ _ hmem => absurd hmem List.not_mem_nil⟩

theorem run_unsaturated (hrun : Run exec start history broker) (hstart : CountersSound start)
    (h : Unsaturated broker) : Unsaturated start := by
  induction hrun with
  | nil => exact h
  | @snoc b b' history op reply hrun hstep ih =>
    have hsound := hrun.invariant exec_countersSound hstart
    refine ih (@exec_unsaturated P b _ hsound.sound.integrity op ?_)
    rw [hstep]
    exact h

theorem run_counters {policy : P} {limits : Limits} {capabilities : Capabilities}
    (hrun : Run exec (Broker.empty policy limits capabilities) history broker) (hsized : ∀ e ∈ history, e.1.Sized)
    (h : Unsaturated broker) :
    servedCount (history.flatMap submitted) ≤ broker.metrics.messagesRouted.toNat ∧
      (servedCount (history.flatMap submitted) = broker.metrics.messagesRouted.toNat ↔
        Every exec (Broker.empty policy limits capabilities) Deliverable history) ∧
      (Every exec (Broker.empty policy limits capabilities) Deliverable history →
        broker.metrics.bytesRouted.toNat = servedBytes (history.flatMap submitted)) := by
  generalize hstart : Broker.empty policy limits capabilities = start at hrun
  induction hrun with
  | nil =>
    subst hstart
    exact ⟨le_refl _, ⟨fun _ => every_nil _, fun _ => rfl⟩, fun _ => rfl⟩
  | @snoc b b' history op reply hrun hstep ih =>
    have hsound : CountersSound b := hrun.invariant exec_countersSound (hstart ▸ countersSound_empty _ _ _)
    have hexec : (exec b op).1 = b' ∧ (exec b op).2 = reply := by
      rw [hstep]
      exact ⟨rfl, rfl⟩
    rw [← hexec.1] at h
    have hbefore := exec_unsaturated hsound.sound.integrity h
    obtain ⟨hle, hiff, hbytes⟩ := ih (fun e he => hsized e (List.mem_append_left _ he)) hbefore
    have hop : op.Sized := hsized (op, reply) (List.mem_append_right _ (List.mem_singleton_self _))
    obtain ⟨counted, hcounted, hserved, hexact, hexactBytes⟩ := exec_counters hsound.sound.integrity hop h
    have hsplit : servedCount ((history ++ [(op, reply)]).flatMap submitted) =
        servedCount (history.flatMap submitted) + servedCount (submitted (op, (exec b op).2)) := by
      rw [hexec.2, List.flatMap_append, servedCount, List.map_append, List.sum_append]
      simp [servedCount]
    have hsplitBytes : servedBytes ((history ++ [(op, reply)]).flatMap submitted) =
        servedBytes (history.flatMap submitted) + servedBytes (submitted (op, (exec b op).2)) := by
      rw [hexec.2, List.flatMap_append, servedBytes, List.map_append, List.sum_append]
      simp [servedBytes]
    rw [← hexec.1, hsplit, hsplitBytes, hcounted, every_snoc hrun, ← hiff, ← hexact]
    refine ⟨by omega, by omega, fun hall => ?_⟩
    rw [hexactBytes (hexact.mp hall.2), hbytes (hiff.mp hall.1)]

/-- As long as no counter is saturated, the counters and the records of a run tell what was delivered exactly if every
message of the run that had recipients could be served: they could meet its requirement, and there was room for it. -/
theorem routing_metrics_iff {policy : P} {limits : Limits} {capabilities : Capabilities}
    (hrun : Run exec (Broker.empty policy limits capabilities) history broker) (hsized : ∀ e ∈ history, e.1.Sized)
    (hunsaturated : Unsaturated broker) :
    MetricsExact (Broker.empty policy limits capabilities) history broker ↔
      Every exec (Broker.empty policy limits capabilities) Deliverable history := by
  obtain ⟨-, hiff, hbytes⟩ := run_counters hrun hsized hunsaturated
  refine ⟨fun h => hiff.mp h.messages.symm, fun hall => ⟨(hiff.mpr hall).symm, hbytes hall, ?_⟩⟩
  intro earlier op reply later b heq hearlier
  have hsound : CountersSound b := hearlier.invariant exec_countersSound (countersSound_empty _ _ _)
  rw [heq] at hrun
  obtain ⟨b', hbefore, hlater⟩ := hrun.split
  rw [hearlier.unique hbefore] at hlater
  exact recordsDelivery_iff hsound.sound.integrity hsound.fresh (run_unsaturated hlater hsound hunsaturated)
    (hall earlier op reply later b heq hearlier)

/-! ## A message counted and not delivered -/

def unmetRequest : Message := plainRequest (numberedId 1) .received (.minimum 2) .exact (.peer (.new 2))

def unmetRun : List (Op × Reply) × Broker AllowAll :=
  run exec (Broker.empty .mk .default ∅)
    [plainConnect, plainConnect, .beginDelivery (.new 1) (.message unmetRequest) 0]

/-- The request is answered with `NO_RECIPIENT`, and counted and recorded as delivered. -/
theorem unmet_request_counted :
    Run exec (Broker.empty AllowAll.mk .default ∅) unmetRun.1 unmetRun.2 ∧
      unmetRun.1.flatMap submitted = [.result (.new 1) (numberedId 1) .noRecipient] ∧
      servedCount (unmetRun.1.flatMap submitted) = 0 ∧ unmetRun.2.metrics.messagesRouted = 1 ∧
      deliveredRecord (.new 1) unmetRequest 3 ∈ unmetRun.2.monitorEvents :=
  ⟨run_spec _ _, by decide +kernel, by decide +kernel, by decide +kernel, by decide +kernel⟩

/-- A request that its recipient gets is counted once. -/
theorem routing_metrics_iff_atLimit :
    atLimit.2.metrics.messagesRouted = 1 ∧
      MetricsExact (Broker.empty AllowAll.mk tightLimits ∅) atLimit.1 atLimit.2 := by
  have hsized : ∀ e ∈ atLimit.1, Op.Sized e.1 := by
    refine forall_run_inputs fun op hmem sender m nowMs hop => ?_
    subst hop
    simp only [plainConnect, requestToSecond, List.mem_cons, List.not_mem_nil, reduceCtorEq, false_or, or_false,
      Op.beginDelivery.injEq, Frame.message.injEq] at hmem
    obtain ⟨-, rfl, -⟩ := hmem
    decide
  have hconnect : ∀ b : Broker AllowAll, Deliverable b plainConnect := fun _ _ _ _ _ _ hop => (nomatch hop)
  refine ⟨by decide +kernel, (routing_metrics_iff (run_spec _ _) hsized ⟨by decide +kernel, by decide +kernel,
    by decide +kernel⟩).mpr ?_⟩
  refine every_run_cons (hconnect _) (every_run_cons (hconnect _) (every_run_cons ?_ (every_nil _)))
  intro sender m nowMs priority recipients hop hrouted _
  cases hop
  have hroute : (exec (exec (Broker.empty AllowAll.mk tightLimits ∅) plainConnect).1 plainConnect).1.route (.new 1)
      (.peer (.new 2)) ∅ = .ok [.new 2] := by decide +kernel
  obtain rfl : [PeerId.new 2] = recipients := Except.ok.inj (hroute.symm.trans hrouted.route)
  refine ⟨by decide +kernel, fun _ => ?_⟩
  exact ⟨by decide +kernel, by decide +kernel, fun _ => by decide +kernel, by decide +kernel⟩

end Busd.Broker
