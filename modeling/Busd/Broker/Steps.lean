import Busd.Broker.Ops

/-!
# What the delivery operations can do

One theorem per operation: `beginDelivery_cases`, `completeResponse_cases`, `acknowledge_eq`,
`tick_deliveries` and `tick_events`; `beginDelivery_state` for the next state alone. `SameRegistry` says
that none of them touches who is connected and what is registered.
-/

namespace Busd.Broker

open Words Busd.Protocol Busd.Policy

variable {P : Type} {broker : Broker P} {sender peer : PeerId}

/-! ## The registry stays -/

/-- The two states agree on everything but deliveries, events, metrics and monitor records. -/
structure SameRegistry (before after : Broker P) : Prop where
  policy : after.policy = before.policy
  limits : after.limits = before.limits
  capabilities : after.capabilities = before.capabilities
  nextPeer : after.nextPeer = before.nextPeer
  peers : after.peers = before.peers
  namespaces : after.namespaces = before.namespaces
  dbusNames : after.dbusNames = before.dbusNames
  subscriptions : after.subscriptions = before.subscriptions

theorem SameRegistry.refl (broker : Broker P) : SameRegistry broker broker :=
  ⟨rfl, rfl, rfl, rfl, rfl, rfl, rfl, rfl⟩

theorem SameRegistry.trans {b₁ b₂ b₃ : Broker P} (h : SameRegistry b₁ b₂) (h' : SameRegistry b₂ b₃) :
    SameRegistry b₁ b₃ where
  policy := h'.policy.trans h.policy
  limits := h'.limits.trans h.limits
  capabilities := h'.capabilities.trans h.capabilities
  nextPeer := h'.nextPeer.trans h.nextPeer
  peers := h'.peers.trans h.peers
  namespaces := h'.namespaces.trans h.namespaces
  dbusNames := h'.dbusNames.trans h.dbusNames
  subscriptions := h'.subscriptions.trans h.subscriptions

theorem recordRouting_sameRegistry (broker : Broker P) (sender : PeerId) (m : Message)
    (recipients : OrdSet PeerId) : SameRegistry broker (broker.recordRouting sender m recipients) := by
  unfold recordRouting
  split_ifs
  all_goals exact ⟨rfl, rfl, rfl, rfl, rfl, rfl, rfl, rfl⟩

@[simp] theorem recordRouting_deliveries (broker : Broker P) (sender : PeerId) (m : Message)
    (recipients : OrdSet PeerId) :
    (broker.recordRouting sender m recipients).deliveries = broker.deliveries := by
  unfold recordRouting
  split_ifs
  all_goals rfl

/-! ## Responses -/

/-- A response that the pending request expects from `sender`. -/
structure Expected (broker : Broker P) (sender : PeerId) (response : Message) (pending : PendingDelivery)
    (request : Message) : Prop where
  found : broker.deliveries.get? response.correlationId = some pending
  message : pending.message = .message request
  kind : request.kind = .request
  recipient : pending.recipients.contains sender = true
  unanswered : pending.responses.contains sender = false

def addResponse (pending : PendingDelivery) (sender : PeerId) (response : Message) : OrdMap PeerId Frame :=
  pending.responses.insert sender (.message response)

def completesRequest (pending : PendingDelivery) (request : Message) (sender : PeerId) (response : Message) :
    Bool :=
  responseCompletes request.requestPolicy response.status (addResponse pending sender response).size
    pending.recipients.size

/-- What is forwarded to the requester when `sender` responds. -/
def forwarded (pending : PendingDelivery) (request : Message) (sender : PeerId) (response : Message) :
    Option Frame :=
  responseForwarded request.requestPolicy response.status (completesRequest pending request sender response)
    (addResponse pending sender response) (.message response)

theorem completeResponse_cases (broker : Broker P) (sender : PeerId) (response : Message) :
    (∃ error, broker.completeResponse sender (.message response) = (broker, .error error)) ∨
      ∃ pending request, Expected broker sender response pending request ∧
        broker.completeResponse sender (.message response) =
          ({ broker with
              deliveries :=
                if completesRequest pending request sender response then
                  broker.deliveries.erase response.correlationId
                else
                  broker.deliveries.insert response.correlationId
                    { pending with responses := addResponse pending sender response } },
            .ok ((forwarded pending request sender response).toList.map
              fun message => .deliver sender [pending.sender] message)) := by
  simp only [completeResponse]
  cases hfound : broker.deliveries.get? response.correlationId with
  | none => exact .inl ⟨_, rfl⟩
  | some pending =>
    simp only []
    cases hmessage : pending.message with
    | message request =>
      simp only []
      by_cases hkind : request.kind = .request
      · by_cases hexpected : pending.recipients.contains sender = true ∧
            pending.responses.contains sender = false
        · refine .inr ⟨pending, request, ⟨hfound, hmessage, hkind, hexpected.1, hexpected.2⟩, ?_⟩
          rw [if_neg (not_not_intro hkind), if_neg (by simp [hexpected.1, hexpected.2]), hmessage]
          rfl
        · rw [if_neg (not_not_intro hkind), if_pos ?_]
          · exact .inl ⟨_, rfl⟩
          · cases hr : pending.recipients.contains sender <;> simp_all
      · rw [if_pos hkind]
        exact .inl ⟨_, rfl⟩
    | _ => exact .inl ⟨_, rfl⟩

theorem completeResponse_state (broker : Broker P) (sender : PeerId) (response : Message) :
    ∃ deliveries, (broker.completeResponse sender (.message response)).1 = { broker with deliveries } := by
  rcases completeResponse_cases broker sender response with ⟨error, h⟩ | ⟨pending, request, -, h⟩
  · exact ⟨_, congrArg Prod.fst h⟩
  · exact ⟨_, congrArg Prod.fst h⟩

/-! ## New messages -/

/-- The checks a message passes before it is routed or taken as a response. -/
structure Admitted (broker : Broker P) (sender : PeerId) (m : Message) (priority : UInt8) : Prop where
  connected : broker.peers.contains sender = true
  headers : validateMessageHeaders m.headers = .ok ()
  priority : messagePriority m.headers = .ok priority

section Routing

variable [Policy P]

/-- A message that `begin_delivery` hands to `deliverRouted`. -/
structure Routed (broker : Broker P) (sender : PeerId) (m : Message) (priority : UInt8)
    (recipients : List PeerId) : Prop extends Admitted broker sender m priority where
  kind : m.kind ≠ .response
  fresh : broker.deliveries.get? m.messageId = none
  route : broker.route sender m.destination m.headers = .ok recipients

theorem beginDelivery_cases (broker : Broker P) (sender : PeerId) (message : Frame) (nowMs : UInt64) :
    (∃ error, broker.beginDelivery sender message nowMs = (broker, .error error)) ∨
      (∃ m priority, message = .message m ∧ Admitted broker sender m priority ∧ m.kind = .response ∧
        broker.beginDelivery sender message nowMs = broker.completeResponse sender message) ∨
      (∃ m priority, message = .message m ∧ Admitted broker sender m priority ∧ m.kind ≠ .response ∧
        broker.deliveries.get? m.messageId = none ∧
        broker.beginDelivery sender message nowMs =
          (broker, .ok [.result sender m.messageId .noRecipient])) ∨
      ∃ m priority recipients, message = .message m ∧ Routed broker sender m priority recipients ∧
        broker.beginDelivery sender message nowMs =
          broker.deliverRouted sender m (OrdSet.ofList recipients) priority nowMs := by
  cases message with
  | message m =>
    rcases orReturn_cases (show broker.beginDelivery sender (.message m) nowMs = _ from rfl) with
      ⟨error, -, h⟩ | ⟨_, hconnected, h⟩
    · exact .inl ⟨error, h⟩
    rcases orReturn_cases h with ⟨error, -, h⟩ | ⟨_, hheaders, h⟩
    · exact .inl ⟨error, h⟩
    rcases orReturn_cases h with ⟨error, -, h⟩ | ⟨priority, hpriority, h⟩
    · exact .inl ⟨error, h⟩
    have hadmitted : Admitted broker sender m priority :=
      ⟨contains_of_credentials hconnected, hheaders, hpriority⟩
    by_cases hkind : m.kind = .response
    · rw [if_pos hkind] at h
      exact .inr (.inl ⟨m, priority, rfl, hadmitted, hkind, h.symm⟩)
    rw [if_neg hkind] at h
    by_cases hfresh : broker.deliveries.contains m.messageId = true
    · rw [if_pos hfresh] at h
      exact .inl ⟨_, h.symm⟩
    rw [if_neg hfresh] at h
    have hnone := OrdMap.contains_eq_false_iff.mp (Bool.not_eq_true _ ▸ hfresh)
    cases hroute : broker.route sender m.destination m.headers with
    | ok recipients =>
      rw [hroute] at h
      exact .inr (.inr (.inr ⟨m, priority, recipients, rfl, ⟨hadmitted, hkind, hnone, hroute⟩, h.symm⟩))
    | error error =>
      rw [hroute] at h
      cases error with
      | noRecipient => exact .inr (.inr (.inl ⟨m, priority, rfl, hadmitted, hkind, hnone, h.symm⟩))
      | _ => exact .inl ⟨_, h.symm⟩
  | _ => exact .inl ⟨_, rfl⟩

theorem admitted_of_beginDelivery {message : Frame} {nowMs : UInt64} {events : List DeliveryEvent}
    (h : (broker.beginDelivery sender message nowMs).2 = .ok events) :
    ∃ m priority, message = .message m ∧ Admitted broker sender m priority := by
  rcases beginDelivery_cases broker sender message nowMs with
    ⟨error, hb⟩ | ⟨m, priority, hm, hadmitted, -⟩ | ⟨m, priority, hm, hadmitted, -⟩ |
      ⟨m, priority, _, hm, hrouted, -⟩
  · rw [hb] at h
    cases h
  · exact ⟨m, priority, hm, hadmitted⟩
  · exact ⟨m, priority, hm, hadmitted⟩
  · exact ⟨m, priority, hm, hrouted.toAdmitted⟩

theorem Routed.beginDelivery_eq {m : Message} {priority : UInt8} {recipients : List PeerId} {nowMs : UInt64}
    (h : Routed broker sender m priority recipients) :
    broker.beginDelivery sender (.message m) nowMs =
      broker.deliverRouted sender m (OrdSet.ofList recipients) priority nowMs := by
  obtain ⟨found, hfound⟩ := OrdMap.contains_iff.mp h.connected
  have hfresh : broker.deliveries.contains m.messageId = false := OrdMap.contains_eq_false_iff.mpr h.fresh
  simp [beginDelivery, Broker.credentials, hfound, h.headers, h.priority, h.kind, hfresh, h.route, orReturn]

end Routing

/-- Why a routed and tracked message is refused, once the counters are written. -/
inductive Refused (broker : Broker P) (sender : PeerId) (m : Message) (nowMs : UInt64) : Error → Prop
  | capacity {error : Error} :
      broker.ensureDeliveryCapacity sender (.message m) (m.kind = .request) = .error error →
      Refused broker sender m nowMs error
  | deadline :
      broker.ensureDeliveryCapacity sender (.message m) (m.kind = .request) = .ok () →
      checkedAdd nowMs m.deadlineMs.toUInt64 = none → Refused broker sender m nowMs .deadlineOverflow

theorem ensureDeliveryCapacity_congr {b b' : Broker P} (hl : b'.limits = b.limits)
    (hd : b'.deliveries = b.deliveries) (message : Frame) (request : Bool) :
    b'.ensureDeliveryCapacity sender message request = b.ensureDeliveryCapacity sender message request := by
  unfold ensureDeliveryCapacity
  rw [hl, hd]

def queuedBy (broker : Broker P) (sender : PeerId) : List PendingDelivery :=
  broker.deliveries.values.filter fun pending => pending.sender = sender

/-- A message that the limits of its sender and the clock leave room for. -/
structure Fits (broker : Broker P) (sender : PeerId) (m : Message) (nowMs : UInt64) : Prop where
  messages : (queuedBy broker sender).length < broker.limits.maximumQueuedMessages
  bytes : ((queuedBy broker sender).map fun pending => deliveryBytes pending.message).sum +
    deliveryBytes (.message m) ≤ broker.limits.maximumQueuedBytes
  requests : m.kind = .request → ((queuedBy broker sender).filter fun pending => isRequest pending.message).length <
    broker.limits.maximumInFlightRequests
  deadline : nowMs.toNat + m.deadlineMs.toNat < 2 ^ 64

theorem ensureDeliveryCapacity_eq_ok {message : Frame} {request : Bool} :
    broker.ensureDeliveryCapacity sender message request = .ok () ↔
      (queuedBy broker sender).length < broker.limits.maximumQueuedMessages ∧
      ((queuedBy broker sender).map fun pending => deliveryBytes pending.message).sum +
        deliveryBytes message ≤ broker.limits.maximumQueuedBytes ∧
      (request = true → ((queuedBy broker sender).filter fun pending => isRequest pending.message).length <
        broker.limits.maximumInFlightRequests) := by
  unfold ensureDeliveryCapacity
  change (if broker.limits.maximumQueuedMessages ≤ (queuedBy broker sender).length then _ else
    if ((queuedBy broker sender).map fun pending => deliveryBytes pending.message).sum +
      deliveryBytes message > broker.limits.maximumQueuedBytes then _ else
    if request ∧ broker.limits.maximumInFlightRequests ≤
      ((queuedBy broker sender).filter fun pending => isRequest pending.message).length then _ else _) = _ ↔ _
  split_ifs with hmessages hbytes hrequests
  · exact ⟨fun h => (nomatch h), fun h => absurd hmessages (not_le.mpr h.1)⟩
  · exact ⟨fun h => (nomatch h), fun h => absurd hbytes (not_lt.mpr h.2.1)⟩
  · exact ⟨fun h => (nomatch h), fun h => absurd hrequests.2 (not_le.mpr (h.2.2 hrequests.1))⟩
  · refine ⟨fun _ => ⟨not_le.mp hmessages, not_lt.mp hbytes, fun hrequest => ?_⟩, fun _ => rfl⟩
    exact not_le.mp fun h => hrequests ⟨hrequest, h⟩

theorem refused_iff {m : Message} {nowMs : UInt64} :
    (∃ error, Refused broker sender m nowMs error) ↔ ¬ Fits broker sender m nowMs := by
  have hdeadline : checkedAdd nowMs m.deadlineMs.toUInt64 = none ↔
      ¬ nowMs.toNat + m.deadlineMs.toNat < 2 ^ 64 := by
    unfold checkedAdd
    rw [UInt32.toNat_toUInt64]
    split_ifs with h
    · simpa using h
    · simpa using h
  have hfits : Fits broker sender m nowMs ↔
      broker.ensureDeliveryCapacity sender (.message m) (m.kind = .request) = .ok () ∧
        nowMs.toNat + m.deadlineMs.toNat < 2 ^ 64 := by
    rw [ensureDeliveryCapacity_eq_ok]
    refine ⟨fun h => ⟨⟨h.messages, h.bytes, fun hr => h.requests (of_decide_eq_true hr)⟩, h.deadline⟩, fun h => ?_⟩
    exact ⟨h.1.1, h.1.2.1, fun hr => h.1.2.2 (decide_eq_true hr), h.2⟩
  rw [hfits]
  refine ⟨?_, fun h => ?_⟩
  · rintro ⟨error, hcapacity | ⟨-, hover⟩⟩ ⟨hok, htime⟩
    · rw [hok] at hcapacity
      cases hcapacity
    · exact hdeadline.mp hover htime
  · cases hcapacity : broker.ensureDeliveryCapacity sender (.message m) (m.kind = .request) with
    | error error => exact ⟨error, .capacity hcapacity⟩
    | ok => exact ⟨_, .deadline hcapacity (hdeadline.mpr fun htime => h ⟨hcapacity, htime⟩)⟩

/-- A message for these recipients that the broker has to retain. -/
structure Retainable (m : Message) (recipients : OrdSet PeerId) : Prop where
  tracked : isTracked m = true
  nonempty : recipients.isEmpty = false
  possible : requirementPossible m.ackRequirement recipients.size = true

/-- The entry that `begin_delivery` retains for a tracked message. -/
structure Retained (broker : Broker P) (sender : PeerId) (m : Message) (recipients : OrdSet PeerId)
    (nowMs deadlineMs : UInt64) : Prop extends Retainable m recipients where
  capacity : broker.ensureDeliveryCapacity sender (.message m) (m.kind = .request) = .ok ()
  deadline : checkedAdd nowMs m.deadlineMs.toUInt64 = some deadlineMs

theorem Retained.fits {m : Message} {recipients : OrdSet PeerId} {nowMs deadlineMs : UInt64}
    (h : Retained broker sender m recipients nowMs deadlineMs) : Fits broker sender m nowMs := by
  by_contra hfits
  obtain ⟨error, hrefused⟩ := refused_iff.mpr hfits
  cases hrefused with
  | capacity hcapacity =>
    rw [h.capacity] at hcapacity
    cases hcapacity
  | deadline _ hdeadline =>
    rw [h.deadline] at hdeadline
    cases hdeadline

theorem deliverRouted_cases (broker : Broker P) (sender : PeerId) (m : Message)
    (recipients : OrdSet PeerId) (priority : UInt8) (nowMs : UInt64) :
    (¬ Retainable m recipients ∧ broker.deliverRouted sender m recipients priority nowMs =
        (broker.recordRouting sender m recipients, .ok [.result sender m.messageId .noRecipient])) ∨
      (isTracked m = false ∧ broker.deliverRouted sender m recipients priority nowMs =
        (broker.recordRouting sender m recipients, .ok (acceptedEvents sender m recipients))) ∨
      (Retainable m recipients ∧ ∃ error, Refused broker sender m nowMs error ∧
        broker.deliverRouted sender m recipients priority nowMs =
          (broker.recordRouting sender m recipients, .error error)) ∨
      ∃ deadlineMs, Retained broker sender m recipients nowMs deadlineMs ∧
        broker.deliverRouted sender m recipients priority nowMs =
          ({ broker.recordRouting sender m recipients with
              deliveries := broker.deliveries.insert m.messageId
                (newPending sender m recipients deadlineMs nowMs priority) },
            .ok (acceptedEvents sender m recipients)) := by
  unfold deliverRouted
  simp only []
  by_cases hempty : recipients.isEmpty = true ∧ isTracked m = true
  · rw [if_pos hempty]
    exact .inl ⟨fun h => by simp [h.nonempty] at hempty, rfl⟩
  rw [if_neg hempty]
  by_cases hpossible : requirementPossible m.ackRequirement recipients.size = true
  swap
  · rw [if_pos (by simpa using hpossible)]
    exact .inl ⟨fun h => hpossible h.possible, rfl⟩
  rw [if_neg (by simpa using hpossible)]
  by_cases htracked : isTracked m = true
  swap
  · rw [if_neg htracked]
    exact .inr (.inl ⟨by simpa using htracked, rfl⟩)
  rw [if_pos htracked, ensureDeliveryCapacity_congr (recordRouting_sameRegistry broker sender m recipients).limits
    (recordRouting_deliveries broker sender m recipients), recordRouting_deliveries]
  have hnonempty : recipients.isEmpty = false := by
    cases h : recipients.isEmpty
    · rfl
    · exact absurd ⟨h, htracked⟩ hempty
  have hretainable : Retainable m recipients := ⟨htracked, hnonempty, hpossible⟩
  cases hcapacity : broker.ensureDeliveryCapacity sender (.message m) (m.kind = .request) with
  | error error => exact .inr (.inr (.inl ⟨hretainable, error, .capacity hcapacity, rfl⟩))
  | ok =>
    cases hdeadline : checkedAdd nowMs m.deadlineMs.toUInt64 with
    | none => exact .inr (.inr (.inl ⟨hretainable, _, .deadline hcapacity hdeadline, rfl⟩))
    | some deadlineMs => exact .inr (.inr (.inr ⟨deadlineMs, ⟨hretainable, hcapacity, hdeadline⟩, rfl⟩))

theorem deliverRouted_state (broker : Broker P) (sender : PeerId) (m : Message) (recipients : OrdSet PeerId)
    (priority : UInt8) (nowMs : UInt64) :
    ∃ deliveries, (broker.deliverRouted sender m recipients priority nowMs).1 =
      { broker.recordRouting sender m recipients with deliveries } := by
  rcases deliverRouted_cases broker sender m recipients priority nowMs with
    ⟨-, h⟩ | ⟨-, h⟩ | ⟨-, error, -, h⟩ | ⟨deadlineMs, -, h⟩
  · exact ⟨_, congrArg Prod.fst h⟩
  · exact ⟨_, congrArg Prod.fst h⟩
  · exact ⟨_, congrArg Prod.fst h⟩
  · exact ⟨_, congrArg Prod.fst h⟩

section Calls

variable [Policy P]

theorem beginDelivery_state (broker : Broker P) (sender : PeerId) (message : Frame) (nowMs : UInt64) :
    (∃ deliveries, (broker.beginDelivery sender message nowMs).1 = { broker with deliveries }) ∨
      ∃ m priority recipients deliveries, message = .message m ∧ Routed broker sender m priority recipients ∧
        (broker.beginDelivery sender message nowMs).1 =
          { broker.recordRouting sender m (OrdSet.ofList recipients) with deliveries } := by
  rcases beginDelivery_cases broker sender message nowMs with
    ⟨error, h⟩ | ⟨m, _, rfl, -, -, h⟩ | ⟨m, _, rfl, -, -, -, h⟩ | ⟨m, priority, recipients, rfl, hrouted, h⟩
  · exact .inl ⟨_, congrArg Prod.fst h⟩
  · obtain ⟨deliveries, hstate⟩ := completeResponse_state broker sender m
    exact .inl ⟨deliveries, (congrArg Prod.fst h).trans hstate⟩
  · exact .inl ⟨_, congrArg Prod.fst h⟩
  · obtain ⟨deliveries, hstate⟩ := deliverRouted_state broker sender m (OrdSet.ofList recipients) priority nowMs
    exact .inr ⟨m, priority, recipients, deliveries, rfl, hrouted, (congrArg Prod.fst h).trans hstate⟩

theorem beginDelivery_sameRegistry (broker : Broker P) (sender : PeerId) (message : Frame) (nowMs : UInt64) :
    SameRegistry broker (broker.beginDelivery sender message nowMs).1 := by
  rcases beginDelivery_state broker sender message nowMs with
    ⟨deliveries, h⟩ | ⟨m, priority, recipients, deliveries, -, -, h⟩
  · rw [h]
    exact ⟨rfl, rfl, rfl, rfl, rfl, rfl, rfl, rfl⟩
  · rw [h]
    refine (recordRouting_sameRegistry broker sender m (OrdSet.ofList recipients)).trans ?_
    exact ⟨rfl, rfl, rfl, rfl, rfl, rfl, rfl, rfl⟩

/-! ## Acknowledgements -/

/-- An acknowledgement by `peer` that the broker accepts. -/
structure Acknowledged (broker : Broker P) (peer : PeerId) (messageId : MessageId) (policy : AckPolicy)
    (pending : PendingDelivery) (m : Message) (outcome : DeliveryOutcome) : Prop where
  authorized : broker.authorize peer .acknowledge = .ok ()
  found : broker.deliveries.get? messageId = some pending
  message : pending.message = .message m
  recipient : pending.recipients.contains peer = true
  stage : acknowledgementSatisfies m.ackPolicy policy = true
  outcome : ackOutcome m.ackPolicy = some outcome

theorem ackOutcome_of_satisfies {required actual : AckPolicy}
    (h : acknowledgementSatisfies required actual = true) : ∃ outcome, ackOutcome required = some outcome := by
  cases required with
  | received => exact ⟨_, rfl⟩
  | processed => exact ⟨_, rfl⟩
  | none => cases h
  | accepted => cases h

def afterAck (broker : Broker P) (messageId : MessageId) (pending : PendingDelivery) (m : Message)
    (peer : PeerId) : OrdMap MessageId PendingDelivery :=
  if ackCompletes pending m peer ∧ m.kind ≠ .request then broker.deliveries.erase messageId
  else broker.deliveries.insert messageId (recordAck pending m peer)

/-- A refused acknowledgement changes nothing; an accepted one changes its entry and writes a record. -/
theorem acknowledge_eq (broker : Broker P) (peer : PeerId) (messageId : MessageId) (policy : AckPolicy) :
    (∃ error, broker.acknowledge peer messageId policy = (broker, .error error)) ∨
      ∃ pending m outcome, Acknowledged broker peer messageId policy pending m outcome ∧
        broker.acknowledge peer messageId policy =
          ({ broker.recordMonitor .acknowledged peer none (some messageId) 0 with
              deliveries := afterAck broker messageId pending m peer },
            .ok (if ackCompletes pending m peer then [.result pending.sender messageId outcome] else [])) := by
  rcases orReturn_cases (show broker.acknowledge peer messageId policy = _ from rfl) with
    ⟨error, -, h⟩ | ⟨_, hauth, h⟩
  · exact .inl ⟨error, h⟩
  rw [← h]
  cases hfound : broker.deliveries.get? messageId with
  | none => exact .inl ⟨_, rfl⟩
  | some pending =>
    simp only []
    cases hmessage : pending.message with
    | message m =>
      simp only []
      by_cases hexpected : pending.recipients.contains peer = true ∧
          acknowledgementSatisfies m.ackPolicy policy = true
      swap
      · rw [if_pos (by cases hr : pending.recipients.contains peer <;> simp_all)]
        exact .inl ⟨_, rfl⟩
      rw [if_neg (by simp [hexpected.1, hexpected.2])]
      obtain ⟨outcome, houtcome⟩ := ackOutcome_of_satisfies hexpected.2
      rw [houtcome]
      refine .inr ⟨pending, m, outcome,
        ⟨hauth, hfound, hmessage, hexpected.1, hexpected.2, houtcome⟩, ?_⟩
      unfold afterAck
      simp only []
      cases hcomplete : ackCompletes pending m peer with
      | false => rfl
      | true =>
        by_cases hkind : m.kind = .request
        · rw [if_neg (by simp), if_neg (not_not_intro hkind), if_neg (by simp [hkind])]
          rfl
        · rw [if_neg (by simp), if_pos hkind, if_pos ⟨rfl, hkind⟩,
            ← OrdMap.erase_insert broker.deliveries messageId (recordAck pending m peer)]
          rfl
    | _ => exact .inl ⟨_, rfl⟩

theorem acknowledge_cases (broker : Broker P) (peer : PeerId) (messageId : MessageId) (policy : AckPolicy) :
    (∃ error, broker.acknowledge peer messageId policy = (broker, .error error)) ∨
      ∃ pending m outcome, Acknowledged broker peer messageId policy pending m outcome ∧
        SameRegistry broker (broker.acknowledge peer messageId policy).1 ∧
        (broker.acknowledge peer messageId policy).1.deliveries = afterAck broker messageId pending m peer ∧
        (broker.acknowledge peer messageId policy).2 =
          .ok (if ackCompletes pending m peer then [.result pending.sender messageId outcome] else []) := by
  rcases acknowledge_eq broker peer messageId policy with hrefused | ⟨pending, m, outcome, hack, h⟩
  · exact .inl hrefused
  · refine .inr ⟨pending, m, outcome, hack, ?_⟩
    rw [h]
    exact ⟨⟨rfl, rfl, rfl, rfl, rfl, rfl, rfl, rfl⟩, rfl, rfl⟩

theorem acknowledge_sameRegistry (broker : Broker P) (peer : PeerId) (messageId : MessageId)
    (policy : AckPolicy) : SameRegistry broker (broker.acknowledge peer messageId policy).1 := by
  rcases acknowledge_cases broker peer messageId policy with ⟨error, h⟩ | ⟨_, _, _, -, h, -, -⟩
  · rw [h]
    exact .refl _
  · exact h

end Calls

/-! ## Deadlines and retries -/

inductive TickResult where
  | keep
  | expire
  | abandon
  | retry (updated : PendingDelivery)

def nextAttempt (nowMs : UInt64) (pending : PendingDelivery) : PendingDelivery :=
  { pending with
    attempts := pending.attempts + 1
    nextRetryMs := retryNext (frameRetry pending.message) nowMs (pending.attempts + 1) }

def retryDue (nowMs : UInt64) (pending : PendingDelivery) : Bool :=
  pending.nextRetryMs.any (· ≤ nowMs)

def tickResult (nowMs : UInt64) (pending : PendingDelivery) : TickResult :=
  if pending.deadlineMs ≤ nowMs then .expire
  else if !retryDue nowMs pending then .keep
  else
    match frameRetry pending.message with
    | .none => .keep
    | .exponential _ maxAttempts =>
      if maxAttempts ≤ pending.attempts then .abandon else .retry (nextAttempt nowMs pending)

def afterTick (nowMs : UInt64) (pending : PendingDelivery) : Option PendingDelivery :=
  match tickResult nowMs pending with
  | .keep => some pending
  | .expire | .abandon => none
  | .retry updated => some updated

def tickOutcomes (nowMs : UInt64) (messageId : MessageId) (pending : PendingDelivery) : List DeliveryEvent :=
  match tickResult nowMs pending with
  | .expire => [.result pending.sender messageId .timeout]
  | .abandon => [.result pending.sender messageId .deliveryFailed]
  | .keep | .retry _ => []

/-- The repeated delivery of an entry, to the recipients that did not acknowledge it. -/
def redelivery (pending : PendingDelivery) : DeliveryEvent :=
  .deliver pending.sender (OrdSet.difference pending.recipients pending.acknowledgements).keys pending.message

def tickRetries (nowMs : UInt64) (pending : PendingDelivery) : List (UInt8 × DeliveryEvent) :=
  match tickResult nowMs pending with
  | .retry _ => [(pending.priority, redelivery pending)]
  | .keep | .expire | .abandon => []

/-- The loop of `tick` after one entry. -/
def TickState.move (state : TickState P) (id : MessageId) (pending : PendingDelivery) : TickResult → TickState P
  | .keep => state
  | .expire =>
    { state with
      broker := { state.broker with
        deliveries := state.broker.deliveries.erase id
        metrics := { state.broker.metrics with
          timeouts := saturatingAdd state.broker.metrics.timeouts 1 } }.recordMonitor
            .timedOut pending.sender none (some id) 0
      events := state.events ++ [.result pending.sender id .timeout] }
  | .abandon =>
    { state with
      broker := { state.broker with deliveries := state.broker.deliveries.erase id }
      events := state.events ++ [.result pending.sender id .deliveryFailed] }
  | .retry updated =>
    { state with
      broker := { state.broker with
        deliveries := state.broker.deliveries.insert id updated
        metrics := { state.broker.metrics with
          retries := saturatingAdd state.broker.metrics.retries 1 } }.recordMonitor
            .retried pending.sender none (some id) (deliveryBytes pending.message)
      retries := state.retries ++ [(pending.priority, redelivery pending)] }

/-- The loop body in terms of `tickResult`. -/
theorem tickStep_eq (nowMs : UInt64) (state : TickState P) (id : MessageId) :
    tickStep nowMs state id = match state.broker.deliveries.get? id with
      | none => state
      | some pending => state.move id pending (tickResult nowMs pending) := by
  unfold tickStep
  cases state.broker.deliveries.get? id with
  | none => rfl
  | some pending =>
    simp only []
    unfold tickResult retryDue
    by_cases hdeadline : pending.deadlineMs ≤ nowMs
    · rw [if_pos hdeadline, if_pos hdeadline]
      rfl
    rw [if_neg hdeadline, if_neg hdeadline]
    cases hnext : pending.nextRetryMs with
    | none => rfl
    | some nextRetryMs =>
      simp only [Option.any_some]
      by_cases hdue : nowMs < nextRetryMs
      · rw [if_pos hdue, if_pos (by simpa using hdue)]
        rfl
      rw [if_neg hdue, if_neg (by simpa using hdue)]
      cases hpolicy : frameRetry pending.message with
      | none => rfl
      | exponential backoff maxAttempts =>
        simp only []
        by_cases hlast : maxAttempts ≤ pending.attempts
        · rw [if_pos hlast, if_pos hlast]
          rfl
        · rw [if_neg hlast, if_neg hlast]
          unfold nextAttempt
          rw [hpolicy]
          rfl

/-- What one round does to the registry, to the entries and to the two lists of events. -/
theorem tickStep_spec (nowMs : UInt64) (state : TickState P) (id : MessageId) :
    SameRegistry state.broker (tickStep nowMs state id).broker ∧
      (∀ id', (tickStep nowMs state id).broker.deliveries.get? id' =
        if id' = id then (state.broker.deliveries.get? id).bind (afterTick nowMs)
        else state.broker.deliveries.get? id') ∧
      (tickStep nowMs state id).events =
        state.events ++ (state.broker.deliveries.get? id).elim [] (tickOutcomes nowMs id) ∧
      (tickStep nowMs state id).retries =
        state.retries ++ (state.broker.deliveries.get? id).elim [] (tickRetries nowMs) := by
  rw [tickStep_eq]
  have hself : ∀ id', state.broker.deliveries.get? id' =
      if id' = id then state.broker.deliveries.get? id else state.broker.deliveries.get? id' := by
    intro id'
    split_ifs with hid
    · rw [hid]
    · rfl
  cases hget : state.broker.deliveries.get? id with
  | none =>
    rw [hget] at hself
    exact ⟨.refl _, hself, (List.append_nil _).symm, (List.append_nil _).symm⟩
  | some pending =>
    rw [hget] at hself
    simp only [Option.bind_some, Option.elim_some, afterTick, tickOutcomes, tickRetries]
    cases tickResult nowMs pending with
    | keep => exact ⟨.refl _, hself, (List.append_nil _).symm, (List.append_nil _).symm⟩
    | expire =>
      refine ⟨⟨rfl, rfl, rfl, rfl, rfl, rfl, rfl, rfl⟩, fun id' => ?_, rfl, (List.append_nil _).symm⟩
      exact OrdMap.get?_erase ..
    | abandon =>
      refine ⟨⟨rfl, rfl, rfl, rfl, rfl, rfl, rfl, rfl⟩, fun id' => ?_, rfl, (List.append_nil _).symm⟩
      exact OrdMap.get?_erase ..
    | retry updated =>
      refine ⟨⟨rfl, rfl, rfl, rfl, rfl, rfl, rfl, rfl⟩, fun id' => ?_, (List.append_nil _).symm, rfl⟩
      exact OrdMap.get?_insert ..

/-- A round leaves the entries alone that come after it. -/
theorem tickStep_later (nowMs : UInt64) (state : TickState P) {id : MessageId} {ids : List MessageId} (h : id ∉ ids) :
    ∀ id' ∈ ids, (tickStep nowMs state id).broker.deliveries.get? id' = state.broker.deliveries.get? id' := by
  intro id' hid'
  have hne : id' ≠ id := fun heq => h (heq ▸ hid')
  rw [(tickStep_spec nowMs state id).2.1, if_neg hne]

/-- The loop visits each entry once, in the state `tick` started from. -/
theorem tickLoop_spec (nowMs : UInt64) (ids : List MessageId) (hids : ids.Nodup) (state : TickState P) :
    SameRegistry state.broker (ids.foldl (tickStep nowMs) state).broker ∧
      (∀ id', (ids.foldl (tickStep nowMs) state).broker.deliveries.get? id' =
        if id' ∈ ids then (state.broker.deliveries.get? id').bind (afterTick nowMs)
        else state.broker.deliveries.get? id') ∧
      (ids.foldl (tickStep nowMs) state).events = state.events ++
        (ids.flatMap fun id => (state.broker.deliveries.get? id).elim [] (tickOutcomes nowMs id)) ∧
      (ids.foldl (tickStep nowMs) state).retries = state.retries ++
        ids.flatMap fun id => (state.broker.deliveries.get? id).elim [] (tickRetries nowMs) := by
  induction ids generalizing state with
  | nil => exact ⟨.refl _, fun id' => by simp, by simp, by simp⟩
  | cons id ids ih =>
    obtain ⟨hnotin, hids⟩ := List.nodup_cons.mp hids
    obtain ⟨hreg, hget, hevents, hretries⟩ := tickStep_spec nowMs state id
    obtain ⟨hreg', hget', hevents', hretries'⟩ := ih hids (tickStep nowMs state id)
    have hlater := tickStep_later nowMs state hnotin
    rw [List.foldl_cons]
    refine ⟨hreg.trans hreg', fun id' => ?_, ?_, ?_⟩
    · rw [hget', hget]
      by_cases hid : id' = id
      · subst hid
        simp [hnotin]
      · simp [hid]
    · rw [hevents', hevents, List.flatMap_cons, List.append_assoc]
      congr 2
      exact List.flatMap_congr fun id' hid' => by rw [hlater id' hid']
    · rw [hretries', hretries, List.flatMap_cons, List.append_assoc]
      congr 2
      exact List.flatMap_congr fun id' hid' => by rw [hlater id' hid']

theorem tick_sameRegistry (broker : Broker P) (nowMs : UInt64) :
    SameRegistry broker (broker.tick nowMs).1 :=
  (tickLoop_spec nowMs broker.deliveries.keys broker.deliveries.nodup_keys ⟨broker, [], []⟩).1

theorem tick_deliveries (broker : Broker P) (nowMs : UInt64) (id : MessageId) :
    (broker.tick nowMs).1.deliveries.get? id = (broker.deliveries.get? id).bind (afterTick nowMs) := by
  have hloop := tickLoop_spec nowMs broker.deliveries.keys broker.deliveries.nodup_keys ⟨broker, [], []⟩
  have hget := hloop.2.1 id
  unfold tick
  rw [hget]
  by_cases hid : id ∈ broker.deliveries.keys
  · rw [if_pos hid]
  · have hnone : broker.deliveries.get? id = none := by
      rw [OrdMap.mem_keys_iff, Bool.not_eq_true, OrdMap.contains_eq_false_iff] at hid
      exact hid
    rw [if_neg hid, hnone]
    rfl

/-- The events of `tick`: the outcomes in key order, then the repeated deliveries in some order. -/
theorem tick_events (broker : Broker P) (nowMs : UInt64) :
    ∃ repeated, (broker.tick nowMs).2 =
        (broker.deliveries.entries.flatMap fun e => tickOutcomes nowMs e.1 e.2) ++ repeated ∧
      repeated.Perm (broker.deliveries.entries.flatMap fun e => (tickRetries nowMs e.2).map Prod.snd) := by
  have hloop := tickLoop_spec nowMs broker.deliveries.keys broker.deliveries.nodup_keys ⟨broker, [], []⟩
  obtain ⟨-, -, hevents, hretries⟩ := hloop
  refine ⟨(sortRetries (broker.deliveries.keys.foldl (tickStep nowMs) ⟨broker, [], []⟩).retries).map Prod.snd,
    ?_, ?_⟩
  · change _ ++ _ = _ ++ _
    rw [hevents, List.nil_append, OrdMap.flatMap_keys broker.deliveries (tickOutcomes nowMs)]
  · refine ((List.perm_insertionSort _ _).map _).trans ?_
    rw [hretries, List.nil_append, OrdMap.flatMap_keys broker.deliveries fun _ => tickRetries nowMs,
      List.map_flatMap]

/-! ## Who is connected -/

structure SamePeers (before after : Broker P) : Prop where
  limits : after.limits = before.limits
  nextPeer : after.nextPeer = before.nextPeer
  peers : after.peers = before.peers

theorem SameRegistry.samePeers {before after : Broker P} (h : SameRegistry before after) :
    SamePeers before after := ⟨h.limits, h.nextPeer, h.peers⟩

/-- Only `connect_session` and `disconnect_with_events` change who is connected. -/
theorem exec_samePeers [Policy P] (broker : Broker P) {op : Op}
    (hconnect : ∀ credentials hello, op ≠ .connect credentials hello)
    (hdisconnect : ∀ peer, op ≠ .disconnect peer) : SamePeers broker (exec broker op).1 := by
  have hself : SamePeers broker broker := ⟨rfl, rfl, rfl⟩
  cases op with
  | connect credentials hello => exact absurd rfl (hconnect credentials hello)
  | disconnect peer => exact absurd rfl (hdisconnect peer)
  | claim peer ns =>
    rcases claim_cases broker peer ns with ⟨error, h⟩ | ⟨-, -, h⟩
    · simp only [exec, h]
      exact hself
    · simp only [exec, h]
      exact ⟨rfl, rfl, rfl⟩
  | subscribe peer channel filters =>
    rcases subscribeWithFilters_cases broker peer channel filters with ⟨error, h⟩ | ⟨-, h⟩
    · simp only [exec, h]
      exact hself
    · simp only [exec, h]
      exact ⟨rfl, rfl, rfl⟩
  | unsubscribe peer channel =>
    rcases unsubscribe_cases broker peer channel with ⟨result, h⟩ | ⟨subscribers, -, h⟩
    · simp only [exec, h]
      exact hself
    · simp only [exec, h]
      exact ⟨rfl, rfl, rfl⟩
  | registerDbusName peer name =>
    rcases registerDbusName_cases broker peer name with ⟨error, h⟩ | ⟨-, h⟩
    · simp only [exec, h]
      exact hself
    · simp only [exec, h]
      exact ⟨rfl, rfl, rfl⟩
  | beginDelivery sender message nowMs => exact (beginDelivery_sameRegistry broker sender message nowMs).samePeers
  | acknowledge peer messageId policy => exact (acknowledge_sameRegistry broker peer messageId policy).samePeers
  | tick nowMs => exact (tick_sameRegistry broker nowMs).samePeers
  | drainEvents => exact ⟨rfl, rfl, rfl⟩

theorem contains_admitPeer {credentials : Credentials} {hello : ClientHello} {capabilities : Capabilities}
    {nextPeer : UInt64} {id : PeerId} :
    (broker.admitPeer credentials hello capabilities nextPeer).peers.contains id = true ↔
      id = .new broker.nextPeer ∨ broker.peers.contains id = true := OrdMap.contains_insert

variable [Policy P]

theorem contains_disconnect {gone id : PeerId} :
    (exec broker (.disconnect gone)).1.peers.contains id = true ↔
      id ≠ gone ∧ broker.peers.contains id = true := by
  rcases disconnectWithEvents_cases broker gone with ⟨hunknown, h⟩ | ⟨-, h⟩
  · simp only [exec, h, Prod.map_fst, id_eq]
    refine ⟨fun hid => ⟨fun heq => ?_, hid⟩, And.right⟩
    rw [heq, hunknown] at hid
    cases hid
  · simp only [exec, h, Prod.map_fst, id_eq]
    exact OrdMap.contains_erase

theorem disconnect_nextPeer (broker : Broker P) (gone : PeerId) :
    (exec broker (.disconnect gone)).1.nextPeer = broker.nextPeer ∧
      (exec broker (.disconnect gone)).1.limits = broker.limits := by
  rcases disconnectWithEvents_cases broker gone with ⟨-, h⟩ | ⟨-, h⟩
  · simp only [exec, h]
    exact ⟨rfl, rfl⟩
  · simp only [exec, h]
    exact ⟨rfl, rfl⟩

/-- A call keeps the limits; only `disconnect` removes a peer, and only the one it names. -/
theorem exec_limits_peers (broker : Broker P) (op : Op) :
    (exec broker op).1.limits = broker.limits ∧
      ∀ peer, broker.peers.contains peer = true → op ≠ .disconnect peer →
        (exec broker op).1.peers.contains peer = true := by
  have hsame : SamePeers broker (exec broker op).1 → (exec broker op).1.limits = broker.limits ∧
      ∀ peer, broker.peers.contains peer = true → op ≠ .disconnect peer →
        (exec broker op).1.peers.contains peer = true := by
    intro h
    refine ⟨h.limits, fun peer hpeer _ => ?_⟩
    rw [h.peers]
    exact hpeer
  cases op with
  | connect credentials hello =>
    rcases connectSession_cases broker credentials hello with ⟨error, h⟩ | ⟨_, _, -, h⟩
    · refine hsame ?_
      simp only [exec, h]
      exact ⟨rfl, rfl, rfl⟩
    · simp only [exec, h]
      exact ⟨rfl, fun peer hpeer _ => contains_admitPeer.mpr (.inr hpeer)⟩
  | disconnect gone =>
    refine ⟨(disconnect_nextPeer broker gone).2, fun peer hpeer hne => ?_⟩
    exact contains_disconnect.mpr ⟨fun heq => hne (heq ▸ rfl), hpeer⟩
  | _ => exact hsame (exec_samePeers broker (fun _ _ h => by cases h) fun _ h => by cases h)

end Busd.Broker
