import Busd.Broker.Ops
import Busd.Lib.Related

/-!
# Payloads are opaque

Two brokers that differ only in the payload bytes they hold, each payload being as long as its counterpart,
do the same in every call. The counterparts are given by a relation `R` between messages, so that what one
broker hands out is known to be the counterpart of what the other one does.

* `Alike` : two messages up to their payload bytes;
* `FrameRel`, `PendingRel`, `BrokerRel`, `EventRel` : `R` carried to what holds messages;
* `exec_related` : every call keeps the relation and returns related replies;
* `payload_noninterference` : two runs.
-/

namespace Busd.Broker

open Words Machine Busd.Protocol Busd.Policy

/-! ## Relations -/

/-- The messages differ in their payload bytes only, not in how many there are. -/
def Alike (m m' : Message) : Prop := ∃ payload, m' = { m with payload } ∧ payload.length = m.payload.length

inductive FrameRel (R : Message → Message → Prop) : Frame → Frame → Prop
  | message {m m' : Message} (h : R m m') : FrameRel R (.message m) (.message m')
  | other {frame : Frame} (h : ∀ m, frame ≠ .message m) : FrameRel R frame frame

/-- The entries differ in the messages they hold only. -/
inductive PendingRel (R : Message → Message → Prop) (pending : PendingDelivery) : PendingDelivery → Prop
  | mk {message : Frame} {responses : OrdMap PeerId Frame} (hmessage : FrameRel R pending.message message)
      (hresponses : pending.responses.Related (FrameRel R) responses) :
      PendingRel R pending { pending with message, responses }

inductive EventRel (R : Message → Message → Prop) : DeliveryEvent → DeliveryEvent → Prop
  | deliver {sender : PeerId} {recipients : List PeerId} {message message' : Frame} (h : FrameRel R message message') :
      EventRel R (.deliver sender recipients message) (.deliver sender recipients message')
  | result {sender : PeerId} {messageId : MessageId} {outcome : DeliveryOutcome} :
      EventRel R (.result sender messageId outcome) (.result sender messageId outcome)

inductive ResultRel {α : Type} (S : α → α → Prop) : Except Error α → Except Error α → Prop
  | error {error : Error} : ResultRel S (.error error) (.error error)
  | ok {a a' : α} (h : S a a') : ResultRel S (.ok a) (.ok a')

inductive ReplyRel (R : Message → Message → Prop) : Reply → Reply → Prop
  | delivery {result result' : Except Error (List DeliveryEvent)}
      (h : ResultRel (List.Forall₂ (EventRel R)) result result') : ReplyRel R (.delivery result) (.delivery result')
  | connected {result : Except Error ConnectedPeer} : ReplyRel R (.connected result) (.connected result)
  | completed {result : Except Error Unit} : ReplyRel R (.completed result) (.completed result)
  | lifecycle {events : List LifecycleEvent} : ReplyRel R (.lifecycle events) (.lifecycle events)

/-- The same call, up to the message it submits. -/
inductive OpRel (R : Message → Message → Prop) : Op → Op → Prop
  | begin {sender : PeerId} {m m' : Message} {nowMs : UInt64} (h : R m m') :
      OpRel R (.beginDelivery sender (.message m) nowMs) (.beginDelivery sender (.message m') nowMs)
  | same {op : Op} (h : ∀ sender m nowMs, op ≠ .beginDelivery sender (.message m) nowMs) : OpRel R op op

variable {P : Type}

/-- The brokers differ in the messages of their entries only. -/
inductive BrokerRel (R : Message → Message → Prop) (broker : Broker P) : Broker P → Prop
  | mk {deliveries : OrdMap MessageId PendingDelivery} (h : broker.deliveries.Related (PendingRel R) deliveries) :
      BrokerRel R broker { broker with deliveries }

structure OutcomeRel {α : Type} (R : Message → Message → Prop) (S : α → α → Prop) (o o' : Outcome P α) : Prop where
  state : BrokerRel R o.1 o'.1
  result : ResultRel S o.2 o'.2

variable {R : Message → Message → Prop} {α : Type} {S : α → α → Prop} {broker broker' : Broker P}

theorem BrokerRel.of (heq : broker' = { broker with deliveries := broker'.deliveries })
    (h : broker.deliveries.Related (PendingRel R) broker'.deliveries) : BrokerRel R broker broker' := by
  rw [heq]
  exact ⟨h⟩

theorem outcomeRel_error (h : BrokerRel R broker broker') {error : Error} :
    OutcomeRel R S (broker, .error error) (broker', .error error) := ⟨h, .error⟩

theorem outcomeRel_ok (h : BrokerRel R broker broker') {a a' : α} (ha : S a a') :
    OutcomeRel R S (broker, .ok a) (broker', .ok a') := ⟨h, .ok ha⟩

theorem outcomeRel_orReturn {β : Type} (h : BrokerRel R broker broker') {x : Except Error β}
    {next next' : β → Outcome P α} (hnext : ∀ b, OutcomeRel R S (next b) (next' b)) :
    OutcomeRel R S (broker.orReturn x next) (broker'.orReturn x next') := by
  cases x with
  | error error => exact outcomeRel_error h
  | ok b => exact hnext b

theorem outcomeRel_ite {p : Prop} [Decidable p] {a b a' b' : Outcome P α} (h : OutcomeRel R S a a')
    (h' : OutcomeRel R S b b') : OutcomeRel R S (if p then a else b) (if p then a' else b') := by
  split_ifs
  · exact h
  · exact h'

/-! ## The registry -/

section Registry

variable [Policy P]

theorem connectSession_related (h : BrokerRel R broker broker') (credentials : Credentials) (hello : ClientHello) :
    OutcomeRel R Eq (broker.connectSession credentials hello) (broker'.connectSession credentials hello) := by
  have hstate := h
  obtain ⟨h⟩ := h
  refine outcomeRel_orReturn hstate fun _ => ?_
  refine outcomeRel_orReturn hstate fun _ => ?_
  dsimp only
  cases checkedAdd broker.nextPeer 1 with
  | none => exact outcomeRel_error hstate
  | some nextPeer => exact outcomeRel_ok (.of rfl h) rfl

theorem claim_related (h : BrokerRel R broker broker') (peer : PeerId) (ns : Namespace) :
    OutcomeRel R Eq (broker.claim peer ns) (broker'.claim peer ns) := by
  have hstate := h
  obtain ⟨h⟩ := h
  refine outcomeRel_orReturn hstate fun _ => ?_
  refine outcomeRel_ite (outcomeRel_error hstate) ?_
  dsimp only
  cases broker.namespaces.get? ns with
  | some owner => exact outcomeRel_error hstate
  | none => exact outcomeRel_ok (.of rfl h) rfl

theorem subscribeWithFilters_related (h : BrokerRel R broker broker') (peer : PeerId) (channel : Channel)
    (filters : List HeaderFilter) :
    OutcomeRel R Eq (broker.subscribeWithFilters peer channel filters)
      (broker'.subscribeWithFilters peer channel filters) := by
  have hstate := h
  obtain ⟨h⟩ := h
  refine outcomeRel_orReturn hstate fun _ => ?_
  exact outcomeRel_ite (outcomeRel_error hstate) (outcomeRel_ok (.of rfl h) rfl)

theorem registerDbusName_related (h : BrokerRel R broker broker') (peer : PeerId) (name : String) :
    OutcomeRel R Eq (broker.registerDbusName peer name) (broker'.registerDbusName peer name) := by
  have hstate := h
  obtain ⟨h⟩ := h
  refine outcomeRel_ite (outcomeRel_error hstate) ?_
  refine outcomeRel_orReturn hstate fun _ => ?_
  dsimp only
  cases broker.dbusNames.get? name with
  | some owner => exact outcomeRel_error hstate
  | none => exact outcomeRel_ok (.of rfl h) rfl

end Registry

theorem unsubscribe_related (h : BrokerRel R broker broker') (peer : PeerId) (channel : Channel) :
    OutcomeRel R Eq (broker.unsubscribe peer channel) (broker'.unsubscribe peer channel) := by
  have hstate := h
  obtain ⟨h⟩ := h
  refine outcomeRel_orReturn hstate fun _ => ?_
  dsimp only
  cases broker.subscriptions.get? channel with
  | none => exact outcomeRel_ok hstate rfl
  | some subscribers => exact outcomeRel_ok (.of rfl h) rfl

theorem PendingRel.recipients {pending pending' : PendingDelivery} (h : PendingRel R pending pending') :
    pending'.recipients = pending.recipients := by
  obtain ⟨-, -⟩ := h
  rfl

theorem PendingRel.sender {pending pending' : PendingDelivery} (h : PendingRel R pending pending') :
    pending'.sender = pending.sender := by
  obtain ⟨-, -⟩ := h
  rfl

theorem affected_related {deliveries : OrdMap MessageId PendingDelivery}
    (h : broker.deliveries.Related (PendingRel R) deliveries) (peer : PeerId) :
    Broker.affected { broker with deliveries } peer = broker.affected peer := by
  have hsame : ∀ e e' : MessageId × PendingDelivery, e.1 = e'.1 ∧ PendingRel R e.2 e'.2 →
      (e.2.recipients.contains peer = true ↔ e'.2.recipients.contains peer = true) := by
    intro e e' he
    rw [he.2.recipients]
  have hfilter := List.rel_filter (fun e e' he => hsame e e' he) h
  have hmap : List.Forall₂ Eq (broker.affected peer) (Broker.affected { broker with deliveries } peer) :=
    List.rel_map (fun e e' he => Prod.ext he.1 he.2.sender.symm) hfilter
  rw [List.forall₂_eq_eq_eq] at hmap
  exact hmap.symm

theorem forall₂_results (l : List (MessageId × PeerId)) (outcome : DeliveryOutcome) :
    List.Forall₂ (EventRel R) (l.map fun a => .result a.2 a.1 outcome) (l.map fun a => .result a.2 a.1 outcome) := by
  refine List.forall₂_same.mpr fun event hmem => ?_
  obtain ⟨a, -, rfl⟩ := List.mem_map.mp hmem
  exact .result

/-- Disconnecting looks at the senders and the recipients of the entries. -/
theorem disconnectWithEvents_related (h : BrokerRel R broker broker') (peer : PeerId) :
    OutcomeRel R (List.Forall₂ (EventRel R)) (broker.disconnectWithEvents peer) (broker'.disconnectWithEvents peer) := by
  have hstate := h
  obtain @⟨deliveries, h⟩ := h
  rcases disconnectWithEvents_cases broker peer with ⟨hunknown, heq⟩ | ⟨hknown, heq⟩
  · rcases disconnectWithEvents_cases { broker with deliveries } peer with ⟨-, heq'⟩ | ⟨hknown, -⟩
    · rw [heq, heq']
      exact outcomeRel_error hstate
    · rw [hunknown] at hknown
      cases hknown
  · rcases disconnectWithEvents_cases { broker with deliveries } peer with ⟨hunknown, -⟩ | ⟨-, heq'⟩
    · rw [hknown] at hunknown
      cases hunknown
    · rw [heq, heq', affected_related h]
      refine outcomeRel_ok (.of rfl ?_) (forall₂_results _ _)
      exact h.filter fun _ _ _ hpending => by rw [hpending.recipients]

/-! ## New messages -/

section Messages

variable (hR : ∀ m m', R m m' → Alike m m')

include hR

theorem FrameRel.deliveryBytes {frame frame' : Frame} (h : FrameRel R frame frame') :
    deliveryBytes frame' = deliveryBytes frame := by
  cases h with
  | message hm =>
    obtain ⟨payload, rfl, hlength⟩ := hR _ _ hm
    simp only [Broker.deliveryBytes, hlength]
  | other _ => rfl

theorem FrameRel.isRequest {frame frame' : Frame} (h : FrameRel R frame frame') :
    isRequest frame' = isRequest frame := by
  cases h with
  | message hm =>
    obtain ⟨payload, rfl, -⟩ := hR _ _ hm
    rfl
  | other _ => rfl

theorem FrameRel.frameRetry {frame frame' : Frame} (h : FrameRel R frame frame') :
    frameRetry frame' = frameRetry frame := by
  cases h with
  | message hm =>
    obtain ⟨payload, rfl, -⟩ := hR _ _ hm
    rfl
  | other _ => rfl

/-- The limits are checked against counts and lengths. -/
theorem ensureDeliveryCapacity_related {deliveries : OrdMap MessageId PendingDelivery}
    (h : broker.deliveries.Related (PendingRel R) deliveries) (sender : PeerId) {message message' : Frame}
    (hmessage : FrameRel R message message') (request : Bool) :
    ensureDeliveryCapacity { broker with deliveries } sender message' request =
      broker.ensureDeliveryCapacity sender message request := by
  have hqueued : List.Forall₂ (PendingRel R) (broker.deliveries.values.filter fun pending => pending.sender = sender)
      (deliveries.values.filter fun pending => pending.sender = sender) := by
    refine List.rel_filter (fun pending pending' hpending => ?_) h.values
    simp only [hpending.sender]
  have hbytes : List.Forall₂ Eq
      ((broker.deliveries.values.filter fun pending => pending.sender = sender).map fun p => deliveryBytes p.message)
      ((deliveries.values.filter fun pending => pending.sender = sender).map fun p => deliveryBytes p.message) := by
    refine List.rel_map (fun pending pending' hpending => ?_) hqueued
    obtain ⟨hframe, -⟩ := hpending
    exact (hframe.deliveryBytes hR).symm
  have hrequests : List.Forall₂ (PendingRel R)
      ((broker.deliveries.values.filter fun pending => pending.sender = sender).filter fun p => isRequest p.message)
      ((deliveries.values.filter fun pending => pending.sender = sender).filter fun p => isRequest p.message) := by
    refine List.rel_filter (fun pending pending' hpending => ?_) hqueued
    obtain ⟨hframe, -⟩ := hpending
    simp only [hframe.isRequest hR]
  rw [List.forall₂_eq_eq_eq] at hbytes
  unfold ensureDeliveryCapacity
  simp only [← hbytes, ← hqueued.length_eq, ← hrequests.length_eq, hmessage.deliveryBytes hR]

theorem BrokerRel.recordRouting (h : BrokerRel R broker broker') (sender : PeerId) {m m' : Message} (hm : R m m')
    (recipients : OrdSet PeerId) :
    BrokerRel R (broker.recordRouting sender m recipients) (broker'.recordRouting sender m' recipients) := by
  obtain ⟨payload, rfl, hlength⟩ := hR m m' hm
  obtain ⟨h⟩ := h
  unfold Broker.recordRouting
  simp only [hlength]
  split_ifs <;> exact .of rfl h

theorem acceptedEvents_related (sender : PeerId) {m m' : Message} (hm : R m m') (recipients : OrdSet PeerId) :
    List.Forall₂ (EventRel R) (acceptedEvents sender m recipients) (acceptedEvents sender m' recipients) := by
  have hframe : FrameRel R (.message m) (.message m') := .message hm
  obtain ⟨payload, rfl, -⟩ := hR m m' hm
  unfold acceptedEvents
  refine .cons (.deliver hframe) ?_
  dsimp only
  split_ifs
  · exact .cons .result .nil
  · exact .nil

theorem deliverRouted_related (h : BrokerRel R broker broker') (sender : PeerId) {m m' : Message} (hm : R m m')
    (recipients : OrdSet PeerId) (priority : UInt8) (nowMs : UInt64) :
    OutcomeRel R (List.Forall₂ (EventRel R)) (broker.deliverRouted sender m recipients priority nowMs)
      (broker'.deliverRouted sender m' recipients priority nowMs) := by
  have hrouted := h.recordRouting hR sender hm recipients
  have hevents := acceptedEvents_related hR sender hm recipients
  have hframe : FrameRel R (.message m) (.message m') := .message hm
  unfold deliverRouted
  obtain ⟨payload, rfl, -⟩ := hR m m' hm
  generalize broker.recordRouting sender m recipients = b,
    broker'.recordRouting sender { m with payload } recipients = b' at hrouted
  have hstate := hrouted
  obtain ⟨hdeliveries⟩ := hrouted
  refine outcomeRel_ite (outcomeRel_ok hstate (.cons .result .nil)) ?_
  refine outcomeRel_ite (outcomeRel_ok hstate (.cons .result .nil)) ?_
  refine outcomeRel_ite ?_ (outcomeRel_ok hstate hevents)
  rw [ensureDeliveryCapacity_related hR hdeliveries sender hframe]
  refine outcomeRel_orReturn hstate fun _ => ?_
  dsimp only
  cases checkedAdd nowMs m.deadlineMs.toUInt64 with
  | none => exact outcomeRel_error hstate
  | some deadlineMs =>
    refine outcomeRel_ok (.of rfl ?_) hevents
    exact hdeliveries.insert m.messageId (.mk hframe OrdMap.related_empty)

/-! ## Responses -/

omit hR in
theorem responseForwarded_related {requestPolicy : RequestPolicy} {status : Status} {completed : Bool}
    {responses responses' : OrdMap PeerId Frame} (hresponses : responses.Related (FrameRel R) responses')
    {message message' : Frame} (hmessage : FrameRel R message message') :
    Option.Rel (FrameRel R) (responseForwarded requestPolicy status completed responses message)
      (responseForwarded requestPolicy status completed responses' message') := by
  have hfirst : Option.Rel (FrameRel R) responses.values.head? responses'.values.head? := by
    have hvalues := hresponses.values
    generalize responses.values = l, responses'.values = l' at hvalues
    cases hvalues with
    | nil => exact .none
    | cons hhead _ => exact .some hhead
  unfold responseForwarded
  cases requestPolicy with
  | firstSuccess =>
    dsimp only
    split_ifs
    · exact .some hmessage
    · exact hfirst
    · exact .none
  | _ => exact .some hmessage

omit hR in
theorem forall₂_forward {sender recipient : PeerId} {o o' : Option Frame} (h : Option.Rel (FrameRel R) o o') :
    List.Forall₂ (EventRel R) (o.toList.map fun message => .deliver sender [recipient] message)
      (o'.toList.map fun message => .deliver sender [recipient] message) := by
  cases h with
  | none => exact .nil
  | some hframe => exact .cons (.deliver hframe) .nil

theorem completeResponse_related (h : BrokerRel R broker broker') (sender : PeerId) {m m' : Message} (hm : R m m') :
    OutcomeRel R (List.Forall₂ (EventRel R)) (broker.completeResponse sender (.message m))
      (broker'.completeResponse sender (.message m')) := by
  have hframe : FrameRel R (.message m) (.message m') := .message hm
  obtain ⟨payload, rfl, -⟩ := hR m m' hm
  have hstate := h
  obtain @⟨deliveries, h⟩ := h
  unfold completeResponse
  dsimp only
  have hget := h.get? m.correlationId
  generalize broker.deliveries.get? m.correlationId = o, deliveries.get? m.correlationId = o' at hget
  cases hget with
  | none => exact outcomeRel_error hstate
  | @some pending pending' hpending =>
    obtain @⟨message, responses, hmessage, hresponses⟩ := hpending
    dsimp only
    generalize hrequest : pending.message = request at hmessage
    cases hmessage with
    | other hother =>
      cases message with
      | message request => exact absurd rfl (hother request)
      | _ => exact outcomeRel_error hstate
    | @message request request' hr =>
      obtain ⟨requestPayload, rfl, -⟩ := hR request request' hr
      refine outcomeRel_ite (outcomeRel_error hstate) ?_
      rw [hresponses.contains]
      refine outcomeRel_ite (outcomeRel_error hstate) ?_
      have hadded := hresponses.insert sender hframe
      rw [hadded.size]
      refine outcomeRel_ok (.of rfl ?_) (forall₂_forward (responseForwarded_related hadded hframe))
      dsimp only
      split_ifs
      · exact h.erase m.correlationId
      · exact h.insert m.correlationId (.mk (.message hr) hadded)

/-! ## The clock -/

omit hR in
structure TickRel (R : Message → Message → Prop) (state state' : TickState P) : Prop where
  broker : BrokerRel R state.broker state'.broker
  events : List.Forall₂ (EventRel R) state.events state'.events
  retries : List.Forall₂ (fun retry retry' => retry.1 = retry'.1 ∧ EventRel R retry.2 retry'.2) state.retries
    state'.retries

theorem tickStep_related (nowMs : UInt64) {state state' : TickState P} (h : TickRel R state state')
    (messageId : MessageId) : TickRel R (tickStep nowMs state messageId) (tickStep nowMs state' messageId) := by
  obtain ⟨hbroker, hevents, hretries⟩ := h
  obtain ⟨broker, events, retries⟩ := state
  obtain ⟨broker', events', retries'⟩ := state'
  dsimp only at hbroker hevents hretries
  have hstate := hbroker
  obtain @⟨deliveries, h⟩ := hbroker
  unfold tickStep
  dsimp only
  have hget := h.get? messageId
  generalize broker.deliveries.get? messageId = o, deliveries.get? messageId = o' at hget
  cases hget with
  | none => exact ⟨hstate, hevents, hretries⟩
  | @some pending pending' hpending =>
    obtain @⟨message, responses, hmessage, hresponses⟩ := hpending
    dsimp only
    by_cases hexpired : pending.deadlineMs ≤ nowMs
    · rw [if_pos hexpired, if_pos hexpired]
      exact ⟨.of rfl (h.erase messageId), List.rel_append hevents (.cons .result .nil), hretries⟩
    rw [if_neg hexpired, if_neg hexpired]
    cases pending.nextRetryMs with
    | none => exact ⟨hstate, hevents, hretries⟩
    | some nextRetryMs =>
      dsimp only
      by_cases hearly : nowMs < nextRetryMs
      · rw [if_pos hearly, if_pos hearly]
        exact ⟨hstate, hevents, hretries⟩
      rw [if_neg hearly, if_neg hearly, hmessage.frameRetry hR, hmessage.deliveryBytes hR]
      cases frameRetry pending.message with
      | none => exact ⟨hstate, hevents, hretries⟩
      | exponential initialBackoffMs maxAttempts =>
        dsimp only
        by_cases hspent : maxAttempts ≤ pending.attempts
        · rw [if_pos hspent, if_pos hspent]
          exact ⟨.of rfl (h.erase messageId), List.rel_append hevents (.cons .result .nil), hretries⟩
        · rw [if_neg hspent, if_neg hspent]
          refine ⟨.of rfl ?_, hevents, List.rel_append hretries (.cons ⟨rfl, .deliver hmessage⟩ .nil)⟩
          exact h.insert messageId (.mk hmessage hresponses)

theorem tick_related (h : BrokerRel R broker broker') (nowMs : UInt64) :
    BrokerRel R (broker.tick nowMs).1 (broker'.tick nowMs).1 ∧
      List.Forall₂ (EventRel R) (broker.tick nowMs).2 (broker'.tick nowMs).2 := by
  have hkeys : broker'.deliveries.keys = broker.deliveries.keys := by
    obtain ⟨h⟩ := h
    exact h.keys
  have hloop : TickRel R (broker.deliveries.keys.foldl (tickStep nowMs) ⟨broker, [], []⟩)
      (broker'.deliveries.keys.foldl (tickStep nowMs) ⟨broker', [], []⟩) := by
    rw [hkeys]
    refine List.rel_foldl (fun state state' hstate id id' hid => ?_) ⟨h, .nil, .nil⟩ (List.forall₂_eq_eq_eq ▸ rfl)
    obtain rfl : id = id' := hid
    exact tickStep_related hR nowMs hstate id
  have hsorted : List.Forall₂ (fun retry retry' => retry.1 = retry'.1 ∧ EventRel R retry.2 retry'.2)
      (sortRetries (broker.deliveries.keys.foldl (tickStep nowMs) ⟨broker, [], []⟩).retries)
      (sortRetries (broker'.deliveries.keys.foldl (tickStep nowMs) ⟨broker', [], []⟩).retries) := by
    refine List.forall₂_insertionSort (fun a b a' b' ha hb => ?_) hloop.retries
    rw [ha.1, hb.1]
  exact ⟨hloop.broker, List.rel_append hloop.events (List.rel_map (fun _ _ hretry => hretry.2) hsorted)⟩

/-! ## Messages and acknowledgements -/

variable [Policy P]

theorem beginDelivery_related (h : BrokerRel R broker broker') (sender : PeerId) {m m' : Message} (hm : R m m')
    (nowMs : UInt64) :
    OutcomeRel R (List.Forall₂ (EventRel R)) (broker.beginDelivery sender (.message m) nowMs)
      (broker'.beginDelivery sender (.message m') nowMs) := by
  have hresponse := completeResponse_related hR h sender hm
  have hrouted := fun recipients priority => deliverRouted_related hR h sender hm recipients priority nowMs
  obtain ⟨payload, rfl, -⟩ := hR m m' hm
  have hstate := h
  obtain @⟨deliveries, h⟩ := h
  refine outcomeRel_orReturn hstate fun _ => ?_
  refine outcomeRel_orReturn hstate fun _ => ?_
  refine outcomeRel_orReturn hstate fun priority => ?_
  refine outcomeRel_ite hresponse ?_
  dsimp only
  rw [h.contains]
  refine outcomeRel_ite (outcomeRel_error hstate) ?_
  have hroute : route { broker with deliveries } sender m.destination m.headers =
      broker.route sender m.destination m.headers := rfl
  rw [hroute]
  cases broker.route sender m.destination m.headers with
  | ok recipients => exact hrouted _ _
  | error error =>
    cases error with
    | noRecipient => exact outcomeRel_ok hstate (.cons .result .nil)
    | _ => exact outcomeRel_error hstate

omit hR in
/-- A frame that is no message is refused before anything is looked at. -/
theorem beginDelivery_other (h : BrokerRel R broker broker') (sender : PeerId) {frame : Frame}
    (hother : ∀ m, frame ≠ .message m) (nowMs : UInt64) :
    OutcomeRel R (List.Forall₂ (EventRel R)) (broker.beginDelivery sender frame nowMs)
      (broker'.beginDelivery sender frame nowMs) := by
  cases frame with
  | message m => exact absurd rfl (hother m)
  | _ => exact outcomeRel_error h

theorem acknowledge_related (h : BrokerRel R broker broker') (peer : PeerId) (messageId : MessageId)
    (policy : AckPolicy) :
    OutcomeRel R (List.Forall₂ (EventRel R)) (broker.acknowledge peer messageId policy)
      (broker'.acknowledge peer messageId policy) := by
  have hstate := h
  obtain @⟨deliveries, h⟩ := h
  refine outcomeRel_orReturn hstate fun _ => ?_
  dsimp only
  have hget := h.get? messageId
  generalize broker.deliveries.get? messageId = o, deliveries.get? messageId = o' at hget
  cases hget with
  | none => exact outcomeRel_error hstate
  | @some pending pending' hpending =>
    obtain @⟨message, responses, hmessage, hresponses⟩ := hpending
    have hkeep := hmessage
    dsimp only
    generalize hrequest : pending.message = request at hmessage
    cases hmessage with
    | other hother =>
      cases message with
      | message request => exact absurd rfl (hother request)
      | _ => exact outcomeRel_error hstate
    | @message m m' hm =>
      obtain ⟨payload, rfl, -⟩ := hR m m' hm
      refine outcomeRel_ite (outcomeRel_error hstate) ?_
      dsimp only
      cases ackOutcome m.ackPolicy with
      | none =>
        refine outcomeRel_error (.of rfl ?_)
        exact h.insert messageId (.mk (.message hm) hresponses)
      | some outcome =>
        have hentry : PendingRel R (recordAck pending m peer)
            (recordAck { pending with message := .message { m with payload }, responses } { m with payload } peer) :=
          .mk hkeep hresponses
        have hdeliveries := h.insert messageId hentry
        refine outcomeRel_ite (outcomeRel_ok (.of rfl hdeliveries) .nil) ?_
        refine outcomeRel_ite ?_ (outcomeRel_ok (.of rfl hdeliveries) (.cons .result .nil))
        exact outcomeRel_ok (.of rfl (hdeliveries.erase messageId)) (.cons .result .nil)

/-! ## Runs -/

omit hR in
theorem ResultRel.eq {result result' : Except Error α} (h : ResultRel Eq result result') : result' = result := by
  cases h with
  | error => rfl
  | ok heq => rw [heq]

theorem exec_related (h : BrokerRel R broker broker') {op op' : Op} (hop : OpRel R op op') :
    BrokerRel R (exec broker op).1 (exec broker' op').1 ∧ ReplyRel R (exec broker op).2 (exec broker' op').2 := by
  -- an operation that returns nothing but a result of its own returns the same one
  have hsame : ∀ {β : Type} {o o' : Outcome P β} (reply : Except Error β → Reply),
      (∀ result, ReplyRel R (reply result) (reply result)) → OutcomeRel R Eq o o' →
      BrokerRel R (o.map id reply).1 (o'.map id reply).1 ∧ ReplyRel R (o.map id reply).2 (o'.map id reply).2 := by
    intro β o o' reply hreply hoo
    refine ⟨hoo.state, ?_⟩
    rw [Prod.map_snd, Prod.map_snd, hoo.result.eq]
    exact hreply _
  have hdelivery : ∀ {o o' : Outcome P (List DeliveryEvent)}, OutcomeRel R (List.Forall₂ (EventRel R)) o o' →
      BrokerRel R (o.map id Reply.delivery).1 (o'.map id Reply.delivery).1 ∧
        ReplyRel R (o.map id Reply.delivery).2 (o'.map id Reply.delivery).2 :=
    fun hoo => ⟨hoo.state, .delivery hoo.result⟩
  cases hop with
  | begin hm => exact hdelivery (beginDelivery_related hR h _ hm _)
  | same hother =>
    cases op with
    | connect credentials hello => exact hsame _ (fun _ => .connected) (connectSession_related h credentials hello)
    | disconnect peer => exact hdelivery (disconnectWithEvents_related h peer)
    | claim peer ns => exact hsame _ (fun _ => .completed) (claim_related h peer ns)
    | subscribe peer channel filters =>
      exact hsame _ (fun _ => .completed) (subscribeWithFilters_related h peer channel filters)
    | unsubscribe peer channel => exact hsame _ (fun _ => .completed) (unsubscribe_related h peer channel)
    | registerDbusName peer name => exact hsame _ (fun _ => .completed) (registerDbusName_related h peer name)
    | beginDelivery sender frame nowMs =>
      refine hdelivery (beginDelivery_other h sender (fun m hm => ?_) nowMs)
      exact hother sender m nowMs (by rw [hm])
    | acknowledge peer messageId policy => exact hdelivery (acknowledge_related hR h peer messageId policy)
    | tick nowMs =>
      obtain ⟨hstate, hevents⟩ := tick_related hR h nowMs
      exact ⟨hstate, .delivery (.ok hevents)⟩
    | drainEvents =>
      obtain ⟨h⟩ := h
      exact ⟨.of rfl h, .lifecycle⟩

end Messages

/-- The messages that a broker holds. -/
def Stored (broker : Broker P) (m : Message) : Prop :=
  ∃ id pending, broker.deliveries.get? id = some pending ∧
    (pending.message = .message m ∨ ∃ peer, pending.responses.get? peer = some (.message m))

/-- The calls submit counterparts at the same place, or it is one message that the broker held at the start. -/
def Counterparts (start : Broker P) (ops ops' : List Op) (m m' : Message) : Prop :=
  Alike m m' ∧ ((Stored start m ∧ m' = m) ∨ ∃ (n : Nat) (sender : PeerId) (nowMs : UInt64),
    ops[n]? = some (Op.beginDelivery sender (.message m) nowMs) ∧
      ops'[n]? = some (Op.beginDelivery sender (.message m') nowMs))

theorem frameRel_self {frame : Frame} (h : ∀ m, frame = .message m → R m m) : FrameRel R frame frame := by
  cases frame with
  | message m => exact .message (h m rfl)
  | _ => exact .other fun _ heq => by cases heq

theorem brokerRel_self (start : Broker P) (ops ops' : List Op) : BrokerRel (Counterparts start ops ops') start start := by
  have halike : ∀ m, Alike m m := fun m => ⟨m.payload, rfl, rfl⟩
  refine .of rfl (OrdMap.related_self fun id pending hget => ?_)
  refine PendingRel.mk (frameRel_self fun m hm => ?_) (OrdMap.related_self fun peer frame hframe => ?_)
  · exact ⟨halike m, .inl ⟨⟨id, pending, hget, .inl hm⟩, rfl⟩⟩
  · refine frameRel_self fun m hm => ?_
    subst hm
    exact ⟨halike m, .inl ⟨⟨id, pending, hget, .inr ⟨peer, hframe⟩⟩, rfl⟩⟩

/-- Two runs from one broker, whose calls differ only in payload bytes: the replies correspond one by one, and
what the broker records of them is the same. -/
theorem payload_noninterference [Policy P] (start : Broker P) {ops ops' : List Op}
    (h : List.Forall₂ (OpRel Alike) ops ops') :
    List.Forall₂ (fun e e' => ReplyRel (Counterparts start ops ops') e.2 e'.2) (run exec start ops).1
        (run exec start ops').1 ∧
      (run exec start ops').2.monitorEvents = (run exec start ops).2.monitorEvents ∧
      (run exec start ops').2.metrics = (run exec start ops).2.metrics ∧
      (run exec start ops').2.events = (run exec start ops).2.events := by
  have hcalls : List.Forall₂ (OpRel (Counterparts start ops ops')) ops ops' := by
    rw [List.forall₂_iff_get] at h ⊢
    refine ⟨h.1, fun n hn hn' => ?_⟩
    have hop := h.2 n hn hn'
    generalize hget : ops.get ⟨n, hn⟩ = op, hget' : ops'.get ⟨n, hn'⟩ = op' at hop
    cases hop with
    | @begin sender m m' nowMs halike =>
      refine .begin ⟨halike, .inr ⟨n, sender, nowMs, ?_, ?_⟩⟩
      · rw [← hget]
        exact List.getElem?_eq_getElem hn
      · rw [← hget']
        exact List.getElem?_eq_getElem hn'
    | same hother => exact .same hother
  have hstep : ∀ (b b' : Broker P) (op op' : Op), BrokerRel (Counterparts start ops ops') b b' →
      OpRel (Counterparts start ops ops') op op' → BrokerRel (Counterparts start ops ops') (exec b op).1 (exec b' op').1 ∧
        ReplyRel (Counterparts start ops ops') (exec b op).2 (exec b' op').2 :=
    fun _ _ _ _ hb hop => exec_related (fun _ _ hm => hm.1) hb hop
  obtain ⟨hstate, hreplies⟩ := run_related hstep (brokerRel_self start ops ops') hcalls
  refine ⟨hreplies.imp fun _ _ hee => hee.2, ?_⟩
  generalize (run exec start ops').2 = last at hstate
  obtain ⟨-⟩ := hstate
  exact ⟨rfl, rfl, rfl⟩

/-- A request with this payload, which expires. -/
def carryingOps (payload : List UInt8) : List Op :=
  [plainConnect, plainConnect,
    .beginDelivery (.new 1)
      (.message { plainRequest (numberedId 1) .none .none .exact (.peer (.new 2)) with payload }) 0,
    .tick 5000]

theorem payload_noninterference_carrying :
    (run exec (Broker.empty AllowAll.mk .default ∅) (carryingOps [1, 2])).2.metrics.bytesRouted = 2 ∧
      (run exec (Broker.empty AllowAll.mk .default ∅) (carryingOps [3, 4])).2.metrics =
        (run exec (Broker.empty AllowAll.mk .default ∅) (carryingOps [1, 2])).2.metrics := by
  have hother : ∀ op : Op, (∀ sender m nowMs, op ≠ .beginDelivery sender (.message m) nowMs) →
      OpRel Alike op op := fun _ h => .same h
  have hconnect : OpRel Alike plainConnect plainConnect := hother _ fun _ _ _ h => by cases h
  have htick : OpRel Alike (.tick 5000) (.tick 5000) := hother _ fun _ _ _ h => by cases h
  have hops : List.Forall₂ (OpRel Alike) (carryingOps [1, 2]) (carryingOps [3, 4]) :=
    .cons hconnect (.cons hconnect (.cons (.begin ⟨[3, 4], rfl, rfl⟩) (.cons htick .nil)))
  obtain ⟨-, -, hmetrics, -⟩ := payload_noninterference (Broker.empty AllowAll.mk .default ∅) hops
  exact ⟨by decide +kernel, hmetrics⟩

end Busd.Broker
