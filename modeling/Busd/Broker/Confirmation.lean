import Busd.Broker.Pending

/-!
# The confirmation of `ACCEPTED`

A sender that asks for `ACCEPTED` waits for one result. `begin_delivery` gives it for signals and requests; the
responses leave it through `complete_response`, which returns no result, although the codec admits `ACCEPTED` on a
response too.

* `Took` : the broker has the message, to deliver, to forward or to retain it;
* `Confirmed` : the events have one result for the message, which says whether the broker took it;
* `accepted_confirmed_iff` : an accepted call confirms exactly the messages that are not responses.
-/

namespace Busd.Broker

open Words Machine Busd.Protocol Busd.Policy

/-! ## What a confirmation says -/

def resultsFor (sender : PeerId) (id : MessageId) (events : List DeliveryEvent) : List DeliveryOutcome :=
  events.filterMap fun
    | .result receiver about outcome => if receiver = sender ∧ about = id then some outcome else none
    | .deliver .. => none

variable {P : Type} {broker : Broker P} {sender : PeerId} {m : Message}

/-- The broker retains the message: a response with the request that it answers, anything else by itself. -/
def Keeps (broker : Broker P) (sender : PeerId) (m : Message) : Prop :=
  if m.kind = .response then
    ∃ pending, broker.deliveries.get? m.correlationId = some pending ∧
      pending.responses.get? sender = some (.message m)
  else ∃ pending, broker.deliveries.get? m.messageId = some pending ∧ pending.message = .message m

/-- The broker took the message: it is delivered or forwarded with the events, or retained in the next state.
A message for a channel or a broadcast is delivered to those who are there, be it nobody. -/
def Took (after : Broker P) (sender : PeerId) (m : Message) (events : List DeliveryEvent) : Prop :=
  (∃ recipients, .deliver sender recipients (.message m) ∈ events) ∨ Keeps after sender m

/-- The sender gets one result for its message: `ACCEPTED` if the broker took it, `NO_RECIPIENT` if not. -/
structure Confirmed (after : Broker P) (sender : PeerId) (m : Message) (events : List DeliveryEvent) : Prop where
  accepted : Took after sender m events → resultsFor sender m.messageId events = [.accepted]
  noRecipient : ¬ Took after sender m events → resultsFor sender m.messageId events = [.noRecipient]

/-! ## The paths of `begin_delivery` -/

theorem confirmed_acceptedEvents (after : Broker P) (recipients : OrdSet PeerId) (hpolicy : m.ackPolicy = .accepted) :
    Confirmed after sender m (acceptedEvents sender m recipients) := by
  have htook : Took after sender m (acceptedEvents sender m recipients) := .inl ⟨recipients.keys, List.mem_cons_self⟩
  refine ⟨fun _ => ?_, fun hnot => absurd htook hnot⟩
  simp [resultsFor, acceptedEvents, hpolicy]

theorem confirmed_noRecipient {after : Broker P} (hkind : m.kind ≠ .response)
    (hfresh : after.deliveries.get? m.messageId = none) :
    Confirmed after sender m [.result sender m.messageId .noRecipient] := by
  refine ⟨fun htook => ?_, fun _ => by simp [resultsFor]⟩
  rcases htook with ⟨recipients, hmem⟩ | hkeeps
  · cases List.mem_singleton.mp hmem
  · rw [Keeps, if_neg hkind] at hkeeps
    obtain ⟨pending, hget, -⟩ := hkeeps
    rw [hfresh] at hget
    cases hget

theorem not_confirmed_of_deliver {after : Broker P} {recipients : List PeerId} {frames : List Frame} :
    ¬ Confirmed after sender m (frames.map fun frame => .deliver sender recipients frame) := by
  have hnone : resultsFor sender m.messageId (frames.map fun frame => .deliver sender recipients frame) = [] := by
    rw [resultsFor, List.filterMap_map]
    exact List.filterMap_eq_nil_iff.mpr fun _ _ => rfl
  intro h
  by_cases htook : Took after sender m (frames.map fun frame => .deliver sender recipients frame)
  · have haccepted := h.accepted htook
    rw [hnone] at haccepted
    cases haccepted
  · have hrefused := h.noRecipient htook
    rw [hnone] at hrefused
    cases hrefused

variable [Policy P]

/-- An accepted call of `begin_delivery` with a message that asks for `ACCEPTED` confirms it exactly if it is not a
response. -/
theorem accepted_confirmed_iff (broker : Broker P) (sender : PeerId) (m : Message) (nowMs : UInt64)
    {events : List DeliveryEvent} (hpolicy : m.ackPolicy = .accepted)
    (hok : (broker.beginDelivery sender (.message m) nowMs).2 = .ok events) :
    Confirmed (broker.beginDelivery sender (.message m) nowMs).1 sender m events ↔ m.kind ≠ .response := by
  rcases beginDelivery_cases broker sender (.message m) nowMs with
    ⟨error, hb⟩ | ⟨_, _, hm, -, hkind, hb⟩ | ⟨_, _, hm, -, hkind, hfresh, hb⟩ |
      ⟨_, priority, recipients, hm, hrouted, hb⟩
  · rw [hb] at hok
    cases hok
  · cases hm
    rw [hb] at hok ⊢
    refine ⟨fun hconfirmed => ?_, fun hnot => absurd hkind hnot⟩
    rcases completeResponse_cases broker sender m with ⟨error, hc⟩ | ⟨pending, request, -, hc⟩
    · rw [hc] at hok
      cases hok
    · rw [hc] at hok
      cases hok
      exact absurd hconfirmed not_confirmed_of_deliver
  · cases hm
    rw [hb] at hok ⊢
    cases hok
    exact ⟨fun _ => hkind, fun _ => confirmed_noRecipient hkind hfresh⟩
  · cases hm
    refine ⟨fun _ => hrouted.kind, fun _ => ?_⟩
    rw [hb] at hok ⊢
    rcases deliverRouted_cases broker sender m (OrdSet.ofList recipients) priority nowMs with
      ⟨-, hd⟩ | ⟨-, hd⟩ | ⟨-, error, -, hd⟩ | ⟨deadlineMs, -, hd⟩
    · rw [hd] at hok ⊢
      cases hok
      refine confirmed_noRecipient hrouted.kind ?_
      rw [recordRouting_deliveries]
      exact hrouted.fresh
    · rw [hd] at hok
      cases hok
      exact confirmed_acceptedEvents _ _ hpolicy
    · rw [hd] at hok
      cases hok
    · rw [hd] at hok
      cases hok
      exact confirmed_acceptedEvents _ _ hpolicy

/-! ## A response that asks for `ACCEPTED` -/

def acceptedResponse : Message := { plainResponse (numberedId 2) (numberedId 1) .success with ackPolicy := .accepted }

def acceptedResponsePacket : List UInt8 :=
  [66, 85, 83, 49, 3, 6, 0, 0, 0, 0, 0, 57, 2, 1, 0, 0, 0, 0, 0, 0, 0, 1] ++ beBytes 8 1 ++ beBytes 16 2 ++
    beBytes 16 1 ++ List.replicate 7 0

def askedRequest (n : UInt8) : Message := plainRequest (numberedId n) .accepted .none .exact (.peer (.new 2))

def askedSecond : List (Op × Reply) × Broker AllowAll :=
  run exec (Broker.empty .mk .default ∅) [plainConnect, plainConnect,
    .beginDelivery (.new 1) (.message (askedRequest 1)) 0]

/-- The response is decoded, taken and forwarded, and its sender gets no result. -/
theorem accepted_response_unconfirmed :
    Frame.decode acceptedResponsePacket = .ok (.message acceptedResponse) ∧
      acceptedResponse.ackPolicy = .accepted ∧
      Run exec (Broker.empty AllowAll.mk .default ∅) askedSecond.1 askedSecond.2 ∧
      (askedSecond.2.beginDelivery (.new 2) (.message acceptedResponse) 0).2 =
        .ok [.deliver (.new 2) [.new 1] (.message acceptedResponse)] :=
  ⟨by decide +kernel, rfl, run_spec _ _, by decide +kernel⟩

/-- A second request of the first peer is confirmed. -/
theorem accepted_confirmed_iff_request :
    (askedSecond.2.beginDelivery (.new 1) (.message (askedRequest 3)) 0).2 =
        .ok (acceptedEvents (.new 1) (askedRequest 3) (OrdSet.ofList [.new 2])) ∧
      Confirmed (askedSecond.2.beginDelivery (.new 1) (.message (askedRequest 3)) 0).1 (.new 1) (askedRequest 3)
        (acceptedEvents (.new 1) (askedRequest 3) (OrdSet.ofList [.new 2])) := by
  have hok : (askedSecond.2.beginDelivery (.new 1) (.message (askedRequest 3)) 0).2 =
      .ok (acceptedEvents (.new 1) (askedRequest 3) (OrdSet.ofList [.new 2])) := by decide +kernel
  exact ⟨hok, (accepted_confirmed_iff _ _ _ _ rfl hok).mpr (by decide)⟩

end Busd.Broker
