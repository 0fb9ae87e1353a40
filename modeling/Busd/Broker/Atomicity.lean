import Busd.Broker.Integrity

/-!
# What a refused call leaves behind

`begin_delivery` writes its counters and its monitor record before the capacity and deadline checks, so a
message refused by those checks has changed the state. Every other operation checks before it writes, with one
exception in the order of its code: `acknowledge` inserts the acknowledging peer before its last check.

* `Saturated` : the states in which the writes of `begin_delivery` change nothing;
* `recordRouting_eq_self_iff` : they are the only ones;
* `begin_delivery_atomic_iff` : when a refused message leaves the state as it was;
* `Atomic` : a call that leaves the state as it was if it fails;
* `other_operations_atomic` : every other operation is such a call, in every state.
-/

namespace Busd.Broker

open Words Machine Busd.Protocol Busd.Policy

variable {P : Type} {broker : Broker P} {sender : PeerId} {m : Message}

/-! ## Writes that change nothing -/

theorem tail_concat_eq_self_iff {α : Type} {x : α} {l : List α} (hl : l ≠ []) :
    l.tail ++ [x] = l ↔ l = List.replicate l.length x := by
  have hcons : ∀ (t : List α) (a : α), t ++ [x] = a :: t ↔ a :: t = List.replicate (t.length + 1) x := by
    intro t
    induction t with
    | nil =>
      intro a
      simp [eq_comm]
    | cons b t ih =>
      intro a
      rw [List.cons_append, List.cons.injEq, ih b, List.length_cons]
      simp only [List.replicate_succ, List.cons.injEq]
      refine ⟨fun h => ⟨h.1.symm.trans h.2.1, h.2⟩, fun h => ⟨h.2.1.trans h.1.symm, h.2⟩⟩
  cases l with
  | nil => exact absurd rfl hl
  | cons a t => exact hcons t a

def deliveredRecord (sender : PeerId) (m : Message) (sequence : UInt64) : MonitorEvent where
  sequence := sequence
  kind := .delivered
  peer := sender
  target := some (destinationLabel m.destination)
  messageId := some m.messageId
  payloadBytes := m.payload.length

/-- The counters are saturated, and the monitor history holds nothing but the record to be written. -/
structure Saturated (broker : Broker P) (sender : PeerId) (m : Message) : Prop where
  sequence : broker.nextMonitorSequence = u64Max
  monitor : broker.monitorEvents = List.replicate maxMonitorEvents (deliveredRecord sender m u64Max)
  messages : broker.metrics.messagesRouted = u64Max
  bytes : broker.metrics.bytesRouted = u64Max ∨ UInt64.ofNat m.payload.length = 0

def pushRecord (events : List MonitorEvent) (record : MonitorEvent) : List MonitorEvent :=
  (if events.length = maxMonitorEvents then events.tail else events) ++ [record]

theorem pushRecord_eq_self_iff {events : List MonitorEvent} {record : MonitorEvent} :
    pushRecord events record = events ↔ events = List.replicate maxMonitorEvents record := by
  unfold pushRecord
  by_cases hfull : events.length = maxMonitorEvents
  · have hne : events ≠ [] := by
      rintro rfl
      cases hfull
    rw [if_pos hfull, tail_concat_eq_self_iff hne, hfull]
  · rw [if_neg hfull]
    refine ⟨fun h => ?_, fun h => ?_⟩
    · have hlength := congrArg List.length h
      rw [List.length_append, List.length_singleton] at hlength
      omega
    · exact absurd (by rw [h, List.length_replicate]) hfull

theorem recordRouting_eq {recipients : OrdSet PeerId} (h : recipients.isEmpty = false) :
    broker.recordRouting sender m recipients =
      { broker with
        metrics := { broker.metrics with
          messagesRouted := saturatingAdd broker.metrics.messagesRouted (UInt64.ofNat recipients.size)
          bytesRouted := saturatingAdd broker.metrics.bytesRouted
            (saturatingMul (UInt64.ofNat m.payload.length) (UInt64.ofNat recipients.size)) }
        monitorEvents := pushRecord broker.monitorEvents (deliveredRecord sender m broker.nextMonitorSequence)
        nextMonitorSequence := saturatingAdd broker.nextMonitorSequence 1 } := by
  unfold recordRouting
  simp only [h]
  rfl

theorem recordRouting_eq_self_iff {recipients : OrdSet PeerId} (h : recipients.isEmpty = false)
    (hcount : UInt64.ofNat recipients.size ≠ 0) :
    broker.recordRouting sender m recipients = broker ↔ Saturated broker sender m := by
  have hone : ¬ (1 : UInt64) = 0 := by decide
  rw [recordRouting_eq h]
  refine ⟨fun heq => ?_, fun hs => ?_⟩
  · have hsequence := congrArg Broker.nextMonitorSequence heq
    have hmonitor := congrArg Broker.monitorEvents heq
    have hmessages := congrArg (fun b => b.metrics.messagesRouted) heq
    have hbytes := congrArg (fun b => b.metrics.bytesRouted) heq
    simp only [saturatingAdd_eq_left_iff, hone, or_false] at hsequence
    simp only [saturatingAdd_eq_left_iff, hcount, or_false] at hmessages
    simp only [saturatingAdd_eq_left_iff, saturatingMul_eq_zero_iff, hcount, or_false] at hbytes
    simp only [pushRecord_eq_self_iff, hsequence] at hmonitor
    exact ⟨hsequence, hmonitor, hmessages, hbytes⟩
  · have hsequence : saturatingAdd broker.nextMonitorSequence 1 = broker.nextMonitorSequence :=
      saturatingAdd_eq_left_iff.mpr (.inl hs.sequence)
    have hmonitor : pushRecord broker.monitorEvents (deliveredRecord sender m broker.nextMonitorSequence) =
        broker.monitorEvents := by
      rw [pushRecord_eq_self_iff, hs.sequence]
      exact hs.monitor
    have hmessages : saturatingAdd broker.metrics.messagesRouted (UInt64.ofNat recipients.size) =
        broker.metrics.messagesRouted := saturatingAdd_eq_left_iff.mpr (.inl hs.messages)
    have hbytes : saturatingAdd broker.metrics.bytesRouted
        (saturatingMul (UInt64.ofNat m.payload.length) (UInt64.ofNat recipients.size)) =
        broker.metrics.bytesRouted := by
      rw [saturatingAdd_eq_left_iff, saturatingMul_eq_zero_iff]
      rcases hs.bytes with hmax | hzero
      · exact .inl hmax
      · exact .inr (.inl hzero)
    rw [hsequence, hmonitor, hmessages, hbytes]

/-! ## Refused calls -/

/-- Connected peers have distinct identities below `nextPeer`, so there are fewer than `2 ^ 64` of them. -/
theorem size_lt_of_connected (h : Integrity broker) {recipients : OrdSet PeerId}
    (hconnected : ∀ peer, recipients.contains peer = true → broker.peers.contains peer = true) :
    recipients.size < 2 ^ 64 := by
  have hinj : Function.Injective fun peer : PeerId => peer.get.toNat := by
    intro a b hab
    exact PeerId.ext (UInt64.toNat_inj.mp hab)
  have hrange : recipients.toFinset.image (fun peer => peer.get.toNat) ⊆ Finset.range broker.nextPeer.toNat := by
    intro n hn
    obtain ⟨peer, hpeer, rfl⟩ := Finset.mem_image.mp hn
    obtain ⟨found, hfound⟩ := OrdMap.contains_iff.mp (hconnected peer (OrdSet.mem_toFinset.mp hpeer))
    obtain ⟨-, -, hlt⟩ := h.peer peer found hfound
    exact Finset.mem_range.mpr (UInt64.lt_iff_toNat_lt.mp hlt)
  have hcard := Finset.card_le_card hrange
  rw [Finset.card_image_of_injective _ hinj, OrdSet.card_toFinset, Finset.card_range] at hcard
  exact hcard.trans_lt broker.nextPeer.toNat_lt

theorem ofNat_size_ne_zero (h : Integrity broker) {recipients : OrdSet PeerId}
    (hnonempty : recipients.isEmpty = false)
    (hconnected : ∀ peer, recipients.contains peer = true → broker.peers.contains peer = true) :
    UInt64.ofNat recipients.size ≠ 0 := by
  have hlt := size_lt_of_connected h hconnected
  have hpos : recipients.size ≠ 0 := by
    unfold OrdMap.size
    unfold OrdMap.isEmpty at hnonempty
    intro hzero
    rw [List.length_eq_zero_iff.mp hzero] at hnonempty
    cases hnonempty
  intro hzero
  have htoNat := congrArg UInt64.toNat hzero
  rw [UInt64.toNat_ofNat_of_lt' hlt] at htoNat
  exact hpos htoNat

variable [Policy P]

/-- An error that changed the state comes from the checks after the counters. -/
theorem beginDelivery_error_cases {message : Frame} {nowMs : UInt64} {error : Error}
    (h : (broker.beginDelivery sender message nowMs).2 = .error error) :
    (broker.beginDelivery sender message nowMs).1 = broker ∨
      ∃ m priority recipients, message = .message m ∧ Routed broker sender m priority recipients ∧
        Retainable m (OrdSet.ofList recipients) ∧ ¬ Fits broker sender m nowMs ∧
        (broker.beginDelivery sender message nowMs).1 =
          broker.recordRouting sender m (OrdSet.ofList recipients) := by
  rcases beginDelivery_cases broker sender message nowMs with
    ⟨error', hb⟩ | ⟨m, _, rfl, -, -, hb⟩ | ⟨m, _, rfl, -, -, -, hb⟩ | ⟨m, priority, recipients, rfl, hrouted, hb⟩
  · exact .inl (by rw [hb])
  · rw [hb] at h ⊢
    rcases completeResponse_cases broker sender m with ⟨error', hc⟩ | ⟨_, _, -, hc⟩
    · exact .inl (by rw [hc])
    · rw [hc] at h
      cases h
  · exact .inl (by rw [hb])
  · rw [hb] at h ⊢
    rcases deliverRouted_cases broker sender m (OrdSet.ofList recipients) priority nowMs with
      ⟨-, hd⟩ | ⟨-, hd⟩ | ⟨hretainable, error', hrefused, hd⟩ | ⟨deadlineMs, -, hd⟩
    · rw [hd] at h
      cases h
    · rw [hd] at h
      cases h
    · exact .inr ⟨m, priority, recipients, rfl, hrouted, hretainable, refused_iff.mp ⟨error', hrefused⟩,
        by rw [hd]⟩
    · rw [hd] at h
      cases h

/-- A message that has to be retained and does not fit is refused after the counters were written. -/
theorem beginDelivery_of_not_fits {nowMs : UInt64} {priority : UInt8} {recipients : List PeerId}
    (hrouted : Routed broker sender m priority recipients)
    (hretainable : Retainable m (OrdSet.ofList recipients)) (hfits : ¬ Fits broker sender m nowMs) :
    ∃ error, broker.beginDelivery sender (.message m) nowMs =
      (broker.recordRouting sender m (OrdSet.ofList recipients), .error error) := by
  rw [hrouted.beginDelivery_eq]
  rcases deliverRouted_cases broker sender m (OrdSet.ofList recipients) priority nowMs with
    ⟨hnot, -⟩ | ⟨huntracked, -⟩ | ⟨-, error, -, hd⟩ | ⟨deadlineMs, hretained, -⟩
  · exact absurd hretainable hnot
  · rw [hretainable.tracked] at huntracked
    cases huntracked
  · exact ⟨error, hd⟩
  · exact absurd hretained.fits hfits

/-- A refused `begin_delivery` leaves the state as it was exactly when no message that was routed and has to
be retained is refused for lack of room, or the counters and the monitor are saturated. -/
theorem begin_delivery_atomic_iff {policy : P} {limits : Limits} {capabilities : Capabilities}
    {history : List (Op × Reply)}
    (hrun : Run exec (Broker.empty policy limits capabilities) history broker) (sender : PeerId)
    (message : Frame) (nowMs : UInt64) :
    (∀ error, (broker.beginDelivery sender message nowMs).2 = .error error →
        (broker.beginDelivery sender message nowMs).1 = broker) ↔
      ∀ m priority recipients, message = .message m → Routed broker sender m priority recipients →
        Retainable m (OrdSet.ofList recipients) → Fits broker sender m nowMs ∨ Saturated broker sender m := by
  have hintegrity := (run_sound hrun (sound_empty policy limits capabilities)).integrity
  -- the writes before the checks are visible unless everything is saturated
  have hsame : ∀ m priority recipients, Routed broker sender m priority recipients →
      Retainable m (OrdSet.ofList recipients) →
      (broker.recordRouting sender m (OrdSet.ofList recipients) = broker ↔ Saturated broker sender m) := by
    intro m priority recipients hrouted hretainable
    refine recordRouting_eq_self_iff hretainable.nonempty
      (ofNat_size_ne_zero hintegrity hretainable.nonempty fun peer hpeer => ?_)
    exact route_connected hintegrity hrouted.route peer (OrdSet.contains_ofList.mp hpeer)
  refine ⟨fun hatomic m priority recipients hm hrouted hretainable => ?_, fun hcond error herror => ?_⟩
  · by_cases hfits : Fits broker sender m nowMs
    · exact .inl hfits
    · subst hm
      obtain ⟨error, hb⟩ := beginDelivery_of_not_fits hrouted hretainable hfits
      have hstate := hatomic error (by rw [hb])
      rw [hb] at hstate
      exact .inr ((hsame m priority recipients hrouted hretainable).mp hstate)
  · rcases beginDelivery_error_cases herror with
      hstate | ⟨m, priority, recipients, hm, hrouted, hretainable, hfits, hstate⟩
    · exact hstate
    · rcases hcond m priority recipients hm hrouted hretainable with hroom | hsaturated
      · exact absurd hroom hfits
      · rw [hstate]
        exact (hsame m priority recipients hrouted hretainable).mpr hsaturated

/-! ## A sender at its limit -/

def tightLimits : Limits := { Limits.default with maximumQueuedMessages := 1 }

def requestToSecond (n : UInt8) : Frame :=
  .message (plainRequest (numberedId n) .none .none .exact (.peer (.new 2)))

def atLimit : List (Op × Reply) × Broker AllowAll :=
  run exec (Broker.empty .mk tightLimits ∅)
    [plainConnect, plainConnect, .beginDelivery (.new 1) (requestToSecond 1) 0]

/-- Its next request is refused, and counted as routed all the same. -/
theorem refused_request_counted :
    Run exec (Broker.empty AllowAll.mk tightLimits ∅) atLimit.1 atLimit.2 ∧
      (atLimit.2.beginDelivery (.new 1) (requestToSecond 2) 0).2 = .error (.limitExceeded .queuedMessages) ∧
      atLimit.2.metrics.messagesRouted = 1 ∧
      (atLimit.2.beginDelivery (.new 1) (requestToSecond 2) 0).1.metrics.messagesRouted = 2 ∧
      (atLimit.2.beginDelivery (.new 1) (requestToSecond 2) 0).1 ≠ atLimit.2 :=
  ⟨run_spec _ _, by decide +kernel, by decide +kernel, by decide +kernel, by decide +kernel⟩

/-- A repeated identifier is refused before anything is written. -/
theorem begin_delivery_atomic_iff_duplicate :
    (atLimit.2.beginDelivery (.new 1) (requestToSecond 1) 0).2 = .error (.duplicateMessage (numberedId 1)) ∧
      (atLimit.2.beginDelivery (.new 1) (requestToSecond 1) 0).1 = atLimit.2 := by
  have hrun : Run exec (Broker.empty AllowAll.mk tightLimits ∅) atLimit.1 atLimit.2 := run_spec _ _
  have herror : (atLimit.2.beginDelivery (.new 1) (requestToSecond 1) 0).2 =
      .error (.duplicateMessage (numberedId 1)) := by decide +kernel
  have hpending : atLimit.2.deliveries.get? (numberedId 1) ≠ none := by decide +kernel
  refine ⟨herror, (begin_delivery_atomic_iff hrun _ _ _).mpr ?_ _ herror⟩
  intro m priority recipients hm hrouted _
  cases hm
  exact absurd hrouted.fresh hpending

/-! ## The other operations -/

/-- The call leaves the state as it was if it fails. -/
def Atomic {α : Type} (broker : Broker P) (outcome : Outcome P α) : Prop :=
  ∀ error, outcome.2 = .error error → outcome.1 = broker

omit [Policy P] in
theorem Atomic.of_unchanged {α : Type} {outcome : Outcome P α} {result : Except Error α}
    (h : outcome = (broker, result)) : Atomic broker outcome := by
  intro error _
  rw [h]

omit [Policy P] in
theorem Atomic.of_ok {α : Type} {outcome : Outcome P α} {value : α} (h : outcome.2 = .ok value) :
    Atomic broker outcome := by
  intro error herror
  rw [h] at herror
  cases herror

theorem connectSession_atomic (credentials : Credentials) (hello : ClientHello) :
    Atomic broker (broker.connectSession credentials hello) := by
  rcases connectSession_cases broker credentials hello with ⟨_, h⟩ | ⟨_, _, -, h⟩
  · exact .of_unchanged h
  · exact .of_ok (congrArg Prod.snd h)

theorem claim_atomic (peer : PeerId) (ns : Namespace) : Atomic broker (broker.claim peer ns) := by
  rcases claim_cases broker peer ns with ⟨_, h⟩ | ⟨-, -, h⟩
  · exact .of_unchanged h
  · exact .of_ok (congrArg Prod.snd h)

theorem subscribeWithFilters_atomic (peer : PeerId) (channel : Channel) (filters : List HeaderFilter) :
    Atomic broker (broker.subscribeWithFilters peer channel filters) := by
  rcases subscribeWithFilters_cases broker peer channel filters with ⟨_, h⟩ | ⟨-, h⟩
  · exact .of_unchanged h
  · exact .of_ok (congrArg Prod.snd h)

omit [Policy P] in
theorem unsubscribe_atomic (peer : PeerId) (channel : Channel) :
    Atomic broker (broker.unsubscribe peer channel) := by
  rcases unsubscribe_cases broker peer channel with ⟨_, h⟩ | ⟨_, -, h⟩
  · exact .of_unchanged h
  · exact .of_ok (congrArg Prod.snd h)

theorem registerDbusName_atomic (peer : PeerId) (name : String) :
    Atomic broker (broker.registerDbusName peer name) := by
  rcases registerDbusName_cases broker peer name with ⟨_, h⟩ | ⟨-, h⟩
  · exact .of_unchanged h
  · exact .of_ok (congrArg Prod.snd h)

theorem acknowledge_atomic (peer : PeerId) (messageId : MessageId) (policy : AckPolicy) :
    Atomic broker (broker.acknowledge peer messageId policy) := by
  rcases acknowledge_cases broker peer messageId policy with ⟨_, h⟩ | ⟨_, _, _, -, -, -, h⟩
  · exact .of_unchanged h
  · exact .of_ok h

omit [Policy P] in
theorem disconnectWithEvents_atomic (peer : PeerId) : Atomic broker (broker.disconnectWithEvents peer) := by
  rcases disconnectWithEvents_cases broker peer with ⟨-, h⟩ | ⟨-, h⟩
  · exact .of_unchanged h
  · exact .of_ok (congrArg Prod.snd h)

/-- In every state, a failed call of the other operations leaves the whole state as it was. The check that
`acknowledge` makes after it has inserted the acknowledging peer never fails, since the check of the stage
before it refuses the policies without an outcome. -/
theorem other_operations_atomic (broker : Broker P) :
    (∀ credentials hello, Atomic broker (broker.connectSession credentials hello)) ∧
      (∀ peer ns, Atomic broker (broker.claim peer ns)) ∧
      (∀ peer channel filters, Atomic broker (broker.subscribeWithFilters peer channel filters)) ∧
      (∀ peer channel, Atomic broker (broker.unsubscribe peer channel)) ∧
      (∀ peer name, Atomic broker (broker.registerDbusName peer name)) ∧
      (∀ peer messageId policy, Atomic broker (broker.acknowledge peer messageId policy)) ∧
      (∀ peer, Atomic broker (broker.disconnectWithEvents peer)) ∧
      ∀ peer messageId policy pending m, broker.authorize peer .acknowledge = .ok () →
        broker.deliveries.get? messageId = some pending → pending.message = .message m →
        pending.recipients.contains peer = true → acknowledgementSatisfies m.ackPolicy policy = true →
        ackOutcome m.ackPolicy ≠ none := by
  refine ⟨connectSession_atomic, claim_atomic, subscribeWithFilters_atomic, unsubscribe_atomic,
    registerDbusName_atomic, acknowledge_atomic, disconnectWithEvents_atomic, ?_⟩
  intro peer messageId policy pending m _ _ _ _ hstage
  obtain ⟨outcome, houtcome⟩ := ackOutcome_of_satisfies hstage
  rw [houtcome]
  exact Option.some_ne_none outcome

end Busd.Broker
