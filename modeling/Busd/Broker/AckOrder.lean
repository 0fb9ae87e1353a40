import Busd.Broker.Pending

/-!
# The order of acknowledgements

Whether a single acknowledgement is accepted, completes a delivery or fails depends on what came before it. The
events of all of them together and the deliveries they leave do not.

* `ackEntry` : what one acknowledgement does to the entry of a message, as a machine of its own;
* `acknowledge_entry` : the broker moves the entry in this way, and no other entry;
* `ackEntry_swap` : two acknowledgements can be swapped, as long as only recipients have acknowledged;
* `ack_order_irrelevant` : a list of acknowledgements can be executed in any order.
-/

namespace Busd.Broker

open Words Machine Busd.Protocol Busd.Policy

/-! ## One entry -/

/-- The entry of `m` and the events, once an acknowledgement has made `acked` the acknowledging peers. -/
def settle (id : MessageId) (pending : PendingDelivery) (m : Message) (acked : OrdSet PeerId) :
    Option PendingDelivery × List DeliveryEvent :=
  if !pending.acknowledgementComplete && requirementMet m.ackRequirement acked.size pending.recipients.size then
    (if m.kind = .request then some { pending with acknowledgements := acked, acknowledgementComplete := true }
      else none,
      (ackOutcome m.ackPolicy).toList.map fun outcome => .result pending.sender id outcome)
  else (some { pending with acknowledgements := acked }, [])

def acceptsAck (authorized : PeerId → Bool) (pending : PendingDelivery) (m : Message) (ack : PeerId × AckPolicy) :
    Bool :=
  authorized ack.1 && pending.recipients.contains ack.1 && acknowledgementSatisfies m.ackPolicy ack.2

/-- What an acknowledgement does to the entry under `id`. -/
def ackEntry (authorized : PeerId → Bool) (id : MessageId) (entry : Option PendingDelivery)
    (ack : PeerId × AckPolicy) : Option PendingDelivery × List DeliveryEvent :=
  match entry with
  | none => (none, [])
  | some pending =>
    match pending.message with
    | .message m =>
      if acceptsAck authorized pending m ack then settle id pending m (OrdSet.add pending.acknowledgements ack.1)
      else (some pending, [])
    | _ => (some pending, [])

variable {authorized : PeerId → Bool} {id : MessageId} {pending : PendingDelivery} {m : Message}
  {a b : PeerId × AckPolicy}

theorem ackEntry_of_accepts (hmessage : pending.message = .message m) (h : acceptsAck authorized pending m a = true) :
    ackEntry authorized id (some pending) a = settle id pending m (OrdSet.add pending.acknowledgements a.1) := by
  simp only [ackEntry, hmessage, h, if_true]

theorem ackEntry_of_not_accepts (hmessage : pending.message = .message m)
    (h : acceptsAck authorized pending m a = false) : ackEntry authorized id (some pending) a = (some pending, []) := by
  simp only [ackEntry, hmessage, h, Bool.false_eq_true, if_false]

theorem settle_eq_some {acked : OrdSet PeerId} {pending' : PendingDelivery}
    (h : (settle id pending m acked).1 = some pending') :
    pending'.message = pending.message ∧ pending'.recipients = pending.recipients ∧
      pending'.acknowledgements = acked := by
  unfold settle at h
  split_ifs at h
  · cases h
    exact ⟨rfl, rfl, rfl⟩
  · cases h
    exact ⟨rfl, rfl, rfl⟩

def AckedWithin (entry : Option PendingDelivery) : Prop :=
  ∀ pending, entry = some pending →
    ∀ peer, pending.acknowledgements.contains peer = true → pending.recipients.contains peer = true

theorem ackEntry_within {entry : Option PendingDelivery} (h : AckedWithin entry) (a : PeerId × AckPolicy) :
    AckedWithin (ackEntry authorized id entry a).1 := by
  cases entry with
  | none => exact h
  | some pending =>
    cases hmessage : pending.message with
    | message m =>
      cases haccepts : acceptsAck authorized pending m a with
      | false =>
        rw [ackEntry_of_not_accepts hmessage haccepts]
        exact h
      | true =>
        rw [ackEntry_of_accepts hmessage haccepts]
        intro pending' hafter peer hpeer
        obtain ⟨-, hrecipients, hacked⟩ := settle_eq_some hafter
        rw [hacked, OrdSet.contains_add] at hpeer
        rw [hrecipients]
        rcases hpeer with rfl | hpeer
        · rw [acceptsAck, Bool.and_eq_true, Bool.and_eq_true] at haccepts
          exact haccepts.1.2
        · exact h pending rfl peer hpeer
    | _ =>
      simp only [ackEntry, hmessage]
      exact h

theorem requirementMet_mono {recipients acked acked' : OrdSet PeerId} {requirement : AckRequirement}
    (hsub : ∀ peer, acked.contains peer = true → acked'.contains peer = true)
    (hwithin : ∀ peer, acked'.contains peer = true → recipients.contains peer = true)
    (h : requirementMet requirement acked.size recipients.size = true) :
    requirementMet requirement acked'.size recipients.size = true := by
  have hgrow : acked.toFinset ⊆ acked'.toFinset :=
    fun peer hpeer => OrdSet.mem_toFinset.mpr (hsub peer (OrdSet.mem_toFinset.mp hpeer))
  have hinside : acked'.toFinset ⊆ recipients.toFinset :=
    fun peer hpeer => OrdSet.mem_toFinset.mpr (hwithin peer (OrdSet.mem_toFinset.mp hpeer))
  exact (requirementMet_iff hinside).mpr (((requirementMet_iff (hgrow.trans hinside)).mp h).mono hgrow)

/-- Two accepted acknowledgements do what one does that adds both peers. -/
theorem ackEntry_two (hmessage : pending.message = .message m) (hwithin : AckedWithin (some pending))
    (ha : acceptsAck authorized pending m a = true) (hb : acceptsAck authorized pending m b = true) :
    ((ackEntry authorized id (ackEntry authorized id (some pending) a).1 b).1,
        (ackEntry authorized id (some pending) a).2 ++
          (ackEntry authorized id (ackEntry authorized id (some pending) a).1 b).2) =
      settle id pending m (OrdSet.add (OrdSet.add pending.acknowledgements a.1) b.1) := by
  have hinside : ∀ peer, (OrdSet.add (OrdSet.add pending.acknowledgements a.1) b.1).contains peer = true →
      pending.recipients.contains peer = true := by
    simp only [acceptsAck, Bool.and_eq_true] at ha hb
    intro peer hpeer
    rcases OrdSet.contains_add.mp hpeer with rfl | hpeer
    · exact hb.1.2
    rcases OrdSet.contains_add.mp hpeer with rfl | hpeer
    · exact ha.1.2
    · exact hwithin pending rfl peer hpeer
  have hmono := @requirementMet_mono pending.recipients _ _ m.ackRequirement
    (fun peer hpeer => OrdSet.contains_add.mpr (.inr hpeer)) hinside
  -- the second one is accepted by whatever entry the first one leaves
  have hsecond : ∀ acked flag, ackEntry authorized id
      (some { pending with acknowledgements := acked, acknowledgementComplete := flag }) b =
        settle id { pending with acknowledgements := acked, acknowledgementComplete := flag } m
          (OrdSet.add acked b.1) :=
    fun _ _ => ackEntry_of_accepts hmessage hb
  rw [ackEntry_of_accepts hmessage ha]
  by_cases hfirst : (!pending.acknowledgementComplete && requirementMet m.ackRequirement
      (OrdSet.add pending.acknowledgements a.1).size pending.recipients.size) = true
  · -- the first one completes, and the second one finds the entry gone or its flag set
    obtain ⟨hopen, hmet⟩ := Bool.and_eq_true_iff.mp hfirst
    have hboth : (!pending.acknowledgementComplete && requirementMet m.ackRequirement
        (OrdSet.add (OrdSet.add pending.acknowledgements a.1) b.1).size pending.recipients.size) = true :=
      Bool.and_eq_true_iff.mpr ⟨hopen, hmono hmet⟩
    unfold settle
    rw [if_pos hfirst, if_pos hboth]
    by_cases hkind : m.kind = .request
    · rw [if_pos hkind, if_pos hkind]
      dsimp only
      rw [hsecond]
      simp [settle]
    · rw [if_neg hkind, if_neg hkind]
      simp [ackEntry]
  · have hsettle : settle id pending m (OrdSet.add pending.acknowledgements a.1) =
        (some { pending with acknowledgements := OrdSet.add pending.acknowledgements a.1 }, []) := by
      rw [settle, if_neg hfirst]
    rw [hsettle]
    dsimp only
    rw [hsecond]
    rfl

/-- An acknowledgement that is not accepted is not accepted after another one either. -/
theorem ackEntry_of_not_accepts_after (hmessage : pending.message = .message m)
    (h : acceptsAck authorized pending m a = false) :
    ackEntry authorized id (ackEntry authorized id (some pending) b).1 a =
      ((ackEntry authorized id (some pending) b).1, []) := by
  cases hb : acceptsAck authorized pending m b with
  | false =>
    rw [ackEntry_of_not_accepts hmessage hb]
    exact ackEntry_of_not_accepts hmessage h
  | true =>
    rw [ackEntry_of_accepts hmessage hb]
    cases hafter : (settle id pending m (OrdSet.add pending.acknowledgements b.1)).1 with
    | none => rfl
    | some pending' =>
      obtain ⟨hmessage', hrecipients, -⟩ := settle_eq_some hafter
      refine ackEntry_of_not_accepts (hmessage'.trans hmessage) ?_
      rw [acceptsAck, hrecipients]
      exact h

theorem ackEntry_swap (entry : Option PendingDelivery) (a b : PeerId × AckPolicy) (h : AckedWithin entry) :
    (ackEntry authorized id (ackEntry authorized id entry a).1 b).1 =
        (ackEntry authorized id (ackEntry authorized id entry b).1 a).1 ∧
      (ackEntry authorized id entry a).2 ++ (ackEntry authorized id (ackEntry authorized id entry a).1 b).2 =
        (ackEntry authorized id entry b).2 ++ (ackEntry authorized id (ackEntry authorized id entry b).1 a).2 := by
  cases entry with
  | none => exact ⟨rfl, rfl⟩
  | some pending =>
    cases hmessage : pending.message with
    | message m =>
      cases ha : acceptsAck authorized pending m a with
      | false =>
        rw [ackEntry_of_not_accepts_after hmessage ha, ackEntry_of_not_accepts hmessage ha]
        exact ⟨rfl, (List.append_nil _).symm⟩
      | true =>
        cases hb : acceptsAck authorized pending m b with
        | false =>
          rw [ackEntry_of_not_accepts_after hmessage hb, ackEntry_of_not_accepts hmessage hb]
          exact ⟨rfl, List.append_nil _⟩
        | true =>
          have hab := @ackEntry_two authorized id pending m a b hmessage h ha hb
          have hba := @ackEntry_two authorized id pending m b a hmessage h hb ha
          rw [OrdSet.add_right_comm, ← hab] at hba
          exact ⟨(congrArg Prod.fst hba).symm, (congrArg Prod.snd hba).symm⟩
    | _ =>
      simp only [ackEntry, hmessage]
      exact ⟨trivial, trivial⟩

/-! ## The broker -/

variable {P : Type} [Policy P] {broker : Broker P}

def mayAck (broker : Broker P) (peer : PeerId) : Bool := broker.authorize peer .acknowledge = .ok ()

theorem mayAck_of_sameRegistry {b b' : Broker P} (h : SameRegistry b b') : mayAck b' = mayAck b := by
  funext peer
  unfold mayAck authorize
  rw [h.policy, h.peers]

theorem Acknowledged.isOk {peer : PeerId} {policy : AckPolicy} {outcome : DeliveryOutcome}
    (h : Acknowledged broker peer id policy pending m outcome) :
    ∃ events, (broker.acknowledge peer id policy).2 = .ok events := by
  unfold acknowledge
  simp only [h.authorized, orReturn, h.found, h.message, h.recipient, h.stage, h.outcome, Bool.not_true, Bool.or_self,
    Bool.false_eq_true, if_false]
  split_ifs
  · exact ⟨_, rfl⟩
  · exact ⟨_, rfl⟩
  · exact ⟨_, rfl⟩

/-- `acknowledge` moves the entry under `id` as above, and no other one. -/
theorem acknowledge_entry (broker : Broker P) (id : MessageId) (ack : PeerId × AckPolicy) :
    (broker.acknowledge ack.1 id ack.2).1.deliveries.get? id =
        (ackEntry (mayAck broker) id (broker.deliveries.get? id) ack).1 ∧
      (∀ other ≠ id, (broker.acknowledge ack.1 id ack.2).1.deliveries.get? other = broker.deliveries.get? other) ∧
      (Reply.delivery (broker.acknowledge ack.1 id ack.2).2).events =
        (ackEntry (mayAck broker) id (broker.deliveries.get? id) ack).2 := by
  rcases acknowledge_cases broker ack.1 id ack.2 with ⟨error, h⟩ | ⟨pending, m, outcome, hack, -, hdeliveries, hevents⟩
  · -- a refused acknowledgement is not one that the entry accepts
    have hsame : ackEntry (mayAck broker) id (broker.deliveries.get? id) ack = (broker.deliveries.get? id, []) := by
      cases hfound : broker.deliveries.get? id with
      | none => rfl
      | some pending =>
        cases hmessage : pending.message with
        | message m =>
          refine ackEntry_of_not_accepts hmessage ?_
          by_contra haccepts
          simp only [acceptsAck, mayAck, Bool.and_eq_true, Bool.not_eq_false, decide_eq_true_eq] at haccepts
          obtain ⟨outcome, houtcome⟩ := ackOutcome_of_satisfies haccepts.2
          obtain ⟨events, hok⟩ := Acknowledged.isOk
            ⟨haccepts.1.1, hfound, hmessage, haccepts.1.2, haccepts.2, houtcome⟩
          rw [h] at hok
          cases hok
        | _ => simp only [ackEntry, hmessage]
    rw [h, hsame]
    exact ⟨rfl, fun _ _ => rfl, rfl⟩
  · have haccepts : acceptsAck (mayAck broker) pending m ack = true := by
      simp [acceptsAck, mayAck, hack.authorized, hack.recipient, hack.stage]
    rw [hdeliveries, hevents, hack.found, ackEntry_of_accepts hack.message haccepts]
    unfold afterAck settle recordAck ackCompletes Reply.events
    refine ⟨?_, fun other hother => ?_, ?_⟩
    · by_cases hkind : m.kind = .request
      · cases hcompletes : (!pending.acknowledgementComplete && requirementMet m.ackRequirement
          (OrdSet.add pending.acknowledgements ack.1).size pending.recipients.size) <;> simp [hkind]
      · cases hcompletes : (!pending.acknowledgementComplete && requirementMet m.ackRequirement
          (OrdSet.add pending.acknowledgements ack.1).size pending.recipients.size) <;> simp [hkind]
    · split_ifs
      · rw [OrdMap.get?_erase, if_neg hother]
      · rw [OrdMap.get?_insert, if_neg hother]
    · simp only [hack.outcome, Option.toList_some, List.map_cons, List.map_nil]
      split_ifs <;> rfl

def ackOps (id : MessageId) (acks : List (PeerId × AckPolicy)) : List Op :=
  acks.map fun ack => .acknowledge ack.1 id ack.2

/-- Acknowledging `id` is running its entry. -/
theorem run_ackOps (broker : Broker P) (id : MessageId) (acks : List (PeerId × AckPolicy)) :
    (run exec broker (ackOps id acks)).2.deliveries.get? id =
        (run (ackEntry (mayAck broker) id) (broker.deliveries.get? id) acks).2 ∧
      (∀ other ≠ id, (run exec broker (ackOps id acks)).2.deliveries.get? other = broker.deliveries.get? other) ∧
      ((run exec broker (ackOps id acks)).1.flatMap fun e => e.2.events) =
        (run (ackEntry (mayAck broker) id) (broker.deliveries.get? id) acks).1.flatMap Prod.snd := by
  induction acks generalizing broker with
  | nil => exact ⟨rfl, fun _ _ => rfl, rfl⟩
  | cons ack acks ih =>
    obtain ⟨hentry, hothers, hevents⟩ := acknowledge_entry broker id ack
    obtain ⟨ihentry, ihothers, ihevents⟩ := ih (broker.acknowledge ack.1 id ack.2).1
    rw [mayAck_of_sameRegistry (acknowledge_sameRegistry broker ack.1 id ack.2), hentry] at ihentry ihevents
    refine ⟨ihentry, fun other hother => (ihothers other hother).trans (hothers other hother), ?_⟩
    simp only [ackOps, List.map_cons, run, List.flatMap_cons]
    rw [← hevents]
    exact congrArg _ ihevents

/-- In every reachable state a list of acknowledgements of one message can be executed in any order: the events of
all calls together and the deliveries left are the same. -/
theorem ack_order_irrelevant {policy : P} {limits : Limits} {capabilities : Capabilities}
    {history : List (Op × Reply)} (hrun : Run exec (Broker.empty policy limits capabilities) history broker)
    (id : MessageId) {acks acks' : List (PeerId × AckPolicy)} (hperm : acks.Perm acks') :
    ((run exec broker (ackOps id acks)).1.flatMap fun e => e.2.events) =
        ((run exec broker (ackOps id acks')).1.flatMap fun e => e.2.events) ∧
      (run exec broker (ackOps id acks)).2.deliveries = (run exec broker (ackOps id acks')).2.deliveries := by
  have hwithin : AckedWithin (broker.deliveries.get? id) := by
    intro pending hget
    have hall := run_kept (A := fun _ => True) (Q := fun _ pending => ∀ peer,
      pending.acknowledgements.contains peer = true → pending.recipients.contains peer = true)
      ?_ ?_ hrun (fun _ _ => trivial) hget
    · obtain ⟨-, -, -, h⟩ := hall
      exact h
    · intro b sender m recipients nowMs deadlineMs priority _ _ _ peer hpeer
      cases hpeer
    · intro m pending pending' _ hinside hkept peer hpeer
      cases hkept with
      | same => exact hinside peer hpeer
      | @acknowledged acker _ hrecipient _ _ =>
        rcases OrdSet.contains_add.mp hpeer with rfl | hpeer
        · exact hrecipient
        · exact hinside peer hpeer
      | answered _ _ _ => exact hinside peer hpeer
      | retried _ _ _ _ => exact hinside peer hpeer
  obtain ⟨hentry, hevents⟩ := run_perm (I := AckedWithin) (fun entry a h => ackEntry_within h a)
    (@ackEntry_swap (mayAck broker) id) hperm hwithin
  obtain ⟨hself, hothers, hall⟩ := run_ackOps broker id acks
  obtain ⟨hself', hothers', hall'⟩ := run_ackOps broker id acks'
  refine ⟨by rw [hall, hall', hevents], OrdMap.ext_get? fun other => ?_⟩
  by_cases hother : other = id
  · rw [hother, hself, hself', hentry]
  · rw [hothers other hother, hothers' other hother]

def sharedAcks : List (PeerId × AckPolicy) := [(.new 1, .received), (.new 2, .received), (.new 3, .processed)]

/-- Whichever recipient is the last one, the requirement is reported as met once, and by the last one. -/
theorem ack_order_irrelevant_shared :
    ((run exec sharedBegun (ackOps (numberedId 1) sharedAcks)).1.map fun e => e.2.events) =
        [[], [], [.result (.new 1) (numberedId 1) .received]] ∧
      ((run exec sharedBegun (ackOps (numberedId 1) sharedAcks.reverse)).1.map fun e => e.2.events) =
        [[], [.result (.new 1) (numberedId 1) .received], []] ∧
      (run exec sharedBegun (ackOps (numberedId 1) sharedAcks.reverse)).2.deliveries =
        (run exec sharedBegun (ackOps (numberedId 1) sharedAcks)).2.deliveries := by
  have hrun : Run exec (Broker.empty AllowAll.mk .default ∅)
      (run exec (Broker.empty AllowAll.mk .default ∅) [plainConnect, plainConnect, plainConnect, beginShared]).1
      sharedBegun := run_spec _ _
  exact ⟨by decide +kernel, by decide +kernel,
    (ack_order_irrelevant hrun (numberedId 1) (List.reverse_perm sharedAcks)).2⟩

end Busd.Broker
