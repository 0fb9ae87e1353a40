import Busd.Broker.Lifecycle

/-!
# Acknowledgement outcomes

`RECEIVED` and `PROCESSED` are reported when the recipients that acknowledged first meet the requirement
of the message. Who acknowledged is read off the history of calls, as a set.

* `acknowledgers` : the recipients that acknowledged at a sufficient stage, in a history;
* `Meets` : the requirement, over the set of recipients and the set of those that acknowledged;
* `runIn_acknowledgements` : the entry holds exactly that set, and its flag whether it met the requirement;
* `ack_outcomes` : the outcome is reported at the first call that meets the requirement, and once.
-/

namespace Busd.Broker

open Words Machine Busd.Protocol Busd.Policy

/-! ## What the outcomes are for -/

def Sufficient : AckPolicy → AckPolicy → Prop
  | .received, actual => actual = .received ∨ actual = .processed
  | .processed, actual => actual = .processed
  | .none, _ | .accepted, _ => False

theorem acknowledgementSatisfies_iff {required actual : AckPolicy} :
    acknowledgementSatisfies required actual = true ↔ Sufficient required actual := by
  cases required <;> cases actual <;> simp [acknowledgementSatisfies, Sufficient]

/-- The requirement on the set of recipients that acknowledged. -/
def Meets : AckRequirement → Finset PeerId → Finset PeerId → Prop
  | .none, _, _ => True
  | .any, _, acked => acked.Nonempty
  | .all, recipients, acked => recipients ⊆ acked
  | .minimum count, _, acked => count.toNat ≤ acked.card

/-- Counting decides the requirement, since only recipients are counted. -/
theorem requirementMet_iff {requirement : AckRequirement} {recipients acked : OrdSet PeerId}
    (hsub : acked.toFinset ⊆ recipients.toFinset) :
    requirementMet requirement acked.size recipients.size = true ↔
      Meets requirement recipients.toFinset acked.toFinset := by
  cases requirement with
  | none => simp [requirementMet, Meets]
  | any =>
    rw [requirementMet, Meets, ← OrdSet.card_toFinset, decide_eq_true_iff, ← Finset.card_pos]
    exact (Nat.pos_iff_ne_zero).symm
  | all =>
    rw [requirementMet, Meets, ← OrdSet.card_toFinset, ← OrdSet.card_toFinset, decide_eq_true_iff]
    refine ⟨fun h => ?_, fun h => ?_⟩
    · exact (Finset.eq_of_subset_of_card_le hsub h.ge).ge
    · rw [Finset.Subset.antisymm hsub h]
  | minimum count => rw [requirementMet, Meets, ← OrdSet.card_toFinset, decide_eq_true_iff]

def Acks (id : MessageId) (peer : PeerId) (policy : AckPolicy) (e : Op × Reply) : Prop :=
  e.1 = .acknowledge peer id policy ∧ ∃ events, e.2 = .delivery (.ok events)

open Classical in
/-- The recipients that acknowledged `m` under `id` in a history, at a sufficient stage. -/
noncomputable def acknowledgers (id : MessageId) (m : Message) (recipients : Finset PeerId)
    (history : List (Op × Reply)) : Finset PeerId :=
  recipients.filter fun peer => ∃ e ∈ history, ∃ policy, Acks id peer policy e ∧ Sufficient m.ackPolicy policy

/-- A call of the history was a successful acknowledgement after which the requirement was met. -/
def MetDuring (id : MessageId) (m : Message) (recipients : Finset PeerId) (history : List (Op × Reply)) : Prop :=
  ∃ earlier e later, history = earlier ++ e :: later ∧ (∃ peer policy, Acks id peer policy e) ∧
    Meets m.ackRequirement recipients (acknowledgers id m recipients (earlier ++ [e]))

theorem mem_acknowledgers {id : MessageId} {m : Message} {recipients : Finset PeerId}
    {history : List (Op × Reply)} {peer : PeerId} :
    peer ∈ acknowledgers id m recipients history ↔ peer ∈ recipients ∧
      ∃ e ∈ history, ∃ policy, Acks id peer policy e ∧ Sufficient m.ackPolicy policy := by
  simp only [acknowledgers, Finset.mem_filter]

theorem acknowledgers_nil (id : MessageId) (m : Message) (recipients : Finset PeerId) :
    acknowledgers id m recipients [] = ∅ := by
  refine Finset.eq_empty_of_forall_notMem fun peer hmem => ?_
  obtain ⟨-, e, he, -⟩ := mem_acknowledgers.mp hmem
  cases he

theorem acknowledgers_snoc_other {id : MessageId} {m : Message} {recipients : Finset PeerId}
    {history : List (Op × Reply)} {e : Op × Reply} (h : ∀ peer policy, ¬ Acks id peer policy e) :
    acknowledgers id m recipients (history ++ [e]) = acknowledgers id m recipients history := by
  ext peer
  rw [mem_acknowledgers, mem_acknowledgers]
  refine and_congr_right fun _ => ⟨?_, ?_⟩
  · rintro ⟨e', he', policy, hack, hstage⟩
    rcases List.mem_append.mp he' with he' | he'
    · exact ⟨e', he', policy, hack, hstage⟩
    · rw [List.mem_singleton.mp he'] at hack
      exact absurd hack (h peer policy)
  · rintro ⟨e', he', rest⟩
    exact ⟨e', List.mem_append_left _ he', rest⟩

theorem mem_acknowledgers_snoc_ack {id : MessageId} {m : Message} {recipients : Finset PeerId}
    {history : List (Op × Reply)} {e : Op × Reply} {peer : PeerId} {policy : AckPolicy}
    (hack : Acks id peer policy e) (hpeer : peer ∈ recipients) (hstage : Sufficient m.ackPolicy policy)
    {p : PeerId} :
    p ∈ acknowledgers id m recipients (history ++ [e]) ↔
      p = peer ∨ p ∈ acknowledgers id m recipients history := by
  rw [mem_acknowledgers, mem_acknowledgers]
  refine ⟨?_, ?_⟩
  · rintro ⟨hp, e', he', policy', hack', hstage'⟩
    rcases List.mem_append.mp he' with he' | he'
    · exact .inr ⟨hp, e', he', policy', hack', hstage'⟩
    · rw [List.mem_singleton.mp he'] at hack'
      have heq := hack.1.symm.trans hack'.1
      cases heq
      exact .inl rfl
  · rintro (rfl | ⟨hp, e', he', rest⟩)
    · exact ⟨hpeer, e, List.mem_append_right _ (List.mem_singleton_self _), policy, hack, hstage⟩
    · exact ⟨hp, e', List.mem_append_left _ he', rest⟩

theorem metDuring_snoc {id : MessageId} {m : Message} {recipients : Finset PeerId}
    {history : List (Op × Reply)} {e : Op × Reply} :
    MetDuring id m recipients (history ++ [e]) ↔ MetDuring id m recipients history ∨
      (∃ peer policy, Acks id peer policy e) ∧
        Meets m.ackRequirement recipients (acknowledgers id m recipients (history ++ [e])) :=
  exists_step_snoc (Q := fun earlier e => (∃ peer policy, Acks id peer policy e) ∧
    Meets m.ackRequirement recipients (acknowledgers id m recipients (earlier ++ [e])))

/-! ## One call -/

/-- An acknowledgement outcome comes from a successful acknowledgement that completes, and from nothing
else. -/
theorem Effect.ackResult_iff {op : Op} {reply : Reply} {id : MessageId} {pending : PendingDelivery}
    {after : Option PendingDelivery} {events : List DeliveryEvent} {m : Message} {sender : PeerId}
    {outcome : DeliveryOutcome} (h : Effect op reply id (some pending) after events)
    (hmessage : pending.message = .message m) (houtcome : isAckOutcome outcome = true) :
    .result sender id outcome ∈ events ↔
      (∃ peer policy, Acks id peer policy (op, reply) ∧ ackCompletes pending m peer = true) ∧
        sender = pending.sender ∧ ackOutcome m.ackPolicy = some outcome := by
  -- a call of another kind acknowledges nothing, so its events must be of another kind too
  have hother : (∀ peer policy, op ≠ .acknowledge peer id policy) →
      (∀ event ∈ events, isAckResult event = false) →
      (.result sender id outcome ∈ events ↔
        (∃ peer policy, Acks id peer policy (op, reply) ∧ ackCompletes pending m peer = true) ∧
          sender = pending.sender ∧ ackOutcome m.ackPolicy = some outcome) := by
    intro hop hevents
    refine ⟨fun hmem => ?_, fun hacks => ?_⟩
    · have hresult := hevents _ hmem
      rw [isAckResult, houtcome] at hresult
      cases hresult
    · obtain ⟨⟨peer, policy, hack, -⟩, -, -⟩ := hacks
      exact absurd hack.1 (hop peer policy)
  generalize hbefore : some pending = before at h
  cases h with
  | untouched hack =>
    refine ⟨fun hmem => absurd hmem List.not_mem_nil, fun hacks => ?_⟩
    obtain ⟨⟨peer, policy, ⟨hop, events, hreply⟩, -⟩, -, -⟩ := hacks
    exact absurd hreply (hack peer policy events hop)
  | passed _ _ _ _ => cases hbefore
  | inserted _ _ _ _ => cases hbefore
  | @acknowledged pending' m' peer policy outcome' events' hop hreply hmessage' hrecipient hstage houtcome' =>
    cases hbefore
    cases hmessage.symm.trans hmessage'
    have hacks : Acks id peer policy (op, reply) := ⟨hop, events', hreply⟩
    have hunique : ∀ peer' policy', Acks id peer' policy' (op, reply) → peer' = peer := by
      intro peer' policy' hack
      have heq := hop.symm.trans hack.1
      cases heq
      rfl
    refine ⟨fun hmem => ?_, fun h => ?_⟩
    · split_ifs at hmem with hcomplete
      · cases List.mem_singleton.mp hmem
        exact ⟨⟨peer, policy, hacks, hcomplete⟩, rfl, houtcome'⟩
      · cases hmem
    · obtain ⟨⟨peer', policy', hack, hcomplete⟩, rfl, hout⟩ := h
      rw [hunique peer' policy' hack] at hcomplete
      cases houtcome'.symm.trans hout
      rw [if_pos hcomplete]
      exact List.mem_singleton_self _
  | answered hcall _ _ _ _ _ _ =>
    cases hbefore
    refine hother (fun _ _ h => by cases hcall.1.symm.trans h) fun event hmem => ?_
    obtain ⟨frame, -, rfl⟩ := List.mem_map.mp hmem
    rfl
  | ticked hop =>
    cases hbefore
    refine hother (fun _ _ h => by cases hop.symm.trans h) fun event hmem => ?_
    rcases List.mem_append.mp hmem with hmem | hmem
    · unfold tickOutcomes at hmem
      split at hmem
      · rw [List.mem_singleton.mp hmem]
        rfl
      · rw [List.mem_singleton.mp hmem]
        rfl
      · cases hmem
      · cases hmem
    · obtain ⟨e, he, rfl⟩ := List.mem_map.mp hmem
      unfold tickRetries at he
      split at he
      · rw [List.mem_singleton.mp he]
        rfl
      · cases he
      · cases he
      · cases he
  | recipientLost hop _ =>
    cases hbefore
    refine hother (fun _ _ h => by cases hop.symm.trans h) fun event hmem => ?_
    rw [List.mem_singleton.mp hmem]
    rfl

theorem Effect.of_acks {op : Op} {reply : Reply} {id : MessageId} {pending : PendingDelivery}
    {after : Option PendingDelivery} {events : List DeliveryEvent} {m : Message} {peer : PeerId}
    {policy : AckPolicy} (h : Effect op reply id (some pending) after events)
    (hmessage : pending.message = .message m) (hack : Acks id peer policy (op, reply)) :
    pending.recipients.contains peer = true ∧ Sufficient m.ackPolicy policy ∧
      ∀ pending', after = some pending' → pending' = recordAck pending m peer := by
  obtain ⟨hop, events, hreply⟩ := hack
  generalize hbefore : some pending = before at h
  cases h with
  | untouched hno => exact absurd hreply (hno peer policy events hop)
  | passed _ _ _ _ => cases hbefore
  | inserted _ _ _ _ => cases hbefore
  | acknowledged hop' _ hmessage' hrecipient hstage _ =>
    cases hbefore
    cases hmessage.symm.trans hmessage'
    cases hop.symm.trans hop'
    refine ⟨hrecipient, acknowledgementSatisfies_iff.mp hstage, fun pending' hafter => ?_⟩
    split_ifs at hafter
    exact (Option.some.inj hafter).symm
  | answered hcall _ _ _ _ _ _ => cases hop.symm.trans hcall.1
  | ticked hop' => cases hop.symm.trans hop'
  | recipientLost hop' _ => cases hop.symm.trans hop'

theorem Effect.of_not_acks {op : Op} {reply : Reply} {id : MessageId} {pending pending' : PendingDelivery}
    {events : List DeliveryEvent} (h : Effect op reply id (some pending) (some pending') events)
    (hno : ∀ peer policy, ¬ Acks id peer policy (op, reply)) :
    pending'.acknowledgements = pending.acknowledgements ∧
      pending'.acknowledgementComplete = pending.acknowledgementComplete := by
  generalize hafter : some pending' = after at h
  cases h with
  | untouched _ =>
    cases hafter
    exact ⟨rfl, rfl⟩
  | acknowledged hop hreply _ _ _ _ => exact absurd ⟨hop, _, hreply⟩ (hno _ _)
  | answered _ _ _ _ _ _ _ =>
    split_ifs at hafter
    cases hafter
    exact ⟨rfl, rfl⟩
  | ticked _ =>
    rw [afterTick_eq_some hafter.symm]
    exact ⟨rfl, rfl⟩
  | recipientLost _ _ => cases hafter

/-! ## Runs -/

/-- The entry holds who acknowledged in the history, and whether that met the requirement before. -/
structure Tally (id : MessageId) (m : Message) (history : List (Op × Reply)) (pending : PendingDelivery) :
    Prop where
  acknowledgements : pending.acknowledgements.toFinset =
    acknowledgers id m pending.recipients.toFinset history
  complete : pending.acknowledgementComplete = true ↔ MetDuring id m pending.recipients.toFinset history

theorem Tally.add {id : MessageId} {m : Message} {history : List (Op × Reply)}
    {pending : PendingDelivery} (h : Tally id m history pending) {e : Op × Reply} {peer : PeerId}
    {policy : AckPolicy} (hack : Acks id peer policy e) (hpeer : pending.recipients.contains peer = true)
    (hstage : Sufficient m.ackPolicy policy) :
    (OrdSet.add pending.acknowledgements peer).toFinset =
      acknowledgers id m pending.recipients.toFinset (history ++ [e]) := by
  ext p
  rw [mem_acknowledgers_snoc_ack hack (OrdSet.mem_toFinset.mpr hpeer) hstage, ← h.acknowledgements,
    OrdSet.mem_toFinset, OrdSet.mem_toFinset, OrdSet.contains_add]

/-- The acknowledgement by `peer` meets the requirement exactly when the history with it does. -/
theorem Tally.requirementMet_iff {id : MessageId} {m : Message} {history : List (Op × Reply)}
    {pending : PendingDelivery} (h : Tally id m history pending) {e : Op × Reply} {peer : PeerId}
    {policy : AckPolicy} (hack : Acks id peer policy e) (hpeer : pending.recipients.contains peer = true)
    (hstage : Sufficient m.ackPolicy policy) :
    requirementMet m.ackRequirement (OrdSet.add pending.acknowledgements peer).size pending.recipients.size = true ↔
      Meets m.ackRequirement pending.recipients.toFinset
        (acknowledgers id m pending.recipients.toFinset (history ++ [e])) := by
  have hset := h.add hack hpeer hstage
  have hsub : (OrdSet.add pending.acknowledgements peer).toFinset ⊆ pending.recipients.toFinset := by
    rw [hset]
    exact fun p hp => (mem_acknowledgers.mp hp).1
  rw [Broker.requirementMet_iff hsub, hset]

theorem Tally.step {op : Op} {reply : Reply} {id : MessageId} {m : Message} {history : List (Op × Reply)}
    {pending pending' : PendingDelivery} {events : List DeliveryEvent} (h : Tally id m history pending)
    (hmessage : pending.message = .message m)
    (heffect : Effect op reply id (some pending) (some pending') events) :
    Tally id m (history ++ [(op, reply)]) pending' := by
  have hrecipients := heffect.sameDelivery.recipients
  by_cases hacks : ∃ peer policy, Acks id peer policy (op, reply)
  · obtain ⟨peer, policy, hack⟩ := hacks
    obtain ⟨hpeer, hstage, hafter⟩ := heffect.of_acks hmessage hack
    obtain rfl := hafter pending' rfl
    have hmet := h.requirementMet_iff hack hpeer hstage
    refine ⟨?_, ?_⟩
    · exact h.add hack hpeer hstage
    · change (pending.acknowledgementComplete || ackCompletes pending m peer) = true ↔
        MetDuring id m pending.recipients.toFinset (history ++ [(op, reply)])
      rw [metDuring_snoc, ← h.complete, ← hmet, ackCompletes]
      have hsome : ∃ peer policy, Acks id peer policy (op, reply) := ⟨peer, policy, hack⟩
      cases pending.acknowledgementComplete <;> simp [hsome]
  · have hno : ∀ peer policy, ¬ Acks id peer policy (op, reply) :=
      fun peer policy hack => hacks ⟨peer, policy, hack⟩
    obtain ⟨hsame, hflag⟩ := heffect.of_not_acks hno
    refine ⟨?_, ?_⟩
    · rw [hsame, hrecipients, h.acknowledgements, acknowledgers_snoc_other hno]
    · rw [hflag, hrecipients, h.complete, metDuring_snoc]
      simp [hacks]

variable {P : Type} [Policy P] {broker : Broker P}

/-- Since a delivery was retained, its entry tallies the acknowledgements. -/
theorem runIn_acknowledgements {id : MessageId} {pending : PendingDelivery} {m : Message} {b b' : Broker P}
    {history : List (Op × Reply)} (hrun : RunIn exec (IsPending id) b history b') (hentries : Entries b)
    (hb : b.deliveries.get? id = some pending) (hmessage : pending.message = .message m)
    (hnew : pending.acknowledgements = ∅ ∧ pending.acknowledgementComplete = false) :
    ∃ pending', b'.deliveries.get? id = some pending' ∧ SameDelivery pending pending' ∧
      Tally id m history pending' := by
  induction hrun with
  | nil _ =>
    refine ⟨pending, hb, .refl _, ?_, ?_⟩
    · rw [hnew.1, acknowledgers_nil]
      rfl
    · rw [hnew.2]
      refine ⟨fun h => absurd h (by decide), ?_⟩
      rintro ⟨_, _, _, heq, -⟩
      exact absurd heq (by simp)
  | @snoc b₁ b₂ history op reply hrun hexec hpending ih =>
    obtain ⟨before, hbefore, hsame, htally⟩ := ih
    obtain ⟨after, hafter⟩ := hpending
    have heffect := exec_effect (run_entries hrun.run hentries) op id
    rw [hexec, hbefore, hafter] at heffect
    exact ⟨after, hafter, hsame.trans heffect.sameDelivery,
      htally.step (hsame.message.trans hmessage) heffect⟩

/-- `e` is the first successful acknowledgement after which the requirement is met. -/
def FirstMet (id : MessageId) (m : Message) (recipients : Finset PeerId) (history : List (Op × Reply))
    (e : Op × Reply) : Prop :=
  (∃ peer policy, Acks id peer policy e) ∧
    Meets m.ackRequirement recipients (acknowledgers id m recipients (history ++ [e])) ∧
    ¬ MetDuring id m recipients history

theorem exec_ackResult_iff {id : MessageId} {pending : PendingDelivery} {m : Message}
    {history : List (Op × Reply)} (hentries : Entries broker)
    (hpending : broker.deliveries.get? id = some pending) (hmessage : pending.message = .message m)
    (htally : Tally id m history pending) (op : Op) (sender : PeerId) {outcome : DeliveryOutcome}
    (houtcome : isAckOutcome outcome = true) :
    .result sender id outcome ∈ (exec broker op).2.events ↔
      FirstMet id m pending.recipients.toFinset history (op, (exec broker op).2) ∧
        sender = pending.sender ∧ ackOutcome m.ackPolicy = some outcome := by
  have heffect := exec_effect hentries op id
  rw [hpending] at heffect
  have habout : .result sender id outcome ∈ (exec broker op).2.events ↔
      .result sender id outcome ∈ eventsAbout id (exec broker op).2.events := by
    rw [eventsAbout, List.mem_filter]
    simp [about]
  have hcomplete : ∀ peer policy, Acks id peer policy (op, (exec broker op).2) →
      (ackCompletes pending m peer = true ↔
        Meets m.ackRequirement pending.recipients.toFinset (acknowledgers id m pending.recipients.toFinset
          (history ++ [(op, (exec broker op).2)])) ∧
        ¬ MetDuring id m pending.recipients.toFinset history) := by
    intro peer policy hack
    obtain ⟨hpeer, hstage, -⟩ := heffect.of_acks hmessage hack
    rw [← htally.requirementMet_iff hack hpeer hstage, ← htally.complete, ackCompletes]
    simp [and_comm]
  rw [habout, heffect.ackResult_iff hmessage houtcome]
  refine and_congr_left fun _ => ⟨?_, ?_⟩
  · rintro ⟨peer, policy, hack, hcompletes⟩
    exact ⟨⟨peer, policy, hack⟩, (hcomplete peer policy hack).mp hcompletes⟩
  · rintro ⟨⟨peer, policy, hack⟩, hmet⟩
    exact ⟨peer, policy, hack, (hcomplete peer policy hack).mpr hmet⟩

/-- Since `begin_delivery` retained `pending` under `id`, `RECEIVED` or `PROCESSED` is reported for it by
the first successful acknowledgement after which the recipients that acknowledged meet its requirement,
by no other call, and at most once before the next message that begins under `id`. -/
theorem ack_outcomes {policy : P} {limits : Limits} {capabilities : Capabilities}
    {before : List (Op × Reply)} {b b₁ : Broker P} {op : Op} {reply : Reply}
    (hrun : Run exec (Broker.empty policy limits capabilities) before b) (hexec : exec b op = (b₁, reply))
    {id : MessageId} {pending : PendingDelivery} (hfresh : b.deliveries.get? id = none)
    (hafter : b₁.deliveries.get? id = some pending) :
    ∃ m, pending.message = .message m ∧
      (∀ history b₂ call b₃ answer, RunIn exec (IsPending id) b₁ history b₂ → exec b₂ call = (b₃, answer) →
        ∀ sender outcome, isAckOutcome outcome = true →
          (.result sender id outcome ∈ answer.events ↔
            FirstMet id m pending.recipients.toFinset history (call, answer) ∧
              sender = pending.sender ∧ ackOutcome m.ackPolicy = some outcome)) ∧
      ∀ history b', Run exec b₁ history b' → (∀ e ∈ history, begins id e = false) →
        (trace id history).countP isAckResult ≤ 1 := by
  have hentries := run_entries hrun (entries_empty policy limits capabilities)
  have hentries₁ := run_entries (Run.single hexec) hentries
  have hb₁ : (exec b op).1 = b₁ := by rw [hexec]
  obtain ⟨sender, m, nowMs, priority, recipients, deadlineMs, -, -, -, -, hpending, -⟩ :=
    inserted_spec hentries hfresh (hb₁ ▸ hafter)
  have hmessage : pending.message = .message m := by rw [hpending]; rfl
  refine ⟨m, hmessage, ?_, ?_⟩
  · intro history b₂ call b₃ answer hin hcall sender outcome houtcome
    obtain ⟨last, hlast, hsame, htally⟩ := runIn_acknowledgements hin hentries₁ hafter hmessage
      ⟨by rw [hpending]; rfl, by rw [hpending]; rfl⟩
    have hiff := exec_ackResult_iff (run_entries hin.run hentries₁) hlast (hsame.message.trans hmessage)
      htally call sender houtcome
    rw [hcall, hsame.sender, hsame.recipients] at hiff
    exact hiff
  · intro history b' hlater hops
    rcases run_pending hlater hentries₁ hafter with hpends | ⟨life, later, b₂, rfl, hlife, -, hsilent⟩
    · exact hpends.once
    · obtain ⟨_, _, _, _, _, -, -, -, -, -, -, honce⟩ := hlife
      rw [trace_append, (hsilent fun e hmem => hops e (List.mem_append_right _ hmem)).2, List.append_nil]
      exact honce

/-! ## Two acknowledgements of one request -/

def sharedRequest : Message := plainRequest (numberedId 1) .received .all .all .broadcast

def beginShared : Op := .beginDelivery (.new 1) (.message sharedRequest) 0

def threeConnected : List (Op × Reply) × Broker AllowAll :=
  run exec (Broker.empty .mk .default ∅) [plainConnect, plainConnect, plainConnect]

def sharedBegun : Broker AllowAll := (exec threeConnected.2 beginShared).1

def sharedPending : PendingDelivery :=
  newPending (.new 1) sharedRequest (OrdSet.ofList [.new 2, .new 3]) 1000 0 0

def sharedAcknowledged : Broker AllowAll × Reply :=
  exec sharedBegun (.acknowledge (.new 2) (numberedId 1) .received)

/-- The acknowledgement by the other recipient meets the requirement first. -/
theorem ack_outcomes_shared :
    FirstMet (numberedId 1) sharedRequest sharedPending.recipients.toFinset
      [(.acknowledge (.new 2) (numberedId 1) .received, sharedAcknowledged.2)]
      (.acknowledge (.new 3) (numberedId 1) .processed,
        (exec sharedAcknowledged.1 (.acknowledge (.new 3) (numberedId 1) .processed)).2) := by
  have hbegun : sharedBegun.deliveries.get? (numberedId 1) = some sharedPending := by decide +kernel
  have hpending : sharedAcknowledged.1.deliveries.get? (numberedId 1) =
      some (recordAck sharedPending sharedRequest (.new 2)) := by decide +kernel
  have hreported : .result (.new 1) (numberedId 1) .received ∈
      (exec sharedAcknowledged.1 (.acknowledge (.new 3) (numberedId 1) .processed)).2.events := by
    decide +kernel
  have hin : RunIn exec (IsPending (numberedId 1)) sharedBegun
      [(.acknowledge (.new 2) (numberedId 1) .received, sharedAcknowledged.2)] sharedAcknowledged.1 :=
    .snoc (.nil ⟨_, hbegun⟩) Prod.mk.eta.symm ⟨_, hpending⟩
  have hrun : Run exec (Broker.empty AllowAll.mk .default ∅) threeConnected.1 threeConnected.2 := run_spec _ _
  have hfresh : threeConnected.2.deliveries.get? (numberedId 1) = none := by decide +kernel
  obtain ⟨m, hm, hfirst, -⟩ := ack_outcomes hrun Prod.mk.eta.symm hfresh hbegun
  cases hm
  exact ((hfirst _ _ _ _ _ hin Prod.mk.eta.symm (.new 1) .received rfl).mp hreported).1

end Busd.Broker
