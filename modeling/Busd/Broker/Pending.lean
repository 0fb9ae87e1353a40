import Busd.Broker.Acks
import Busd.Protocol.Frames

/-!
# What a retained delivery looks like

The fields of a `PendingDelivery` are coupled: its flag, its maps and its schedule follow from each other,
for messages that `Frame::decode` accepted.

* `Kept` : the four things a call can do to an entry that stays (`Effect.kept`);
* `AckState`, `ResponseState`, `Schedule` : the three groups of fields, each preserved on its own;
* `run_kept` : the rule for properties of one entry;
* `run_represented` : every entry of every reachable state.
-/

namespace Busd.Broker

open Words Machine Busd.Protocol Busd.Policy

/-! ## What a call does to an entry that stays -/

/-- The entry of `m` that a call leaves behind. -/
inductive Kept (m : Message) (pending : PendingDelivery) : PendingDelivery → Prop
  | same : Kept m pending pending
  | acknowledged {peer : PeerId} {policy : AckPolicy} (hrecipient : pending.recipients.contains peer = true)
      (hstage : acknowledgementSatisfies m.ackPolicy policy = true)
      (hstays : ackCompletes pending m peer = true → m.kind = .request) :
      Kept m pending (recordAck pending m peer)
  | answered {sender : PeerId} {response : Message} (hrecipient : pending.recipients.contains sender = true)
      (hfirst : pending.responses.contains sender = false)
      (hstays : completesRequest pending m sender response = false) :
      Kept m pending { pending with responses := addResponse pending sender response }
  | retried {nowMs : UInt64} {initialBackoffMs : UInt32} {maxAttempts : UInt8}
      (hretry : m.retry = .exponential initialBackoffMs maxAttempts) (hmore : pending.attempts < maxAttempts)
      (hearly : nowMs < pending.deadlineMs) (hdue : retryDue nowMs pending = true) :
      Kept m pending (nextAttempt nowMs pending)

/-- An attempt that `tick` makes is due, early enough and within the bound of the retry policy. -/
theorem tickResult_retry {nowMs : UInt64} {m : Message} {pending updated : PendingDelivery}
    (hmessage : pending.message = .message m) (h : tickResult nowMs pending = .retry updated) :
    updated = nextAttempt nowMs pending ∧ nowMs < pending.deadlineMs ∧ retryDue nowMs pending = true ∧
      ∃ initialBackoffMs maxAttempts, m.retry = .exponential initialBackoffMs maxAttempts ∧
        pending.attempts < maxAttempts := by
  have hfrom : frameRetry pending.message = m.retry := by
    rw [hmessage]
    rfl
  unfold tickResult at h
  rw [hfrom] at h
  split_ifs at h with hexpired hdue
  split at h
  · cases h
  · next initialBackoffMs maxAttempts hretry =>
    split_ifs at h with hspent
    cases h
    exact ⟨rfl, not_le.mp hexpired, by simpa using hdue, initialBackoffMs, maxAttempts, hretry, not_le.mp hspent⟩

theorem afterTick_kept {nowMs : UInt64} {m : Message} {pending pending' : PendingDelivery}
    (hmessage : pending.message = .message m) (h : afterTick nowMs pending = some pending') :
    Kept m pending pending' := by
  unfold afterTick at h
  split at h
  · cases h
    exact .same
  · cases h
  · cases h
  · next hresult =>
    cases h
    obtain ⟨rfl, hearly, hdue, _, _, hretry, hmore⟩ := tickResult_retry hmessage hresult
    exact .retried hretry hmore hearly hdue

theorem Effect.kept {op : Op} {reply : Reply} {id : MessageId} {m : Message} {pending pending' : PendingDelivery}
    {events : List DeliveryEvent} (hmessage : pending.message = .message m)
    (h : Effect op reply id (some pending) (some pending') events) : Kept m pending pending' := by
  generalize hafter : some pending' = after at h
  cases h with
  | untouched _ =>
    cases hafter
    exact .same
  | @acknowledged _ m' peer _ _ _ _ _ hmessage' hrecipient hstage _ =>
    obtain rfl : m' = m := Frame.message.inj (hmessage'.symm.trans hmessage)
    split_ifs at hafter with hremoved
    cases hafter
    refine .acknowledged hrecipient hstage fun hcompletes => ?_
    by_contra hkind
    exact hremoved ⟨hcompletes, hkind⟩
  | @answered _ request response sender _ _ _ _ hmessage' _ hrecipient hfirst =>
    obtain rfl : request = m := Frame.message.inj (hmessage'.symm.trans hmessage)
    split_ifs at hafter with hcompletes
    cases hafter
    exact .answered hrecipient hfirst (by simpa using hcompletes)
  | ticked _ => exact afterTick_kept hmessage hafter.symm
  | recipientLost _ _ => cases hafter

/-! ## Acknowledgements -/

theorem Meets.mono {requirement : AckRequirement} {recipients acked acked' : Finset PeerId}
    (h : Meets requirement recipients acked) (hsub : acked ⊆ acked') : Meets requirement recipients acked' := by
  cases requirement with
  | none => trivial
  | any => exact Finset.Nonempty.mono hsub h
  | all => exact Finset.Subset.trans h hsub
  | minimum count => exact le_trans h (Finset.card_le_card hsub)

structure AckState (m : Message) (pending : PendingDelivery) : Prop where
  acknowledgements : ∀ peer, pending.acknowledgements.contains peer = true → pending.recipients.contains peer = true
  complete : pending.acknowledgementComplete = true ↔ (m.ackPolicy = .received ∨ m.ackPolicy = .processed) ∧
    requirementMet m.ackRequirement pending.acknowledgements.size pending.recipients.size = true
  oneWay : m.kind ≠ .request → pending.acknowledgementComplete = false

theorem AckState.subset {m : Message} {pending : PendingDelivery} (h : AckState m pending) :
    pending.acknowledgements.toFinset ⊆ pending.recipients.toFinset :=
  fun peer hpeer => OrdSet.mem_toFinset.mpr (h.acknowledgements peer (OrdSet.mem_toFinset.mp hpeer))

theorem byRecipient_iff {policy : AckPolicy} :
    policy.byRecipient = true ↔ policy = .received ∨ policy = .processed := by
  cases policy <;> simp [AckPolicy.byRecipient]

theorem byRecipient_of_satisfies {required actual : AckPolicy}
    (h : acknowledgementSatisfies required actual = true) : required = .received ∨ required = .processed := by
  cases required <;> simp [acknowledgementSatisfies] at h ⊢

theorem requirementMet_zero {m : Message} (hvalid : m.Valid) (hpolicy : m.ackPolicy.byRecipient = true)
    {recipients : Nat} (hrecipients : recipients ≠ 0) : requirementMet m.ackRequirement 0 recipients = false := by
  have hsome := hvalid.requirement.mp hpolicy
  cases hrequirement : m.ackRequirement with
  | none => exact absurd hrequirement hsome
  | any => rfl
  | all => exact decide_eq_false fun h => hrecipients h.symm
  | minimum count =>
    have hcount : count.toNat ≠ 0 := fun h => hvalid.minimum count hrequirement (UInt16.toNat_inj.mp h)
    exact decide_eq_false fun h => hcount (Nat.le_zero.mp h)

theorem AckState.new {m : Message} (hvalid : m.Valid) {sender : PeerId} {recipients : OrdSet PeerId}
    (hrecipients : recipients.size ≠ 0) {deadlineMs nowMs : UInt64} {priority : UInt8} :
    AckState m (newPending sender m recipients deadlineMs nowMs priority) where
  acknowledgements _ hpeer := by cases hpeer
  complete := by
    refine ⟨fun h => (nomatch h), fun ⟨hpolicy, hmet⟩ => ?_⟩
    have hzero := requirementMet_zero hvalid (byRecipient_iff.mpr hpolicy) hrecipients
    exact absurd (hzero.symm.trans hmet) Bool.false_ne_true
  oneWay _ := rfl

theorem AckState.record {m : Message} {pending : PendingDelivery} (h : AckState m pending) {peer : PeerId}
    {policy : AckPolicy} (hrecipient : pending.recipients.contains peer = true)
    (hstage : acknowledgementSatisfies m.ackPolicy policy = true)
    (hstays : ackCompletes pending m peer = true → m.kind = .request) :
    AckState m (recordAck pending m peer) := by
  have hinside : ∀ p, (OrdSet.add pending.acknowledgements peer).contains p = true →
      pending.recipients.contains p = true := by
    intro p hp
    rcases OrdSet.contains_add.mp hp with rfl | hp
    · exact hrecipient
    · exact h.acknowledgements p hp
  have hgrow : pending.acknowledgements.toFinset ⊆ (OrdSet.add pending.acknowledgements peer).toFinset := by
    intro p hp
    exact OrdSet.mem_toFinset.mpr (OrdSet.contains_add.mpr (.inr (OrdSet.mem_toFinset.mp hp)))
  have hsub : (OrdSet.add pending.acknowledgements peer).toFinset ⊆ pending.recipients.toFinset :=
    fun p hp => OrdSet.mem_toFinset.mpr (hinside p (OrdSet.mem_toFinset.mp hp))
  -- a requirement that was met stays met, since acknowledgements are only added
  have hkeep : pending.acknowledgementComplete = true →
      requirementMet m.ackRequirement (OrdSet.add pending.acknowledgements peer).size pending.recipients.size = true := by
    intro hcomplete
    have hmet := (requirementMet_iff h.subset).mp (h.complete.mp hcomplete).2
    exact (requirementMet_iff hsub).mpr (hmet.mono hgrow)
  refine ⟨hinside, ?_, fun hkind => ?_⟩
  · change (pending.acknowledgementComplete || ackCompletes pending m peer) = true ↔ _ ∧
      requirementMet m.ackRequirement (OrdSet.add pending.acknowledgements peer).size pending.recipients.size = true
    rw [ackCompletes]
    refine ⟨fun hcomplete => ⟨byRecipient_of_satisfies hstage, ?_⟩, fun hmet => ?_⟩
    · rcases Bool.or_eq_true_iff.mp hcomplete with hcomplete | hcompletes
      · exact hkeep hcomplete
      · exact (Bool.and_eq_true_iff.mp hcompletes).2
    · rw [hmet.2]
      cases pending.acknowledgementComplete <;> rfl
  · have hnot : ackCompletes pending m peer = false := by
      by_contra hcompletes
      exact hkind (hstays (by simpa using hcompletes))
    change (pending.acknowledgementComplete || ackCompletes pending m peer) = false
    rw [h.oneWay hkind, hnot]
    rfl

theorem AckState.kept {m : Message} {pending pending' : PendingDelivery} (h : AckState m pending)
    (hkept : Kept m pending pending') : AckState m pending' := by
  cases hkept with
  | same => exact h
  | acknowledged hrecipient hstage hstays => exact h.record hrecipient hstage hstays
  | answered _ _ _ => exact ⟨h.acknowledgements, h.complete, h.oneWay⟩
  | retried _ _ _ _ => exact ⟨h.acknowledgements, h.complete, h.oneWay⟩

/-! ## Responses -/

/-- The responses that an entry collects until the request completes. -/
structure ResponseState (m : Message) (pending : PendingDelivery) : Prop where
  responders : ∀ peer, pending.responses.contains peer = true → pending.recipients.contains peer = true
  single : m.requestPolicy = .exact ∨ m.requestPolicy = .first → pending.responses = ∅
  several : m.requestPolicy = .firstSuccess ∨ m.requestPolicy = .all →
    pending.responses.size < pending.recipients.size
  unsuccessful : m.requestPolicy = .firstSuccess → ∀ peer frame, pending.responses.get? peer = some frame →
    ∃ r, frame = .message r ∧ r.status ≠ .success

theorem ResponseState.new {m : Message} {sender : PeerId} {recipients : OrdSet PeerId}
    (hrecipients : recipients.size ≠ 0) {deadlineMs nowMs : UInt64} {priority : UInt8} :
    ResponseState m (newPending sender m recipients deadlineMs nowMs priority) where
  responders _ hpeer := by cases hpeer
  single _ := rfl
  several _ := Nat.pos_of_ne_zero hrecipients
  unsuccessful _ _ _ hget := by cases hget

theorem ResponseState.add {m : Message} {pending : PendingDelivery} (h : ResponseState m pending)
    {sender : PeerId} {response : Message} (hrecipient : pending.recipients.contains sender = true)
    (hstays : completesRequest pending m sender response = false) :
    ResponseState m { pending with responses := addResponse pending sender response } := by
  have hinside : ∀ peer, (addResponse pending sender response).contains peer = true →
      pending.recipients.contains peer = true := by
    intro peer hpeer
    rcases OrdMap.contains_insert.mp hpeer with rfl | hpeer
    · exact hrecipient
    · exact h.responders peer hpeer
  have hle := OrdMap.size_le_of_subset hinside
  unfold completesRequest responseCompletes at hstays
  refine ⟨hinside, fun hpolicy => ?_, fun hpolicy => ?_, fun hpolicy peer frame hget => ?_⟩
  · rcases hpolicy with hpolicy | hpolicy <;> simp [hpolicy] at hstays
  · have hne : (addResponse pending sender response).size ≠ pending.recipients.size := by
      rcases hpolicy with hpolicy | hpolicy <;> simp [hpolicy] at hstays
      · exact hstays.2
      · exact hstays
    exact lt_of_le_of_ne hle hne
  · have hstatus : response.status ≠ .success := by
      simp [hpolicy] at hstays
      exact hstays.1
    change (pending.responses.insert sender (.message response)).get? peer = some frame at hget
    rw [OrdMap.get?_insert] at hget
    split_ifs at hget with hpeer
    · exact ⟨response, (Option.some.inj hget).symm, hstatus⟩
    · exact h.unsuccessful hpolicy peer frame hget

theorem ResponseState.kept {m : Message} {pending pending' : PendingDelivery} (h : ResponseState m pending)
    (hkept : Kept m pending pending') : ResponseState m pending' := by
  cases hkept with
  | same => exact h
  | acknowledged _ _ _ => exact ⟨h.responders, h.single, h.several, h.unsuccessful⟩
  | answered hrecipient _ hstays => exact h.add hrecipient hstays
  | retried _ _ _ _ => exact ⟨h.responders, h.single, h.several, h.unsuccessful⟩

/-! ## The retry schedule -/

theorem retryNext_eq_none_iff {retry : RetryPolicy} {nowMs : UInt64} {attempts : UInt8} :
    retryNext retry nowMs attempts = none ↔ retry = .none := by
  unfold retryNext
  split
  · simp
  · split_ifs <;> simp

structure Schedule (m : Message) (pending : PendingDelivery) : Prop where
  next : pending.nextRetryMs = none ↔ m.retry = .none
  attempts : ∀ initialBackoffMs maxAttempts, m.retry = .exponential initialBackoffMs maxAttempts →
    1 ≤ pending.attempts ∧ pending.attempts ≤ maxAttempts

theorem Schedule.new {m : Message} (hvalid : m.Valid) {sender : PeerId} {recipients : OrdSet PeerId}
    {deadlineMs nowMs : UInt64} {priority : UInt8} :
    Schedule m (newPending sender m recipients deadlineMs nowMs priority) where
  next := retryNext_eq_none_iff
  attempts initialBackoffMs maxAttempts hretry := by
    have htwo : 2 ≤ maxAttempts := (hvalid.retry initialBackoffMs maxAttempts hretry).2
    exact ⟨le_refl 1, le_trans (show (1 : UInt8) ≤ 2 by decide) htwo⟩

/-- The count of attempts does not wrap, since it stays within the bound of the policy. -/
theorem nextAttempt_attempts {nowMs : UInt64} {pending : PendingDelivery} {maxAttempts : UInt8}
    (h : pending.attempts < maxAttempts) :
    (nextAttempt nowMs pending).attempts.toNat = pending.attempts.toNat + 1 := by
  have hlt : pending.attempts.toNat < maxAttempts.toNat := UInt8.lt_iff_toNat_lt.mp h
  have hmax : maxAttempts.toNat < 2 ^ 8 := maxAttempts.toNat_lt
  change (pending.attempts + 1).toNat = pending.attempts.toNat + 1
  rw [UInt8.toNat_add]
  change (pending.attempts.toNat + 1) % 2 ^ 8 = pending.attempts.toNat + 1
  omega

theorem Schedule.kept {m : Message} {pending pending' : PendingDelivery} (h : Schedule m pending)
    (hmessage : pending.message = .message m) (hkept : Kept m pending pending') : Schedule m pending' := by
  cases hkept with
  | same => exact h
  | acknowledged _ _ _ => exact ⟨h.next, h.attempts⟩
  | answered _ _ _ => exact ⟨h.next, h.attempts⟩
  | @retried nowMs initialBackoffMs maxAttempts hretry hmore _ _ =>
    refine ⟨?_, fun initialBackoffMs' maxAttempts' hretry' => ?_⟩
    · change retryNext (frameRetry pending.message) nowMs (pending.attempts + 1) = none ↔ m.retry = .none
      rw [hmessage]
      exact retryNext_eq_none_iff
    · obtain ⟨rfl, rfl⟩ := RetryPolicy.exponential.inj (hretry.symm.trans hretry')
      have hcount := @nextAttempt_attempts nowMs _ _ hmore
      have hlt : pending.attempts.toNat < maxAttempts.toNat := UInt8.lt_iff_toNat_lt.mp hmore
      rw [UInt8.le_iff_toNat_le, UInt8.le_iff_toNat_le, hcount]
      exact ⟨Nat.le_add_left 1 _, hlt⟩

/-! ## Reachable states -/

/-- What an entry retained under `id` looks like. -/
structure Represented (id : MessageId) (m : Message) (pending : PendingDelivery) : Prop where
  message : pending.message = .message m
  key : m.messageId = id
  recipients : pending.recipients.isEmpty = false
  acks : AckState m pending
  responses : ResponseState m pending
  schedule : Schedule m pending
  priority : pending.priority ≤ 7

/-- The message of a `begin_delivery` was decoded from some packet. -/
def Op.Decoded (op : Op) : Prop :=
  ∀ sender m nowMs, op = .beginDelivery sender (.message m) nowMs →
    ∃ packet limits, Frame.decodeWithLimits packet limits = .ok (.message m)

theorem messagePriority_le {headers : Headers} {priority : UInt8} (h : messagePriority headers = .ok priority) :
    priority ≤ 7 := by
  unfold messagePriority at h
  split at h
  · cases h
    decide
  · next value _ =>
    split_ifs at h with hle
    cases h
    have hvalue : value.toNat ≤ 7 := UInt64.le_iff_toNat_le.mp hle
    rw [UInt8.le_iff_toNat_le, UInt64.toNat_toUInt8]
    exact le_trans (Nat.mod_le _ _) hvalue
  · cases h

variable {P : Type} [Policy P]

theorem Represented.new {broker : Broker P} {id : MessageId} {sender : PeerId} {m : Message}
    {recipients : List PeerId} {nowMs deadlineMs : UInt64} {priority : UInt8} (hvalid : m.Valid)
    (hid : m.messageId = id) (hrouted : Routed broker sender m priority recipients)
    (hretained : Retained broker sender m (OrdSet.ofList recipients) nowMs deadlineMs) :
    Represented id m (newPending sender m (OrdSet.ofList recipients) deadlineMs nowMs priority) := by
  have hsize : (OrdSet.ofList recipients).size ≠ 0 := by
    intro hzero
    have hempty : (OrdSet.ofList recipients).entries = [] := List.length_eq_zero_iff.mp hzero
    have hnonempty := hretained.nonempty
    rw [OrdMap.isEmpty, hempty] at hnonempty
    cases hnonempty
  exact ⟨rfl, hid, hretained.nonempty, .new hvalid hsize, .new hsize, .new hvalid, messagePriority_le hrouted.priority⟩

theorem Represented.kept {id : MessageId} {m : Message} {pending pending' : PendingDelivery}
    (h : Represented id m pending) (hkept : Kept m pending pending') : Represented id m pending' := by
  have hacks := h.acks.kept hkept
  have hresponses := h.responses.kept hkept
  have hschedule := h.schedule.kept h.message hkept
  cases hkept with
  | same => exact h
  | acknowledged _ _ _ => exact ⟨h.message, h.key, h.recipients, hacks, hresponses, hschedule, h.priority⟩
  | answered _ _ _ => exact ⟨h.message, h.key, h.recipients, hacks, hresponses, hschedule, h.priority⟩
  | retried _ _ _ _ => exact ⟨h.message, h.key, h.recipients, hacks, hresponses, hschedule, h.priority⟩

/-- What holds of every new entry and survives the four things a call can do to it holds of every retained entry. -/
theorem run_kept {A : Op → Prop} {Q : Message → PendingDelivery → Prop}
    (hnew : ∀ (b : Broker P) sender m recipients nowMs deadlineMs priority,
      A (.beginDelivery sender (.message m) nowMs) → Routed b sender m priority recipients →
      Retained b sender m (OrdSet.ofList recipients) nowMs deadlineMs →
      Q m (newPending sender m (OrdSet.ofList recipients) deadlineMs nowMs priority))
    (hkept : ∀ m pending pending', pending.message = .message m → Q m pending → Kept m pending pending' → Q m pending')
    {policy : P} {limits : Limits} {capabilities : Capabilities} {broker : Broker P} {history : List (Op × Reply)}
    (hrun : Run exec (Broker.empty policy limits capabilities) history broker) (hops : ∀ e ∈ history, A e.1)
    {id : MessageId} {pending : PendingDelivery} (hget : broker.deliveries.get? id = some pending) :
    ∃ m, pending.message = .message m ∧ m.messageId = id ∧ Q m pending := by
  have hinv : Entries broker ∧ ∀ id pending m, broker.deliveries.get? id = some pending →
      pending.message = .message m → Q m pending := by
    refine hrun.invariant_on (I := fun b => Entries b ∧ ∀ id pending m, b.deliveries.get? id = some pending →
      pending.message = .message m → Q m pending) (A := A) ?_ hops ?_
    · rintro b op hop ⟨hentries, hall⟩
      refine ⟨exec_entries b op hentries, fun id pending' m hafter hmessage => ?_⟩
      cases hbefore : b.deliveries.get? id with
      | none =>
        obtain ⟨sender, m', nowMs, priority, recipients, deadlineMs, rfl, -, hrouted, hretained, rfl, -⟩ :=
          inserted_spec hentries hbefore hafter
        obtain rfl : m' = m := Frame.message.inj hmessage
        exact hnew b sender m' recipients nowMs deadlineMs priority hop hrouted hretained
      | some pending =>
        have heffect := exec_effect hentries op id
        rw [hbefore, hafter] at heffect
        have hsame : pending.message = .message m := heffect.sameDelivery.message.symm.trans hmessage
        exact hkept m pending pending' hsame (hall id pending m hbefore hsame) (heffect.kept hsame)
    · exact ⟨entries_empty policy limits capabilities, fun _ _ _ hnone => by cases hnone⟩
  obtain ⟨m, hmessage, hid, -⟩ := (hinv.1 id pending hget).message
  exact ⟨m, hmessage, hid, hinv.2 id pending m hget hmessage⟩

def AllRepresented (broker : Broker P) : Prop :=
  ∀ id pending, broker.deliveries.get? id = some pending → ∃ m, Represented id m pending ∧ m.Valid

theorem allRepresented_of_run {policy : P} {limits : Limits} {capabilities : Capabilities} {broker : Broker P}
    {history : List (Op × Reply)} (hrun : Run exec (Broker.empty policy limits capabilities) history broker)
    (hdecoded : ∀ e ∈ history, Op.Decoded e.1) : AllRepresented broker := by
  intro id pending hget
  have hall := run_kept (A := Op.Decoded) (Q := fun m pending => Represented m.messageId m pending ∧ m.Valid)
    ?_ ?_ hrun hdecoded hget
  · obtain ⟨m, -, rfl, h⟩ := hall
    exact ⟨m, h⟩
  · intro b sender m recipients nowMs deadlineMs priority hdecoded hrouted hretained
    obtain ⟨packet, limits, hpacket⟩ := hdecoded sender m nowMs rfl
    have hvalid := Message.valid_of_decode hpacket
    exact ⟨.new hvalid rfl hrouted hretained, hvalid⟩
  · rintro m pending pending' - ⟨hrepresented, hvalid⟩ hkept
    exact ⟨hrepresented.kept hkept, hvalid⟩

/-- In every reachable state every entry is represented as above, and no retry wraps the count of attempts. -/
theorem run_represented {policy : P} {limits : Limits} {capabilities : Capabilities} {broker : Broker P}
    {history : List (Op × Reply)} (hrun : Run exec (Broker.empty policy limits capabilities) history broker)
    (hdecoded : ∀ e ∈ history, Op.Decoded e.1) {id : MessageId} {pending : PendingDelivery}
    (hget : broker.deliveries.get? id = some pending) :
    ∃ m, Represented id m pending ∧
      ∀ nowMs updated, tickResult nowMs pending = .retry updated →
        updated.attempts.toNat = pending.attempts.toNat + 1 := by
  obtain ⟨m, hrepresented, -⟩ := allRepresented_of_run hrun hdecoded id pending hget
  refine ⟨m, hrepresented, fun nowMs updated hretry => ?_⟩
  obtain ⟨rfl, -, -, _, _, -, hmore⟩ := tickResult_retry hrepresented.message hretry
  exact nextAttempt_attempts hmore

/-- A request for all other peers that is tried again after ten milliseconds. -/
def retriedRequest : Message :=
  { plainRequest (numberedId 1) .received .all .all .broadcast with retry := .exponential 10 3 }

def retriedRequestPacket : List UInt8 :=
  [66, 85, 83, 49, 3, 6, 0, 0, 0, 0, 0, 54, 1, 2, 2, 3, 0, 0, 3, 232, 1, 0, 0, 0, 10, 3, 4] ++ beBytes 16 1 ++
    List.replicate 23 0

/-- One of the two recipients acknowledges the request before it is tried again. -/
def retriedOps : List Op :=
  [plainConnect, plainConnect, plainConnect, .beginDelivery (.new 1) (.message retriedRequest) 0,
    .acknowledge (.new 2) (numberedId 1) .received, .tick 10]

def retriedRun : List (Op × Reply) × Broker AllowAll := run exec (Broker.empty .mk .default ∅) retriedOps

def retriedPending : PendingDelivery :=
  { newPending (.new 1) retriedRequest (OrdSet.ofList [.new 2, .new 3]) 1000 0 0 with
    acknowledgements := OrdSet.ofList [.new 2]
    attempts := 2
    nextRetryMs := some 30 }

theorem retriedOps_decoded : ∀ op ∈ retriedOps, Op.Decoded op := by
  have hpacket : Frame.decodeWithLimits retriedRequestPacket .default = .ok (.message retriedRequest) := by
    decide +kernel
  intro op hmem sender m nowMs hop
  subst hop
  simp only [retriedOps, plainConnect, List.mem_cons, List.not_mem_nil, reduceCtorEq, false_or, or_false,
    Op.beginDelivery.injEq, Frame.message.injEq] at hmem
  obtain ⟨-, rfl, -⟩ := hmem
  exact ⟨retriedRequestPacket, .default, hpacket⟩

theorem run_represented_retriedRequest :
    retriedRun.2.deliveries.get? (numberedId 1) = some retriedPending ∧
      ∃ m, Represented (numberedId 1) m retriedPending ∧
        ∀ nowMs updated, tickResult nowMs retriedPending = .retry updated →
          updated.attempts.toNat = retriedPending.attempts.toNat + 1 := by
  have hget : retriedRun.2.deliveries.get? (numberedId 1) = some retriedPending := by decide +kernel
  exact ⟨hget, run_represented (run_spec _ _) (forall_run_inputs retriedOps_decoded) hget⟩

end Busd.Broker
