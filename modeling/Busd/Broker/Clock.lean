import Busd.Broker.Retries
import Busd.Lib.Related

/-!
# Only differences of time matter

The broker is told the time with each call. It stores two instants in an entry, both computed from the time of a call,
and compares them with the time of later calls. So the same calls, all of them later by one shift, have the same
effect, as long as the shifted clock leaves room for a deadline.

* `Op.postpone` : the call, later by a shift;
* `PostponedEntry`, `Postponed` : entries and brokers whose stored instants differ by the shift;
* `exec_postponed` : one call;
* `clock_shift` : whole runs return the same replies.
-/

namespace Busd.Broker

open Words Machine Busd.Protocol Busd.Policy

variable {P : Type} {α β : Type} {shift : Nat}

/-! ## Instants -/

def After (shift : Nat) (timeMs timeMs' : UInt64) : Prop := timeMs'.toNat = timeMs.toNat + shift

theorem After.le_iff {a a' b b' : UInt64} (ha : After shift a a') (hb : After shift b b') : a' ≤ b' ↔ a ≤ b := by
  unfold After at ha hb
  rw [UInt64.le_iff_toNat_le, UInt64.le_iff_toNat_le]
  omega

/-- Room for the largest deadline, which is a 32-bit word. -/
def Roomy (timeMs : UInt64) : Prop := timeMs.toNat + 2 ^ 32 ≤ 2 ^ 64

theorem After.roomy {a a' : UInt64} (h : After shift a a') (hroom : Roomy a') : Roomy a := by
  unfold After at h
  unfold Roomy at hroom ⊢
  omega

theorem toNat_checkedAdd {timeMs delayMs : UInt64} (hroom : Roomy timeMs) (hdelay : delayMs.toNat < 2 ^ 32) :
    ∃ sum, checkedAdd timeMs delayMs = some sum ∧ sum.toNat = timeMs.toNat + delayMs.toNat := by
  unfold Roomy at hroom
  have hlt : timeMs.toNat + delayMs.toNat < 2 ^ 64 := by omega
  have hsome : checkedAdd timeMs delayMs = some (timeMs + delayMs) := if_pos hlt
  exact ⟨_, hsome, checkedAdd_eq_some hsome⟩

theorem After.retryNext {nowMs nowMs' : UInt64} (h : After shift nowMs nowMs') (hroom : Roomy nowMs')
    (retry : RetryPolicy) (attempts : UInt8) :
    Option.Rel (After shift) (Broker.retryNext retry nowMs attempts) (Broker.retryNext retry nowMs' attempts) := by
  unfold Broker.retryNext
  cases retry with
  | none => exact .none
  | exponential initialBackoffMs maxAttempts =>
    dsimp only
    split_ifs
    · exact .some h
    · refine .some ?_
      have hdelay : ∀ delay : UInt64, (min delay 60000).toNat ≤ 60000 := fun delay =>
        UInt64.le_iff_toNat_le.mp (min_le_right delay 60000)
      have hroom' := h.roomy hroom
      unfold After at h
      unfold Roomy at hroom hroom'
      unfold After
      rw [toNat_saturatingAdd, toNat_saturatingAdd]
      have hbound := hdelay (saturatingMul initialBackoffMs.toUInt64
        (UInt64.ofNat (2 ^ min (attempts.toNat - 1) 16)))
      omega

/-! ## Entries and brokers -/

/-- The stored instants of the second entry are later by the shift. -/
inductive PostponedEntry (shift : Nat) (pending : PendingDelivery) : PendingDelivery → Prop
  | mk {deadlineMs : UInt64} {nextRetryMs : Option UInt64} (hdeadline : After shift pending.deadlineMs deadlineMs)
      (hnext : Option.Rel (After shift) pending.nextRetryMs nextRetryMs) :
      PostponedEntry shift pending { pending with deadlineMs, nextRetryMs }

/-- The brokers differ in the instants of their entries only. -/
inductive Postponed (shift : Nat) (broker : Broker P) : Broker P → Prop
  | mk {deliveries : OrdMap MessageId PendingDelivery} (h : broker.deliveries.Related (PostponedEntry shift) deliveries) :
      Postponed shift broker { broker with deliveries }

structure Coincides (shift : Nat) (o o' : Broker P × α) : Prop where
  state : Postponed shift o.1 o'.1
  result : o'.2 = o.2

variable {broker broker' : Broker P} {pending pending' : PendingDelivery}

theorem Postponed.of (heq : broker' = { broker with deliveries := broker'.deliveries })
    (h : broker.deliveries.Related (PostponedEntry shift) broker'.deliveries) : Postponed shift broker broker' := by
  rw [heq]
  exact ⟨h⟩

theorem PostponedEntry.of (heq : pending' = { pending with
      deadlineMs := pending'.deadlineMs
      nextRetryMs := pending'.nextRetryMs })
    (hdeadline : After shift pending.deadlineMs pending'.deadlineMs)
    (hnext : Option.Rel (After shift) pending.nextRetryMs pending'.nextRetryMs) :
    PostponedEntry shift pending pending' := by
  rw [heq]
  exact ⟨hdeadline, hnext⟩

theorem coincides_of (h : Postponed shift broker broker') {a : α} : Coincides shift (broker, a) (broker', a) := ⟨h, rfl⟩

theorem coincides_orReturn (h : Postponed shift broker broker') {x : Except Error β} {next next' : β → Outcome P α}
    (hnext : ∀ b, Coincides shift (next b) (next' b)) :
    Coincides shift (broker.orReturn x next) (broker'.orReturn x next') := by
  cases x with
  | error error => exact coincides_of h
  | ok b => exact hnext b

theorem coincides_ite {p : Prop} [Decidable p] {a b a' b' : Broker P × α} (h : Coincides shift a a')
    (h' : Coincides shift b b') : Coincides shift (if p then a else b) (if p then a' else b') := by
  split_ifs
  · exact h
  · exact h'

theorem PostponedEntry.recipients (h : PostponedEntry shift pending pending') :
    pending'.recipients = pending.recipients := by
  obtain ⟨-, -⟩ := h
  rfl

theorem PostponedEntry.sender (h : PostponedEntry shift pending pending') : pending'.sender = pending.sender := by
  obtain ⟨-, -⟩ := h
  rfl

theorem PostponedEntry.message (h : PostponedEntry shift pending pending') : pending'.message = pending.message := by
  obtain ⟨-, -⟩ := h
  rfl

theorem Coincides.map {o o' : Broker P × α} (h : Coincides shift o o') (reply : α → β) :
    Coincides shift (o.map id reply) (o'.map id reply) := ⟨h.state, congrArg reply h.result⟩

/-! ## The registry -/

/-- The calls that are about the registry alone. -/
def Op.isRegistry : Op → Bool
  | .connect .. | .claim .. | .subscribe .. | .unsubscribe .. | .registerDbusName .. | .drainEvents => true
  | _ => false

/-- Such a call neither reads nor writes the entries. -/
theorem registry_postponed [Policy P] (hstate : Postponed shift broker broker') {op : Op} (hop : op.isRegistry = true) :
    Coincides shift (exec broker op) (exec broker' op) := by
  have hkept := hstate
  obtain ⟨h⟩ := hkept
  cases op with
  | connect credentials hello =>
    refine Coincides.map (coincides_orReturn hstate fun _ => coincides_orReturn hstate fun _ => ?_) _
    dsimp only
    cases checkedAdd broker.nextPeer 1 with
    | none => exact coincides_of hstate
    | some nextPeer => exact coincides_of (.of rfl h)
  | claim peer ns =>
    refine Coincides.map (coincides_orReturn hstate fun _ => coincides_ite (coincides_of hstate) ?_) _
    dsimp only
    cases broker.namespaces.get? ns with
    | some owner => exact coincides_of hstate
    | none => exact coincides_of (.of rfl h)
  | subscribe peer channel filters =>
    refine Coincides.map (coincides_orReturn hstate fun _ => coincides_ite (coincides_of hstate) ?_) _
    exact coincides_of (.of rfl h)
  | unsubscribe peer channel =>
    refine Coincides.map (coincides_orReturn hstate fun _ => ?_) _
    dsimp only
    cases broker.subscriptions.get? channel with
    | none => exact coincides_of hstate
    | some subscribers => exact coincides_of (.of rfl h)
  | registerDbusName peer name =>
    refine Coincides.map (coincides_ite (coincides_of hstate) (coincides_orReturn hstate fun _ => ?_)) _
    dsimp only
    cases broker.dbusNames.get? name with
    | some owner => exact coincides_of hstate
    | none => exact coincides_of (.of rfl h)
  | drainEvents => exact coincides_of (.of rfl h)
  | _ => cases hop

theorem affected_postponed {deliveries : OrdMap MessageId PendingDelivery}
    (h : broker.deliveries.Related (PostponedEntry shift) deliveries) (peer : PeerId) :
    Broker.affected { broker with deliveries } peer = broker.affected peer := by
  have hfilter : List.Forall₂ (fun e e' : MessageId × PendingDelivery => e.1 = e'.1 ∧ PostponedEntry shift e.2 e'.2)
      (broker.deliveries.entries.filter fun e => e.2.recipients.contains peer)
      (deliveries.entries.filter fun e => e.2.recipients.contains peer) := by
    refine List.rel_filter (fun e e' he => ?_) h
    simp only [he.2.recipients]
  have hmap : List.Forall₂ Eq (broker.affected peer) (Broker.affected { broker with deliveries } peer) :=
    List.rel_map (fun e e' he => Prod.ext he.1 he.2.sender.symm) hfilter
  rw [List.forall₂_eq_eq_eq] at hmap
  exact hmap.symm

theorem disconnectWithEvents_postponed (hstate : Postponed shift broker broker') (peer : PeerId) :
    Coincides shift (broker.disconnectWithEvents peer) (broker'.disconnectWithEvents peer) := by
  have hkept := hstate
  obtain @⟨deliveries, h⟩ := hkept
  rcases disconnectWithEvents_cases broker peer with ⟨hgone, heq⟩ | ⟨hthere, heq⟩
  · have heq' := (disconnectWithEvents_cases { broker with deliveries } peer).resolve_right fun h' =>
      Bool.false_ne_true (hgone.symm.trans h'.1)
    rw [heq, heq'.2]
    exact coincides_of hstate
  · have heq' := (disconnectWithEvents_cases { broker with deliveries } peer).resolve_left fun h' =>
      Bool.false_ne_true (h'.1.symm.trans hthere)
    rw [heq, heq'.2, affected_postponed h]
    refine coincides_of (.of rfl (h.filter fun _ _ _ hpending => ?_))
    rw [hpending.recipients]

/-! ## Messages -/

/-- The limits are checked against the senders and the messages of the entries. -/
theorem ensureDeliveryCapacity_postponed {deliveries : OrdMap MessageId PendingDelivery}
    (h : broker.deliveries.Related (PostponedEntry shift) deliveries) (sender : PeerId) (message : Frame)
    (request : Bool) :
    ensureDeliveryCapacity { broker with deliveries } sender message request =
      broker.ensureDeliveryCapacity sender message request := by
  have hqueued : List.Forall₂ (PostponedEntry shift)
      (broker.deliveries.values.filter fun pending => pending.sender = sender)
      (deliveries.values.filter fun pending => pending.sender = sender) := by
    refine List.rel_filter (fun pending pending' hpending => ?_) h.values
    simp only [hpending.sender]
  have hmessages : List.Forall₂ Eq
      ((broker.deliveries.values.filter fun pending => pending.sender = sender).map PendingDelivery.message)
      ((deliveries.values.filter fun pending => pending.sender = sender).map PendingDelivery.message) :=
    List.rel_map (fun _ _ hpending => hpending.message.symm) hqueued
  rw [List.forall₂_eq_eq_eq] at hmessages
  have hbytes : ∀ l : List PendingDelivery, (l.map fun p => deliveryBytes p.message) =
      (l.map PendingDelivery.message).map deliveryBytes := by
    intro l
    rw [List.map_map]
    rfl
  have hrequests : ∀ l : List PendingDelivery, (l.filter fun p => isRequest p.message).length =
      ((l.map PendingDelivery.message).filter isRequest).length := by
    intro l
    rw [List.filter_map, List.length_map]
    rfl
  unfold ensureDeliveryCapacity
  simp only [hbytes, hrequests, ← hmessages, ← hqueued.length_eq]

theorem Postponed.recordRouting (h : Postponed shift broker broker') (sender : PeerId) (m : Message)
    (recipients : OrdSet PeerId) :
    Postponed shift (broker.recordRouting sender m recipients) (broker'.recordRouting sender m recipients) := by
  obtain ⟨h⟩ := h
  unfold Broker.recordRouting
  dsimp only
  split_ifs <;> exact .of rfl h

theorem deliverRouted_postponed (h : Postponed shift broker broker') (sender : PeerId) (m : Message)
    (recipients : OrdSet PeerId) (priority : UInt8) {nowMs nowMs' : UInt64} (hnow : After shift nowMs nowMs')
    (hroom : Roomy nowMs') :
    Coincides shift (broker.deliverRouted sender m recipients priority nowMs)
      (broker'.deliverRouted sender m recipients priority nowMs') := by
  have hrouted := h.recordRouting sender m recipients
  unfold deliverRouted
  generalize broker.recordRouting sender m recipients = b, broker'.recordRouting sender m recipients = b' at hrouted
  have hstate := hrouted
  obtain ⟨hdeliveries⟩ := hrouted
  refine coincides_ite (coincides_of hstate) ?_
  refine coincides_ite (coincides_of hstate) ?_
  refine coincides_ite ?_ (coincides_of hstate)
  rw [ensureDeliveryCapacity_postponed hdeliveries]
  refine coincides_orReturn hstate fun _ => ?_
  -- both deadlines fit, so both are stored
  have hdeadline : m.deadlineMs.toUInt64.toNat < 2 ^ 32 := m.deadlineMs.toNat_lt
  obtain ⟨sum, hsum, htoNat⟩ := toNat_checkedAdd (hnow.roomy hroom) hdeadline
  obtain ⟨sum', hsum', htoNat'⟩ := toNat_checkedAdd hroom hdeadline
  rw [hsum, hsum']
  refine coincides_of (.of rfl (hdeliveries.insert m.messageId ⟨?_, hnow.retryNext hroom m.retry 1⟩))
  unfold After at hnow ⊢
  show sum'.toNat = sum.toNat + shift
  omega

theorem completeResponse_postponed (hstate : Postponed shift broker broker') (sender : PeerId) (message : Frame) :
    Coincides shift (broker.completeResponse sender message) (broker'.completeResponse sender message) := by
  have hkept := hstate
  obtain @⟨deliveries, h⟩ := hkept
  unfold completeResponse
  cases message with
  | message response =>
    dsimp only
    have hget := h.get? response.correlationId
    generalize broker.deliveries.get? response.correlationId = o, deliveries.get? response.correlationId = o' at hget
    cases hget with
    | none => exact coincides_of hstate
    | @some pending _ hpending =>
      obtain ⟨hdeadline, hnext⟩ := hpending
      dsimp only
      cases pending.message with
      | message request =>
        refine coincides_ite (coincides_of hstate) ?_
        refine coincides_ite (coincides_of hstate) (coincides_of (.of rfl ?_))
        dsimp only
        split_ifs
        · exact h.erase _
        · exact h.insert _ ⟨hdeadline, hnext⟩
      | _ => exact coincides_of hstate
  | _ => exact coincides_of hstate

theorem beginDelivery_postponed [Policy P] (hstate : Postponed shift broker broker') (sender : PeerId) (frame : Frame)
    {nowMs nowMs' : UInt64} (hnow : After shift nowMs nowMs') (hroom : Roomy nowMs') :
    Coincides shift (broker.beginDelivery sender frame nowMs) (broker'.beginDelivery sender frame nowMs') := by
  cases frame with
  | message m =>
    have hresponse := completeResponse_postponed hstate sender (.message m)
    have hrouted := fun recipients priority =>
      deliverRouted_postponed hstate sender m recipients priority hnow hroom
    have hkept := hstate
    obtain @⟨deliveries, h⟩ := hkept
    refine coincides_orReturn hstate fun _ => ?_
    refine coincides_orReturn hstate fun _ => ?_
    refine coincides_orReturn hstate fun priority => ?_
    refine coincides_ite hresponse ?_
    rw [h.contains]
    refine coincides_ite (coincides_of hstate) ?_
    have hroute : route { broker with deliveries } sender m.destination m.headers =
        broker.route sender m.destination m.headers := rfl
    rw [hroute]
    cases broker.route sender m.destination m.headers with
    | ok recipients => exact hrouted _ _
    | error error =>
      cases error with
      | noRecipient => exact coincides_of hstate
      | _ => exact coincides_of hstate
  | _ => exact coincides_of hstate

theorem acknowledge_postponed [Policy P] (hstate : Postponed shift broker broker') (peer : PeerId)
    (messageId : MessageId) (policy : AckPolicy) :
    Coincides shift (broker.acknowledge peer messageId policy) (broker'.acknowledge peer messageId policy) := by
  have hkept := hstate
  obtain @⟨deliveries, h⟩ := hkept
  refine coincides_orReturn hstate fun _ => ?_
  dsimp only
  have hget := h.get? messageId
  generalize broker.deliveries.get? messageId = o, deliveries.get? messageId = o' at hget
  cases hget with
  | none => exact coincides_of hstate
  | @some pending _ hpending =>
    obtain ⟨hdeadline, hnext⟩ := hpending
    obtain ⟨sender, message, recipients, acknowledgements, responses, complete, _, attempts, _, priority⟩ := pending
    dsimp only at hdeadline hnext ⊢
    cases message with
    | message m =>
      refine coincides_ite (coincides_of hstate) ?_
      cases ackOutcome m.ackPolicy with
      | none => exact coincides_of (.of rfl (h.insert _ (.of rfl hdeadline hnext)))
      | some outcome =>
        refine coincides_ite (coincides_of (.of rfl (h.insert _ (.of rfl hdeadline hnext)))) ?_
        refine coincides_ite (coincides_of (.of rfl ?_)) (coincides_of (.of rfl (h.insert _ (.of rfl hdeadline hnext))))
        exact OrdMap.Related.erase (h.insert messageId (.of rfl hdeadline hnext)) messageId
    | _ => exact coincides_of hstate

/-! ## The clock -/

inductive SameResult (shift : Nat) : TickResult → TickResult → Prop
  | keep : SameResult shift .keep .keep
  | expire : SameResult shift .expire .expire
  | abandon : SameResult shift .abandon .abandon
  | retry {updated updated' : PendingDelivery} (h : PostponedEntry shift updated updated') :
      SameResult shift (.retry updated) (.retry updated')

theorem retryDue_postponed {nowMs nowMs' : UInt64} (hnow : After shift nowMs nowMs') {next next' : Option UInt64}
    (hnext : Option.Rel (After shift) next next') : next'.any (· ≤ nowMs') = next.any (· ≤ nowMs) := by
  cases hnext with
  | none => rfl
  | some h => exact decide_eq_decide.mpr (h.le_iff hnow)

theorem tickResult_postponed (h : PostponedEntry shift pending pending') {nowMs nowMs' : UInt64}
    (hnow : After shift nowMs nowMs') (hroom : Roomy nowMs') :
    SameResult shift (tickResult nowMs pending) (tickResult nowMs' pending') := by
  obtain ⟨hdeadline, hnext⟩ := h
  unfold tickResult retryDue
  dsimp only
  rw [retryDue_postponed hnow hnext]
  by_cases hlate : pending.deadlineMs ≤ nowMs
  · rw [if_pos hlate, if_pos ((hdeadline.le_iff hnow).mpr hlate)]
    exact .expire
  rw [if_neg hlate, if_neg (mt (hdeadline.le_iff hnow).mp hlate)]
  split_ifs
  · exact .keep
  · cases hretry : frameRetry pending.message with
    | none => exact .keep
    | exponential initialBackoffMs maxAttempts =>
      dsimp only
      split_ifs
      · exact .abandon
      · exact .retry ⟨hdeadline, hnow.retryNext hroom _ _⟩

structure TickPostponed (shift : Nat) (state state' : TickState P) : Prop where
  broker : Postponed shift state.broker state'.broker
  events : state'.events = state.events
  retries : state'.retries = state.retries

theorem tickStep_postponed {nowMs nowMs' : UInt64} (hnow : After shift nowMs nowMs') (hroom : Roomy nowMs')
    {state state' : TickState P} (h : TickPostponed shift state state') (id : MessageId) :
    TickPostponed shift (tickStep nowMs state id) (tickStep nowMs' state' id) := by
  obtain ⟨broker, events, retries⟩ := state
  obtain ⟨broker', events', retries'⟩ := state'
  obtain rfl : events' = events := h.events
  obtain rfl : retries' = retries := h.retries
  have hstate : Postponed shift broker broker' := h.broker
  clear h
  have hkept := hstate
  obtain @⟨deliveries, h⟩ := hkept
  rw [tickStep_eq, tickStep_eq]
  dsimp only
  have hget := h.get? id
  generalize broker.deliveries.get? id = o, deliveries.get? id = o' at hget
  cases hget with
  | none => exact ⟨hstate, rfl, rfl⟩
  | @some pending pending' hpending =>
    have hresult := tickResult_postponed hpending hnow hroom
    dsimp only
    generalize tickResult nowMs pending = result, tickResult nowMs' pending' = result' at hresult
    obtain ⟨hdeadline, hnext⟩ := hpending
    cases hresult with
    | keep => exact ⟨hstate, rfl, rfl⟩
    | expire => exact ⟨.of rfl (h.erase id), rfl, rfl⟩
    | abandon => exact ⟨.of rfl (h.erase id), rfl, rfl⟩
    | retry hupdated => exact ⟨.of rfl (h.insert id hupdated), rfl, rfl⟩

theorem tickLoop_postponed {nowMs nowMs' : UInt64} (hnow : After shift nowMs nowMs') (hroom : Roomy nowMs')
    (ids : List MessageId) {state state' : TickState P} (h : TickPostponed shift state state') :
    TickPostponed shift (ids.foldl (tickStep nowMs) state) (ids.foldl (tickStep nowMs') state') := by
  induction ids generalizing state state' with
  | nil => exact h
  | cons id ids ih => exact ih (tickStep_postponed hnow hroom h id)

theorem tick_postponed (hstate : Postponed shift broker broker') {nowMs nowMs' : UInt64}
    (hnow : After shift nowMs nowMs') (hroom : Roomy nowMs') :
    Coincides shift (broker.tick nowMs) (broker'.tick nowMs') := by
  have hkeys : broker'.deliveries.keys = broker.deliveries.keys := by
    obtain ⟨h⟩ := hstate
    exact h.keys
  have hstart : TickPostponed shift (⟨broker, [], []⟩ : TickState P) ⟨broker', [], []⟩ := ⟨hstate, rfl, rfl⟩
  have hloop := tickLoop_postponed hnow hroom broker.deliveries.keys hstart
  unfold tick
  rw [hkeys]
  refine ⟨hloop.broker, ?_⟩
  dsimp only
  rw [hloop.events, hloop.retries]

/-! ## Runs -/

def Op.postpone (shiftMs : UInt64) : Op → Op
  | .beginDelivery sender message nowMs => .beginDelivery sender message (nowMs + shiftMs)
  | .tick nowMs => .tick (nowMs + shiftMs)
  | op => op

/-- If the call has a clock, the shifted clock has room for a deadline. -/
def Op.Roomy (shiftMs : UInt64) (op : Op) : Prop :=
  ∀ nowMs ∈ op.clock, nowMs.toNat + shiftMs.toNat + 2 ^ 32 ≤ 2 ^ 64

-- decided by the one clock value that a call can have, not by a search through all of them
instance (shiftMs : UInt64) (op : Op) : Decidable (op.Roomy shiftMs) :=
  decidable_of_iff (op.clock.all fun nowMs => nowMs.toNat + shiftMs.toNat + 2 ^ 32 ≤ 2 ^ 64)
    (by simp [Op.Roomy, Option.all_eq_true])

theorem after_add {nowMs shiftMs : UInt64} (h : nowMs.toNat + shiftMs.toNat + 2 ^ 32 ≤ 2 ^ 64) :
    After shiftMs.toNat nowMs (nowMs + shiftMs) ∧ Broker.Roomy (nowMs + shiftMs) := by
  have hsum : (nowMs + shiftMs).toNat = nowMs.toNat + shiftMs.toNat := by
    rw [UInt64.toNat_add]
    exact Nat.mod_eq_of_lt (by omega)
  unfold After Broker.Roomy
  omega

variable [Policy P]

theorem exec_postponed {shiftMs : UInt64} (h : Postponed shiftMs.toNat broker broker') {op : Op}
    (hroom : op.Roomy shiftMs) :
    Coincides shiftMs.toNat (exec broker op) (exec broker' (op.postpone shiftMs)) := by
  cases op with
  | disconnect peer => exact (disconnectWithEvents_postponed h peer).map _
  | beginDelivery sender frame nowMs =>
    obtain ⟨hnow, hroomy⟩ := after_add (hroom nowMs rfl)
    exact (beginDelivery_postponed h sender frame hnow hroomy).map _
  | acknowledge peer messageId policy => exact (acknowledge_postponed h peer messageId policy).map _
  | tick nowMs =>
    obtain ⟨hnow, hroomy⟩ := after_add (hroom nowMs rfl)
    exact (tick_postponed h hnow hroomy).map fun events => Reply.delivery (.ok events)
  | _ => exact registry_postponed h rfl

/-- The same calls on a new broker, all of them later by one shift, return the same replies and leave a broker in which
every stored instant is later by the shift. -/
theorem clock_shift (policy : P) (limits : Limits) (capabilities : Capabilities) (shiftMs : UInt64) {ops : List Op}
    (hroom : ∀ op ∈ ops, op.Roomy shiftMs) :
    (run exec (.empty policy limits capabilities) (ops.map (Op.postpone shiftMs))).1.map Prod.snd =
        (run exec (.empty policy limits capabilities) ops).1.map Prod.snd ∧
      Postponed shiftMs.toNat (run exec (.empty policy limits capabilities) ops).2
        (run exec (.empty policy limits capabilities) (ops.map (Op.postpone shiftMs))).2 := by
  have hops : List.Forall₂ (fun op op' => op.Roomy shiftMs ∧ op' = op.postpone shiftMs) ops
      (ops.map (Op.postpone shiftMs)) :=
    List.forall₂_map_right_iff.mpr (List.forall₂_same.mpr fun op hop => ⟨hroom op hop, rfl⟩)
  have hstart : Postponed shiftMs.toNat (.empty policy limits capabilities) (.empty policy limits capabilities) :=
    .of rfl OrdMap.related_empty
  obtain ⟨hstate, hhistory⟩ := run_related (S := Postponed shiftMs.toNat) (O := fun r r' => r' = r)
    (fun b b' op op' hb hop => by
      obtain ⟨hop, rfl⟩ := hop
      have h := exec_postponed hb hop
      exact ⟨h.state, h.result⟩) hstart hops
  refine ⟨?_, hstate⟩
  have hreplies := List.rel_map (fun e e' he => he.2.symm) hhistory
  rw [List.forall₂_eq_eq_eq] at hreplies
  exact hreplies.symm

/-- A request to the second peer, which does not answer until the deadline. -/
def unanswered : List Op :=
  [plainConnect, plainConnect,
    .beginDelivery (.new 1) (.message (plainRequest (numberedId 1) .none .none .first (.peer (.new 2)))) 5, .tick 1004,
    .tick 1005]

theorem clock_shift_unanswered :
    (run exec (Broker.empty AllowAll.mk .default ∅) unanswered).1.getLast?.map Prod.snd =
        some (.delivery (.ok [.result (.new 1) (numberedId 1) .timeout])) ∧
      (run exec (Broker.empty AllowAll.mk .default ∅) (unanswered.map (Op.postpone 7000))).1.map Prod.snd =
        (run exec (Broker.empty AllowAll.mk .default ∅) unanswered).1.map Prod.snd :=
  ⟨by decide +kernel, (clock_shift AllowAll.mk .default ∅ 7000 (by decide +kernel)).1⟩

end Busd.Broker
