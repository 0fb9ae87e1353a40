import Busd.Broker.Pending

/-!
# The retry schedule

A tracked message is delivered when it is begun and again by `tick`, as its retry policy asks. The count of
attempts and the time of the next one are kept in the entry; both are read back here as facts about the
deliveries a run emitted.

* `Attempt`, `attempts` : the deliveries of one message in a history, with the time of each;
* `retryNext_gap` : the time of the next attempt in plain arithmetic, without the clamps of the source;
* `Tried` : how the entry records the attempts made so far;
* `retry_schedule` : every run, under any clock.
-/

namespace Busd.Broker

open Words Machine Busd.Protocol Busd.Policy

/-! ## Attempts -/

structure Attempt where
  timeMs : UInt64
  sender : PeerId
  recipients : List PeerId
  message : Frame
  deriving DecidableEq

/-- The event as an attempt to deliver the message under `id`; a response is not one. -/
def attemptOf (id : MessageId) (timeMs : UInt64) : DeliveryEvent → Option Attempt
  | .deliver sender recipients (.message m) =>
    if m.kind ≠ .response ∧ m.messageId = id then some ⟨timeMs, sender, recipients, .message m⟩ else none
  | _ => none

def Op.clock : Op → Option UInt64
  | .beginDelivery _ _ nowMs | .tick nowMs => some nowMs
  | _ => none

def attemptsIn (id : MessageId) (e : Op × Reply) : List Attempt :=
  match e.1.clock with
  | none => []
  | some nowMs => e.2.events.filterMap (attemptOf id nowMs)

def attempts (id : MessageId) (history : List (Op × Reply)) : List Attempt := history.flatMap (attemptsIn id)

theorem attempts_append (id : MessageId) (h h' : List (Op × Reply)) :
    attempts id (h ++ h') = attempts id h ++ attempts id h' := List.flatMap_append

theorem attempts_snoc (id : MessageId) (h : List (Op × Reply)) (e : Op × Reply) :
    attempts id (h ++ [e]) = attempts id h ++ attemptsIn id e := by
  rw [attempts_append]
  unfold attempts
  rw [List.flatMap_singleton]

theorem attemptOf_about {id : MessageId} {nowMs : UInt64} {event : DeliveryEvent} {attempt : Attempt}
    (h : attemptOf id nowMs event = some attempt) : about event = some id := by
  unfold attemptOf at h
  split at h
  · split_ifs at h with hm
    simp [about, hm.1, hm.2]
  · cases h

theorem filterMap_attemptOf (id : MessageId) (nowMs : UInt64) (events : List DeliveryEvent) :
    events.filterMap (attemptOf id nowMs) = (eventsAbout id events).filterMap (attemptOf id nowMs) := by
  induction events with
  | nil => rfl
  | cons event events ih =>
    unfold eventsAbout at ih ⊢
    by_cases habout : about event = some id
    · rw [List.filter_cons_of_pos (by simpa using habout), List.filterMap_cons, List.filterMap_cons, ih]
    · have hnone : attemptOf id nowMs event = none := by
        cases hattempt : attemptOf id nowMs event with
        | none => rfl
        | some attempt => exact absurd (attemptOf_about hattempt) habout
      rw [List.filter_cons_of_neg (by simpa using habout), List.filterMap_cons_none hnone, ih]

theorem attemptsIn_of_silent {id : MessageId} {e : Op × Reply} (h : eventsAbout id e.2.events = []) :
    attemptsIn id e = [] := by
  unfold attemptsIn
  split
  · rfl
  · rw [filterMap_attemptOf, h]
    rfl

/-! ## One call -/

/-- A call on a pending delivery makes no attempt and leaves the schedule alone, or it is a `tick` that makes
the next attempt in time. -/
theorem Effect.attempts {op : Op} {reply : Reply} {id : MessageId} {m : Message} {pending : PendingDelivery}
    {after : Option PendingDelivery} {events : List DeliveryEvent}
    (h : Effect op reply id (some pending) after events) (hentry : Entry id pending)
    (hmessage : pending.message = .message m) (timeMs : UInt64) :
    (events.filterMap (attemptOf id timeMs) = [] ∧ ∀ pending', after = some pending' →
        pending'.attempts = pending.attempts ∧ pending'.nextRetryMs = pending.nextRetryMs) ∨
      ∃ nowMs, op = .tick nowMs ∧ after = some (nextAttempt nowMs pending) ∧
        events.filterMap (attemptOf id timeMs) = [⟨timeMs, pending.sender,
          (OrdSet.difference pending.recipients pending.acknowledgements).keys, pending.message⟩] ∧
        nowMs < pending.deadlineMs ∧ retryDue nowMs pending = true ∧
        ∃ initialBackoffMs maxAttempts, m.retry = .exponential initialBackoffMs maxAttempts ∧
          pending.attempts < maxAttempts := by
  generalize hbefore : some pending = before at h
  cases h with
  | untouched _ =>
    refine .inl ⟨rfl, fun pending' hafter => ?_⟩
    cases hbefore.trans hafter
    exact ⟨rfl, rfl⟩
  | passed _ _ _ _ => cases hbefore
  | inserted _ _ _ _ => cases hbefore
  | acknowledged _ _ _ _ _ _ =>
    cases hbefore
    refine .inl ⟨?_, fun pending' hafter => ?_⟩
    · split_ifs <;> rfl
    · split_ifs at hafter
      cases hafter
      exact ⟨rfl, rfl⟩
  | @answered _ request response sender _ _ hkind hid _ _ _ _ =>
    cases hbefore
    refine .inl ⟨?_, fun pending' hafter => ?_⟩
    · refine List.filterMap_eq_nil_iff.mpr fun event hmem => ?_
      obtain ⟨frame, hframe, rfl⟩ := List.mem_map.mp hmem
      obtain ⟨r, rfl, hr, -⟩ := forwarded_response hentry hkind hid (Option.mem_toList.mp hframe)
      simp [attemptOf, hr]
    · split_ifs at hafter
      cases hafter
      exact ⟨rfl, rfl⟩
  | @ticked _ nowMs hop =>
    cases hbefore
    unfold afterTick tickOutcomes tickRetries
    cases hresult : tickResult nowMs pending with
    | keep =>
      refine .inl ⟨rfl, fun pending' hafter => ?_⟩
      cases hafter
      exact ⟨rfl, rfl⟩
    | expire => exact .inl ⟨rfl, fun _ hafter => by cases hafter⟩
    | abandon => exact .inl ⟨rfl, fun _ hafter => by cases hafter⟩
    | retry updated =>
      obtain ⟨rfl, hearly, hdue, hpolicy⟩ := tickResult_retry hmessage hresult
      obtain ⟨m', hm', hid, hkind, -⟩ := hentry.message
      refine .inr ⟨nowMs, hop, rfl, ?_, hearly, hdue, hpolicy⟩
      simp [attemptOf, redelivery, hm', hid, hkind]
  | recipientLost _ _ => exact .inl ⟨rfl, fun _ hafter => by cases hafter⟩

/-- `Effect.attempts` for the calls of the broker. -/
theorem exec_attempts {P : Type} [Policy P] {broker : Broker P} (hentries : Entries broker) {id : MessageId}
    {m : Message} {pending : PendingDelivery} (hget : broker.deliveries.get? id = some pending)
    (hmessage : pending.message = .message m) (op : Op) :
    (attemptsIn id (op, (exec broker op).2) = [] ∧
        ∀ pending', (exec broker op).1.deliveries.get? id = some pending' →
          pending'.attempts = pending.attempts ∧ pending'.nextRetryMs = pending.nextRetryMs) ∨
      ∃ nowMs, op = .tick nowMs ∧
        (exec broker op).1.deliveries.get? id = some (nextAttempt nowMs pending) ∧
        attemptsIn id (op, (exec broker op).2) = [⟨nowMs, pending.sender,
          (OrdSet.difference pending.recipients pending.acknowledgements).keys, pending.message⟩] ∧
        nowMs < pending.deadlineMs ∧ retryDue nowMs pending = true ∧
        ∃ initialBackoffMs maxAttempts, m.retry = .exponential initialBackoffMs maxAttempts ∧
          pending.attempts < maxAttempts := by
  have heffect := exec_effect hentries op id
  rw [hget] at heffect
  have hmade : ∀ nowMs, op.clock = some nowMs → attemptsIn id (op, (exec broker op).2) =
      (eventsAbout id (exec broker op).2.events).filterMap (attemptOf id nowMs) := by
    intro nowMs hclock
    rw [← filterMap_attemptOf]
    simp only [attemptsIn, hclock]
  rcases heffect.attempts (hentries id pending hget) hmessage (op.clock.getD 0) with
    ⟨hnone, hsame⟩ | ⟨nowMs, rfl, hafter, hone, hrest⟩
  · refine .inl ⟨?_, hsame⟩
    cases hclock : op.clock with
    | none => simp only [attemptsIn, hclock]
    | some nowMs =>
      rw [hclock] at hnone
      exact (hmade nowMs hclock).trans hnone
  · exact .inr ⟨nowMs, rfl, hafter, (hmade nowMs rfl).trans hone, hrest⟩

/-- The call that begins a delivery makes its first attempt. -/
theorem attemptsIn_begun {sender : PeerId} {m : Message} {recipients : OrdSet PeerId} {nowMs : UInt64}
    (hkind : m.kind ≠ .response) :
    attemptsIn m.messageId (.beginDelivery sender (.message m) nowMs,
      .delivery (.ok (acceptedEvents sender m recipients))) =
        [⟨nowMs, sender, recipients.keys, .message m⟩] := by
  have hfirst : attemptOf m.messageId nowMs (.deliver sender recipients.keys (.message m)) =
      some ⟨nowMs, sender, recipients.keys, .message m⟩ := by simp [attemptOf, hkind]
  change (acceptedEvents sender m recipients).filterMap (attemptOf m.messageId nowMs) = _
  unfold acceptedEvents
  rw [List.filterMap_cons_some hfirst]
  split_ifs <;> rfl

/-! ## The delay between attempts -/

theorem retryDue_iff {nowMs : UInt64} {pending : PendingDelivery} :
    retryDue nowMs pending = true ↔ ∃ nextMs, pending.nextRetryMs = some nextMs ∧ nextMs ≤ nowMs := by
  unfold retryDue
  cases pending.nextRetryMs <;> simp

/-- The clamp of the shift does not show: from the seventeenth attempt on the cap applies either way. -/
theorem min_backoff_clamp (backoff exponent : Nat) :
    min (backoff * 2 ^ min exponent 16) 60000 = min (backoff * 2 ^ exponent) 60000 := by
  rcases Nat.eq_zero_or_pos backoff with rfl | hpos
  · simp
  by_cases hle : exponent ≤ 16
  · rw [min_eq_left hle]
  have hbig : 2 ^ 16 ≤ 2 ^ exponent := Nat.pow_le_pow_right (by omega) (by omega)
  have hclamped : 2 ^ 16 ≤ backoff * 2 ^ 16 := Nat.le_mul_of_pos_left _ hpos
  have hplain : 2 ^ exponent ≤ backoff * 2 ^ exponent := Nat.le_mul_of_pos_left _ hpos
  rw [min_eq_right (by omega : 16 ≤ exponent)]
  omega

/-- The delay of the source, without its saturation. -/
theorem toNat_delay (initialBackoffMs : UInt32) (exponent : Nat) :
    (min (saturatingMul initialBackoffMs.toUInt64 (UInt64.ofNat (2 ^ min exponent 16))) 60000 : UInt64).toNat =
      min (initialBackoffMs.toNat * 2 ^ exponent) 60000 := by
  have hshift : 2 ^ min exponent 16 ≤ 2 ^ 16 := Nat.pow_le_pow_right (by omega) (by omega)
  have hbackoff : initialBackoffMs.toNat < 2 ^ 32 := initialBackoffMs.toNat_lt
  have hpower : (UInt64.ofNat (2 ^ min exponent 16)).toNat = 2 ^ min exponent 16 :=
    UInt64.toNat_ofNat_of_lt' (lt_of_le_of_lt hshift (by decide))
  have hproduct : initialBackoffMs.toNat * 2 ^ min exponent 16 < 2 ^ 64 - 1 := by
    have hle := Nat.mul_le_mul (Nat.le_of_lt hbackoff) hshift
    omega
  have hmul : (saturatingMul initialBackoffMs.toUInt64 (UInt64.ofNat (2 ^ min exponent 16))).toNat =
      initialBackoffMs.toNat * 2 ^ min exponent 16 := by
    rw [toNat_saturatingMul, hpower, UInt32.toNat_toUInt64]
    omega
  rw [← min_backoff_clamp]
  have hmin : ∀ a b : UInt64, (min a b).toNat = min a.toNat b.toNat := by
    intro a b
    rcases le_total a b with hab | hab
    · rw [min_eq_left hab, min_eq_left (UInt64.le_iff_toNat_le.mp hab)]
    · rw [min_eq_right hab, min_eq_right (UInt64.le_iff_toNat_le.mp hab)]
  rw [hmin, hmul]
  rfl

/-- An attempt that is due before the deadline comes after the whole delay since the attempt before. The sum
does not saturate, since nothing is before a deadline at the end of the clock. -/
theorem retryNext_gap {initialBackoffMs : UInt32} {maxAttempts attempts : UInt8} {lastMs nextMs nowMs deadlineMs : UInt64}
    (hnext : retryNext (.exponential initialBackoffMs maxAttempts) lastMs attempts = some nextMs)
    (hmore : attempts < maxAttempts) (hdue : nextMs ≤ nowMs) (hearly : nowMs < deadlineMs) :
    lastMs.toNat + min (initialBackoffMs.toNat * 2 ^ (attempts.toNat - 1)) 60000 ≤ nowMs.toNat := by
  simp only [retryNext, if_neg (not_le.mpr hmore)] at hnext
  have hsum := congrArg UInt64.toNat (Option.some.inj hnext)
  rw [toNat_saturatingAdd, toNat_delay] at hsum
  have hle : nextMs.toNat ≤ nowMs.toNat := UInt64.le_iff_toNat_le.mp hdue
  have hlt : nowMs.toNat < deadlineMs.toNat := UInt64.lt_iff_toNat_lt.mp hearly
  have hmax : deadlineMs.toNat < 2 ^ 64 := deadlineMs.toNat_lt
  omega

/-! ## Runs -/

/-- Consecutive attempts are apart by the delay of the policy. -/
def Spaced (retry : RetryPolicy) (made : List Attempt) : Prop :=
  ∀ initialBackoffMs maxAttempts, retry = .exponential initialBackoffMs maxAttempts →
    ∀ k a a', made[k]? = some a → made[k + 1]? = some a' →
      a.timeMs.toNat + min (initialBackoffMs.toNat * 2 ^ k) 60000 ≤ a'.timeMs.toNat

theorem Spaced.snoc {retry : RetryPolicy} {made : List Attempt} (h : Spaced retry made) {last next : Attempt}
    (hlast : made.getLast? = some last)
    (hgap : ∀ initialBackoffMs maxAttempts, retry = .exponential initialBackoffMs maxAttempts →
      last.timeMs.toNat + min (initialBackoffMs.toNat * 2 ^ (made.length - 1)) 60000 ≤ next.timeMs.toNat) :
    Spaced retry (made ++ [next]) := by
  intro initialBackoffMs maxAttempts hretry k a a' ha ha'
  have hlength : k + 1 < (made ++ [next]).length := (List.getElem?_eq_some_iff.mp ha').1
  rw [List.length_append, List.length_singleton] at hlength
  rw [List.getElem?_append_left (by omega)] at ha
  by_cases hk : k + 1 < made.length
  · rw [List.getElem?_append_left hk] at ha'
    exact h initialBackoffMs maxAttempts hretry k a a' ha ha'
  · have hend : k = made.length - 1 := by omega
    rw [List.getElem?_append_right (by omega), show k + 1 - made.length = 0 by omega] at ha'
    obtain rfl : next = a' := Option.some.inj ha'
    rw [List.getLast?_eq_getElem?, ← hend, ha] at hlast
    obtain rfl : a = last := Option.some.inj hlast
    rw [hend]
    exact hgap initialBackoffMs maxAttempts hretry

/-- Every attempt of the history goes to selected recipients that did not acknowledge before. -/
def Outstanding (id : MessageId) (selected : OrdSet PeerId) (history : List (Op × Reply)) : Prop :=
  ∀ earlier e later, history = earlier ++ e :: later → ∀ a ∈ attemptsIn id e, ∀ peer ∈ a.recipients,
    selected.contains peer = true ∧ ∀ e' ∈ earlier, ∀ policy, ¬ Acks id peer policy e'

/-- How the entry records the attempts made since `first`. -/
structure Tried (id : MessageId) (m : Message) (begun : PendingDelivery) (first : Attempt)
    (history : List (Op × Reply)) (pending : PendingDelivery) : Prop where
  same : SameDelivery begun pending
  deadline : pending.deadlineMs = begun.deadlineMs
  count : (first :: attempts id history).length = pending.attempts.toNat
  once : m.retry = .none → attempts id history = []
  schedule : Schedule m pending
  next : ∃ last, (first :: attempts id history).getLast? = some last ∧
    pending.nextRetryMs = retryNext m.retry last.timeMs pending.attempts
  each : ∀ a ∈ first :: attempts id history, a.sender = begun.sender ∧ a.message = begun.message ∧
    a.timeMs < begun.deadlineMs
  spaced : Spaced m.retry (first :: attempts id history)
  acked : ∀ e ∈ history, ∀ peer policy, Acks id peer policy e → pending.acknowledgements.contains peer = true
  outstanding : Outstanding id begun.recipients history

theorem Kept.deadlineMs {m : Message} {pending pending' : PendingDelivery} (h : Kept m pending pending') :
    pending'.deadlineMs = pending.deadlineMs := by
  cases h <;> rfl

theorem Tried.acked_snoc {id : MessageId} {m : Message} {begun : PendingDelivery} {first : Attempt}
    {history : List (Op × Reply)} {pending pending' : PendingDelivery} {op : Op} {reply : Reply}
    {events : List DeliveryEvent} (h : Tried id m begun first history pending)
    (hmessage : pending.message = .message m)
    (heffect : Effect op reply id (some pending) (some pending') events) :
    ∀ e ∈ history ++ [(op, reply)], ∀ peer policy, Acks id peer policy e →
      pending'.acknowledgements.contains peer = true := by
  intro e hmem peer policy hack
  by_cases hacks : ∃ peer policy, Acks id peer policy (op, reply)
  · obtain ⟨acker, stage, hnew⟩ := hacks
    obtain ⟨-, -, hafter⟩ := heffect.of_acks hmessage hnew
    rw [hafter pending' rfl]
    refine OrdSet.contains_add.mpr ?_
    rcases List.mem_append.mp hmem with hmem | hmem
    · exact .inr (h.acked e hmem peer policy hack)
    · rw [List.mem_singleton.mp hmem] at hack
      cases hack.1.symm.trans hnew.1
      exact .inl rfl
  · have hno : ∀ peer policy, ¬ Acks id peer policy (op, reply) :=
      fun peer policy hack => hacks ⟨peer, policy, hack⟩
    rw [(heffect.of_not_acks hno).1]
    rcases List.mem_append.mp hmem with hmem | hmem
    · exact h.acked e hmem peer policy hack
    · rw [List.mem_singleton.mp hmem] at hack
      exact absurd hack (hno peer policy)

variable {P : Type} {broker : Broker P}

theorem Tried.new {sender : PeerId} {m : Message} {selected : OrdSet PeerId} {nowMs deadlineMs : UInt64}
    {priority : UInt8} (hvalid : m.Valid) (hretained : Retained broker sender m selected nowMs deadlineMs) :
    Tried m.messageId m (newPending sender m selected deadlineMs nowMs priority)
      ⟨nowMs, sender, selected.keys, .message m⟩ [] (newPending sender m selected deadlineMs nowMs priority) where
  same := .refl _
  deadline := rfl
  count := rfl
  once _ := rfl
  schedule := .new hvalid
  next := ⟨_, rfl, rfl⟩
  each a hmem := by
    obtain rfl := List.mem_singleton.mp hmem
    refine ⟨rfl, rfl, ?_⟩
    have hlater : nowMs.toNat < deadlineMs.toNat := by
      have htracked := hretained.tracked
      have hnonzero : m.deadlineMs ≠ 0 := hvalid.deadline (by simpa [isTracked] using htracked)
      have hpositive : m.deadlineMs.toNat ≠ 0 := fun h => hnonzero (UInt32.toNat_inj.mp h)
      have hsum := checkedAdd_eq_some hretained.deadline
      rw [UInt32.toNat_toUInt64] at hsum
      omega
    exact UInt64.lt_iff_toNat_lt.mpr hlater
  spaced _ _ _ k _ _ _ hnext := by
    have hlength := (List.getElem?_eq_some_iff.mp hnext).1
    simp [attempts] at hlength
  acked e hmem := absurd hmem List.not_mem_nil
  outstanding earlier e later heq := by simp at heq

theorem Tried.idle {id : MessageId} {m : Message} {begun pending pending' : PendingDelivery} {first : Attempt}
    {history : List (Op × Reply)} (h : Tried id m begun first history pending) {op : Op} {reply : Reply}
    {events : List DeliveryEvent} (hmessage : pending.message = .message m)
    (heffect : Effect op reply id (some pending) (some pending') events)
    (hnone : attemptsIn id (op, reply) = [])
    (hstays : pending'.attempts = pending.attempts ∧ pending'.nextRetryMs = pending.nextRetryMs) :
    Tried id m begun first (history ++ [(op, reply)]) pending' := by
  have hkept := heffect.kept hmessage
  have hmade : attempts id (history ++ [(op, reply)]) = attempts id history := by
    rw [attempts_snoc, hnone, List.append_nil]
  constructor
  case same => exact h.same.trans heffect.sameDelivery
  case deadline => exact hkept.deadlineMs.trans h.deadline
  case schedule => exact h.schedule.kept hmessage hkept
  case acked => exact h.acked_snoc hmessage heffect
  case outstanding =>
    refine forall_step_snoc.mpr ⟨h.outstanding, fun a hmem => ?_⟩
    rw [hnone] at hmem
    cases hmem
  -- the rest speaks about the attempts made and the schedule, which are as before
  case count => rw [hmade, hstays.1, h.count]
  case next =>
    rw [hmade, hstays.1, hstays.2]
    exact h.next
  all_goals rw [hmade]
  case once => exact h.once
  case each => exact h.each
  case spaced => exact h.spaced

theorem Tried.retry {id : MessageId} {m : Message} {begun pending : PendingDelivery} {first : Attempt}
    {history : List (Op × Reply)} (h : Tried id m begun first history pending) {nowMs : UInt64} {reply : Reply}
    {events : List DeliveryEvent} {initialBackoffMs : UInt32} {maxAttempts : UInt8}
    (hmessage : pending.message = .message m)
    (heffect : Effect (.tick nowMs) reply id (some pending) (some (nextAttempt nowMs pending)) events)
    (hone : attemptsIn id (.tick nowMs, reply) = [⟨nowMs, pending.sender,
      (OrdSet.difference pending.recipients pending.acknowledgements).keys, pending.message⟩])
    (hearly : nowMs < pending.deadlineMs) (hdue : retryDue nowMs pending = true)
    (hretry : m.retry = .exponential initialBackoffMs maxAttempts) (hmore : pending.attempts < maxAttempts) :
    Tried id m begun first (history ++ [(.tick nowMs, reply)]) (nextAttempt nowMs pending) := by
  have hkept := heffect.kept hmessage
  have hmade := attempts_snoc id history (.tick nowMs, reply)
  rw [hone] at hmade
  obtain ⟨last, hlast, hnext⟩ := h.next
  constructor
  case same => exact h.same.trans heffect.sameDelivery
  case deadline => exact hkept.deadlineMs.trans h.deadline
  case schedule => exact h.schedule.kept hmessage hkept
  case acked => exact h.acked_snoc hmessage heffect
  case count =>
    have hcount := h.count
    rw [List.length_cons] at hcount
    rw [hmade, nextAttempt_attempts hmore, List.length_cons, List.length_append, List.length_singleton]
    omega
  case once =>
    intro hno
    rw [hretry] at hno
    cases hno
  case next =>
    refine ⟨_, by rw [hmade, ← List.cons_append, List.getLast?_concat], ?_⟩
    change retryNext (frameRetry pending.message) nowMs (pending.attempts + 1) = _
    rw [hmessage]
    rfl
  case each =>
    intro a hmem
    rw [hmade, ← List.cons_append, List.mem_append, List.mem_singleton] at hmem
    rcases hmem with hmem | rfl
    · exact h.each a hmem
    · exact ⟨h.same.sender, h.same.message, h.deadline ▸ hearly⟩
  case spaced =>
    rw [hmade, ← List.cons_append]
    refine h.spaced.snoc hlast fun initialBackoffMs' maxAttempts' hretry' => ?_
    obtain ⟨rfl, rfl⟩ := RetryPolicy.exponential.inj (hretry.symm.trans hretry')
    obtain ⟨nextMs, hnextMs, hle⟩ := retryDue_iff.mp hdue
    rw [hnextMs, hretry] at hnext
    rw [h.count]
    exact retryNext_gap hnext.symm hmore hle hearly
  case outstanding =>
    refine forall_step_snoc.mpr ⟨h.outstanding, fun a hmem peer hpeer => ?_⟩
    obtain rfl := List.mem_singleton.mp (hone ▸ hmem)
    obtain ⟨hselected, hsilent⟩ := OrdSet.contains_difference.mp (OrdMap.mem_keys_iff.mp hpeer)
    rw [h.same.recipients] at hselected
    refine ⟨hselected, fun e' hmem' policy hack => ?_⟩
    rw [h.acked e' hmem' peer policy hack] at hsilent
    cases hsilent

variable [Policy P]

/-- The step lemma: one call on a delivery that stays pending. -/
theorem Tried.step {id : MessageId} {m : Message} {begun pending pending' : PendingDelivery} {first : Attempt}
    {history : List (Op × Reply)} (h : Tried id m begun first history pending) (hentries : Entries broker)
    (hbegun : begun.message = .message m) (hget : broker.deliveries.get? id = some pending) {op : Op}
    (hafter : (exec broker op).1.deliveries.get? id = some pending') :
    Tried id m begun first (history ++ [(op, (exec broker op).2)]) pending' := by
  have hmessage : pending.message = .message m := h.same.message.trans hbegun
  have heffect := exec_effect hentries op id
  rw [hget, hafter] at heffect
  rcases exec_attempts hentries hget hmessage op with
    ⟨hnone, hstays⟩ | ⟨nowMs, rfl, hretried, hone, hearly, hdue, _, _, hretry, hmore⟩
  · exact h.idle hmessage heffect hnone (hstays pending' hafter)
  · obtain rfl : nextAttempt nowMs pending = pending' := Option.some.inj (hretried.symm.trans hafter)
    exact h.retry hmessage heffect hone hearly hdue hretry hmore

/-- The run lemma: as long as the delivery is pending. -/
theorem runIn_tried {id : MessageId} {m : Message} {begun : PendingDelivery} {first : Attempt} {b b' : Broker P}
    {history : List (Op × Reply)} (hrun : RunIn exec (IsPending id) b history b') (hentries : Entries b)
    (hb : b.deliveries.get? id = some begun) (hbegun : begun.message = .message m)
    (h : Tried id m begun first [] begun) :
    ∃ pending, b'.deliveries.get? id = some pending ∧ Tried id m begun first history pending := by
  induction hrun with
  | nil _ => exact ⟨begun, hb, h⟩
  | @snoc b₁ b₂ history op reply hrun hexec hpending ih =>
    obtain ⟨pending, hget, htried⟩ := ih
    obtain ⟨pending', hafter⟩ := hpending
    have hb₂ : (exec b₁ op).1 = b₂ := by rw [hexec]
    have hreply : (exec b₁ op).2 = reply := by rw [hexec]
    subst hb₂ hreply
    exact ⟨pending', hafter, htried.step (run_entries hrun.run hentries) hbegun hget hafter⟩

/-- The call that removes an entry makes no attempt. -/
theorem attemptsIn_removed (hentries : Entries broker) {id : MessageId} {m : Message} {pending : PendingDelivery}
    (hget : broker.deliveries.get? id = some pending) (hmessage : pending.message = .message m) {op : Op}
    (hgone : ¬ IsPending id (exec broker op).1) : attemptsIn id (op, (exec broker op).2) = [] := by
  rcases exec_attempts hentries hget hmessage op with ⟨hnone, -⟩ | ⟨nowMs, -, hafter, -⟩
  · exact hnone
  · exact absurd ⟨_, hafter⟩ hgone

theorem attempts_of_silent {id : MessageId} {history : List (Op × Reply)} (h : trace id history = []) :
    attempts id history = [] := by
  refine List.flatMap_eq_nil_iff.mpr fun e hmem => attemptsIn_of_silent ?_
  have hnone := List.filter_eq_nil_iff.mp h
  exact List.filter_eq_nil_iff.mpr fun event hevent => hnone event (List.mem_flatMap.mpr ⟨e, hmem, hevent⟩)

theorem Outstanding.append {id : MessageId} {selected : OrdSet PeerId} {life rest : List (Op × Reply)}
    (h : Outstanding id selected life) (hrest : attempts id rest = []) : Outstanding id selected (life ++ rest) := by
  induction rest using List.reverseRecOn with
  | nil => rwa [List.append_nil]
  | append_singleton rest e ih =>
    rw [attempts_snoc, List.append_eq_nil_iff] at hrest
    rw [← List.append_assoc]
    refine forall_step_snoc.mpr ⟨ih hrest.1, fun a hmem => ?_⟩
    rw [hrest.2] at hmem
    cases hmem

/-- From the call that begins a delivery to its end, and after it until its identifier is used again: all
attempts lie in the part of the run in which it is pending. -/
theorem run_tried {id : MessageId} {m : Message} {begun : PendingDelivery} {first : Attempt} {b b' : Broker P}
    {history : List (Op × Reply)} (hrun : Run exec b history b') (hentries : Entries b)
    (hb : b.deliveries.get? id = some begun) (hbegun : begun.message = .message m)
    (h : Tried id m begun first [] begun) (hids : ∀ e ∈ history, begins id e = false) :
    ∃ life pending, Tried id m begun first life pending ∧ attempts id history = attempts id life ∧
      Outstanding id begun.recipients history := by
  have hpending : IsPending id b := ⟨begun, hb⟩
  rcases hrun.stays_or_leaves hpending with
    hstays | ⟨life, op, reply, later, b₁, b₂, rfl, hstays, hexec, hgone, hlater⟩
  · obtain ⟨pending, -, htried⟩ := runIn_tried hstays hentries hb hbegun h
    exact ⟨history, pending, htried, rfl, htried.outstanding⟩
  · obtain ⟨pending, hget, htried⟩ := runIn_tried hstays hentries hb hbegun h
    have hentries₁ := run_entries hstays.run hentries
    have hmessage : pending.message = .message m := htried.same.message.trans hbegun
    have hb₂ : (exec b₁ op).1 = b₂ := by rw [hexec]
    have hreply : (exec b₁ op).2 = reply := by rw [hexec]
    subst hb₂ hreply
    have hremoved := attemptsIn_removed hentries₁ hget hmessage hgone
    have hsilent : trace id later = [] := by
      refine (run_absent hlater (exec_entries b₁ op hentries₁) hgone fun e hmem => ?_).2
      exact hids e (List.mem_append_right _ (List.mem_cons_of_mem _ hmem))
    have hrest : attempts id ((op, (exec b₁ op).2) :: later) = [] := by
      rw [← List.singleton_append, attempts_append, attempts_of_silent hsilent, List.append_nil]
      exact (List.flatMap_singleton _ _).trans hremoved
    refine ⟨life, pending, htried, ?_, htried.outstanding.append hrest⟩
    rw [attempts_append, hrest, List.append_nil]

/-- The attempts to deliver a message that `begin_delivery` retained: how many there are, what each carries
and to whom, that all are made before the deadline, and how far they are apart. -/
theorem retry_schedule {policy : P} {limits : Limits} {capabilities : Capabilities} {packet : List UInt8}
    {frameLimits : FrameLimits} {sender : PeerId} {m : Message} {nowMs : UInt64} {reply : Reply}
    {before history : List (Op × Reply)} {b b₁ b' : Broker P} {pending : PendingDelivery}
    (hrun : Run exec (Broker.empty policy limits capabilities) before b)
    (hpacket : Frame.decodeWithLimits packet frameLimits = .ok (.message m))
    (hexec : exec b (.beginDelivery sender (.message m) nowMs) = (b₁, reply))
    (hfresh : b.deliveries.get? m.messageId = none) (hbegun : b₁.deliveries.get? m.messageId = some pending)
    (hlater : Run exec b₁ history b') (hids : ∀ e ∈ history, begins m.messageId e = false) :
    attemptsIn m.messageId (.beginDelivery sender (.message m) nowMs, reply) =
        [⟨nowMs, sender, pending.recipients.keys, .message m⟩] ∧
      (m.retry = .none →
        (attempts m.messageId ((.beginDelivery sender (.message m) nowMs, reply) :: history)).length = 1) ∧
      (∀ initialBackoffMs maxAttempts, m.retry = .exponential initialBackoffMs maxAttempts →
        (attempts m.messageId ((.beginDelivery sender (.message m) nowMs, reply) :: history)).length ≤
          maxAttempts.toNat) ∧
      (∀ a ∈ attempts m.messageId ((.beginDelivery sender (.message m) nowMs, reply) :: history),
        a.sender = sender ∧ a.message = .message m ∧
          a.timeMs.toNat < nowMs.toNat + m.deadlineMs.toNat) ∧
      Outstanding m.messageId pending.recipients history ∧
      Spaced m.retry (attempts m.messageId ((.beginDelivery sender (.message m) nowMs, reply) :: history)) := by
  have hentries := run_entries hrun (entries_empty policy limits capabilities)
  have hb₁ : (exec b (.beginDelivery sender (.message m) nowMs)).1 = b₁ := by rw [hexec]
  have hreply : (exec b (.beginDelivery sender (.message m) nowMs)).2 = reply := by rw [hexec]
  subst hb₁ hreply
  have hentries₁ := exec_entries b (.beginDelivery sender (.message m) nowMs) hentries
  obtain ⟨_, _, _, priority, recipients, deadlineMs, hop, -, hrouted, hretained, rfl, hreply⟩ :=
    inserted_spec hentries hfresh hbegun
  cases hop
  have hfirst := @attemptsIn_begun sender m (OrdSet.ofList recipients) nowMs hrouted.kind
  rw [← hreply] at hfirst
  have hvalid := Message.valid_of_decode hpacket
  obtain ⟨life, last, htried, hsame, houtstanding⟩ :=
    run_tried hlater hentries₁ hbegun rfl (Tried.new hvalid hretained) hids
  have hmade : attempts m.messageId ((.beginDelivery sender (.message m) nowMs,
      (exec b (.beginDelivery sender (.message m) nowMs)).2) :: history) =
        ⟨nowMs, sender, (OrdSet.ofList recipients).keys, .message m⟩ :: attempts m.messageId life := by
    rw [← hsame, ← List.singleton_append, attempts_append]
    exact congrArg (· ++ attempts m.messageId history) ((List.flatMap_singleton _ _).trans hfirst)
  rw [hmade]
  refine ⟨hfirst, fun hnone => ?_, fun initialBackoffMs maxAttempts hretry => ?_, fun a hmem => ?_,
    houtstanding, htried.spaced⟩
  · rw [htried.once hnone]
    rfl
  · rw [htried.count]
    exact UInt8.le_iff_toNat_le.mp (htried.schedule.attempts initialBackoffMs maxAttempts hretry).2
  · obtain ⟨hsender, hmessage, htime⟩ := htried.each a hmem
    refine ⟨hsender, hmessage, ?_⟩
    have hdeadline := checkedAdd_eq_some hretained.deadline
    rw [UInt32.toNat_toUInt64] at hdeadline
    rw [← hdeadline]
    exact UInt64.lt_iff_toNat_lt.mp htime

def beginRetried : Op := .beginDelivery (.new 1) (.message retriedRequest) 0

def retriedBegun : Broker AllowAll × Reply := exec threeConnected.2 beginRetried

/-- The request is tried again twice, and then abandoned. -/
def retriedLater : List (Op × Reply) × Broker AllowAll :=
  run exec retriedBegun.1 [.acknowledge (.new 2) (numberedId 1) .received, .tick 10, .tick 29, .tick 30, .tick 70]

theorem retry_schedule_retriedRequest :
    (attempts (numberedId 1) ((beginRetried, retriedBegun.2) :: retriedLater.1)).map Attempt.timeMs = [0, 10, 30] ∧
      Outstanding (numberedId 1) (OrdSet.ofList [.new 2, .new 3]) retriedLater.1 ∧
      Spaced (.exponential 10 3) (attempts (numberedId 1) ((beginRetried, retriedBegun.2) :: retriedLater.1)) := by
  have hrun : Run exec (Broker.empty AllowAll.mk .default ∅) threeConnected.1 threeConnected.2 := run_spec _ _
  have hpacket : Frame.decodeWithLimits retriedRequestPacket .default = .ok (.message retriedRequest) := by
    decide +kernel
  have hfresh : threeConnected.2.deliveries.get? (numberedId 1) = none := by decide +kernel
  have hbegun : retriedBegun.1.deliveries.get? (numberedId 1) =
      some (newPending (.new 1) retriedRequest (OrdSet.ofList [.new 2, .new 3]) 1000 0 0) := by decide +kernel
  have hids : ∀ e ∈ retriedLater.1, begins (numberedId 1) e = false := by decide +kernel
  obtain ⟨-, -, -, -, houtstanding, hspaced⟩ :=
    retry_schedule hrun hpacket Prod.mk.eta.symm hfresh hbegun (run_spec _ _) hids
  exact ⟨by decide +kernel, houtstanding, hspaced⟩

end Busd.Broker
