import Busd.Broker.Retries

/-!
# The clock

`tick` goes through the retained deliveries in the order of their identifiers, and sorts the repeated deliveries by
priority at the end.

* `Clocked` : what the clock does to an entry, stated for the entry alone;
* `tick_entrywise` : `tick` does this to every entry, and what it returns is in order;
* `tick_idempotent_iff` : when a second `tick` at the same instant finds nothing to do;
* `tick_unconfirmed_iff` : when repeated deliveries go to those who have not confirmed the message.
-/

namespace Busd.Broker

open Words Machine Busd.Protocol Busd.Policy

variable {P : Type} {broker : Broker P} {nowMs : UInt64} {id : MessageId} {pending : PendingDelivery}
  {policy : P} {limits : Limits} {capabilities : Capabilities} {history : List (Op × Reply)}

/-! ## One entry -/

inductive Clocked (nowMs : UInt64) (pending : PendingDelivery) : TickResult → Prop
  | expired (hlate : pending.deadlineMs ≤ nowMs) : Clocked nowMs pending .expire
  | failed {nextMs : UInt64} {initialBackoffMs : UInt32} {maxAttempts : UInt8} (hearly : nowMs < pending.deadlineMs)
      (hnext : pending.nextRetryMs = some nextMs) (hdue : nextMs ≤ nowMs)
      (hretry : frameRetry pending.message = .exponential initialBackoffMs maxAttempts)
      (hspent : maxAttempts ≤ pending.attempts) : Clocked nowMs pending .abandon
  | retried {nextMs : UInt64} {initialBackoffMs : UInt32} {maxAttempts : UInt8} {updated : PendingDelivery}
      (hearly : nowMs < pending.deadlineMs) (hnext : pending.nextRetryMs = some nextMs) (hdue : nextMs ≤ nowMs)
      (hretry : frameRetry pending.message = .exponential initialBackoffMs maxAttempts)
      (hmore : pending.attempts < maxAttempts) (hcount : updated.attempts.toNat = pending.attempts.toNat + 1)
      (hupdated : updated = { pending with
        attempts := updated.attempts
        nextRetryMs := retryNext (.exponential initialBackoffMs maxAttempts) nowMs updated.attempts }) :
      Clocked nowMs pending (.retry updated)
  | waiting (hearly : nowMs < pending.deadlineMs)
      (hlater : ∀ nextMs, pending.nextRetryMs = some nextMs → nowMs < nextMs) : Clocked nowMs pending .keep

/-- Only an entry with a retry policy has a next attempt. -/
def Timed (pending : PendingDelivery) : Prop :=
  pending.nextRetryMs = none ↔ frameRetry pending.message = .none

theorem clocked_tickResult (htimed : Timed pending) : Clocked nowMs pending (tickResult nowMs pending) := by
  unfold tickResult
  split_ifs with hlate hdue
  · exact .expired hlate
  · refine .waiting (not_le.mp hlate) fun nextMs hnext => ?_
    by_contra hle
    have hretry := retryDue_iff.mpr ⟨nextMs, hnext, not_lt.mp hle⟩
    rw [hretry] at hdue
    cases hdue
  · obtain ⟨nextMs, hnext, hle⟩ := retryDue_iff.mp (by simpa using hdue)
    cases hretry : frameRetry pending.message with
    | none =>
      have hnone := htimed.mpr hretry
      rw [hnext] at hnone
      cases hnone
    | exponential initialBackoffMs maxAttempts =>
      dsimp only
      split_ifs with hspent
      · exact .failed (not_le.mp hlate) hnext hle hretry hspent
      · have hmore := not_le.mp hspent
        refine .retried (not_le.mp hlate) hnext hle hretry hmore (nextAttempt_attempts hmore) ?_
        unfold nextAttempt
        rw [hretry]

theorem tickResult_eq_expire_iff : tickResult nowMs pending = .expire ↔ pending.deadlineMs ≤ nowMs := by
  unfold tickResult
  split_ifs with hlate hdue
  · exact iff_of_true rfl hlate
  · exact iff_of_false (by simp) hlate
  · refine iff_of_false (fun hexpire => ?_) hlate
    cases hretry : frameRetry pending.message with
    | none => simp [hretry] at hexpire
    | exponential initialBackoffMs maxAttempts =>
      rw [hretry] at hexpire
      dsimp only at hexpire
      split_ifs at hexpire

theorem timed_of_run [Policy P] (hrun : Run exec (Broker.empty policy limits capabilities) history broker)
    (hget : broker.deliveries.get? id = some pending) : Timed pending := by
  have hall := run_kept (A := fun _ => True) (Q := fun m pending => pending.nextRetryMs = none ↔ m.retry = .none)
    ?_ ?_ hrun (fun _ _ => trivial) hget
  · obtain ⟨m, hmessage, -, htimed⟩ := hall
    unfold Timed
    rw [hmessage]
    exact htimed
  · intro b sender m recipients nowMs deadlineMs priority _ _ _
    exact retryNext_eq_none_iff
  · intro m pending pending' hmessage htimed hkept
    cases hkept with
    | same => exact htimed
    | acknowledged _ _ _ => exact htimed
    | answered _ _ _ => exact htimed
    | retried _ _ _ _ =>
      unfold nextAttempt
      rw [hmessage]
      exact retryNext_eq_none_iff

theorem responseState_of_run [Policy P] (hrun : Run exec (Broker.empty policy limits capabilities) history broker)
    (hget : broker.deliveries.get? id = some pending) :
    ∃ m, pending.message = .message m ∧ m.messageId = id ∧ ResponseState m pending := by
  refine run_kept (A := fun _ => True) (Q := ResponseState) ?_ ?_ hrun (fun _ _ => trivial) hget
  · intro b sender m recipients nowMs deadlineMs priority _ _ hretained
    exact .new (OrdMap.isEmpty_eq_false_iff.mp hretained.nonempty).ne'
  · exact fun m pending pending' _ hresponses hkept => hresponses.kept hkept

/-! ## The loop -/

/-- What each move preserves, the loop preserves. -/
theorem tickLoop_invariant {I : TickState P → Prop}
    (hmove : ∀ state id pending result, I state → I (TickState.move state id pending result))
    (ids : List MessageId) {state : TickState P} (h : I state) : I (ids.foldl (tickStep nowMs) state) := by
  induction ids generalizing state with
  | nil => exact h
  | cons id ids ih =>
    refine ih ?_
    rw [tickStep_eq]
    cases state.broker.deliveries.get? id with
    | none => exact h
    | some pending => exact hmove state id pending _ h

def isTimeout : DeliveryEvent → Bool
  | .result _ _ .timeout => true
  | _ => false

def isDeliver : DeliveryEvent → Bool
  | .deliver .. => true
  | .result .. => false

/-- The counters say how many events there are; they and the monitor are all that changes besides the entries. -/
structure Counted (start : Broker P) (state : TickState P) : Prop where
  lifecycle : state.broker.events = start.events
  messagesRouted : state.broker.metrics.messagesRouted = start.metrics.messagesRouted
  bytesRouted : state.broker.metrics.bytesRouted = start.metrics.bytesRouted
  droppedSignals : state.broker.metrics.droppedSignals = start.metrics.droppedSignals
  timeouts : state.broker.metrics.timeouts.toNat =
    min (start.metrics.timeouts.toNat + state.events.countP isTimeout) (2 ^ 64 - 1)
  retries : state.broker.metrics.retries.toNat =
    min (start.metrics.retries.toNat + state.retries.length) (2 ^ 64 - 1)
  results : ∀ event ∈ state.events, isDeliver event = false
  delivers : ∀ e ∈ state.retries, isDeliver e.2 = true ∧ isTimeout e.2 = false

theorem Counted.move {start : Broker P} {state : TickState P} (h : Counted start state) (id : MessageId)
    (pending : PendingDelivery) (result : TickResult) : Counted start (state.move id pending result) := by
  have hresult : ∀ outcome, ∀ event ∈ state.events ++ [.result pending.sender id outcome], isDeliver event = false :=
    fun outcome => List.forall_mem_append.mpr ⟨h.results, List.forall_mem_singleton.mpr rfl⟩
  have hone : ∀ counter : UInt64, (saturatingAdd counter 1).toNat = min (counter.toNat + 1) (2 ^ 64 - 1) :=
    fun counter => toNat_saturatingAdd counter 1
  cases result with
  | keep => exact h
  | expire =>
    refine { h with timeouts := ?_, results := hresult _ }
    have hcount : (state.events ++ [DeliveryEvent.result pending.sender id .timeout]).countP isTimeout =
        state.events.countP isTimeout + 1 := by
      rw [List.countP_append]
      rfl
    show (saturatingAdd state.broker.metrics.timeouts 1).toNat =
      min (start.metrics.timeouts.toNat + (state.events ++ [_]).countP isTimeout) _
    rw [hone, h.timeouts, hcount]
    omega
  | abandon =>
    refine { h with timeouts := ?_, results := hresult _ }
    show state.broker.metrics.timeouts.toNat =
      min (start.metrics.timeouts.toNat + (state.events ++ [_]).countP isTimeout) _
    rw [h.timeouts, List.countP_append]
    rfl
  | retry updated =>
    refine { h with retries := ?_, delivers := ?_ }
    · show (saturatingAdd state.broker.metrics.retries 1).toNat =
        min (start.metrics.retries.toNat + (state.retries ++ [_]).length) _
      rw [hone, h.retries, List.length_append, List.length_singleton]
      omega
    · exact List.forall_mem_append.mpr ⟨h.delivers, List.forall_mem_singleton.mpr ⟨rfl, rfl⟩⟩

theorem tick_counted (broker : Broker P) (nowMs : UInt64) :
    Counted broker (broker.deliveries.keys.foldl (tickStep nowMs) ⟨broker, [], []⟩) := by
  refine tickLoop_invariant (I := Counted broker) (fun state id pending result h => h.move id pending result) _ ?_
  have htimeouts := broker.metrics.timeouts.toNat_lt
  have hretries := broker.metrics.retries.toNat_lt
  refine ⟨rfl, rfl, rfl, rfl, ?_, ?_, fun _ hmem => (List.not_mem_nil hmem).elim,
    fun _ hmem => (List.not_mem_nil hmem).elim⟩
  · show broker.metrics.timeouts.toNat = min (broker.metrics.timeouts.toNat + 0) _
    omega
  · show broker.metrics.retries.toNat = min (broker.metrics.retries.toNat + 0) _
    omega

/-! ## The order of the events -/

def isRemoved (nowMs : UInt64) (entry : MessageId × PendingDelivery) : Bool :=
  (afterTick nowMs entry.2).isNone

def isRepeated (nowMs : UInt64) (entry : MessageId × PendingDelivery) : Bool :=
  match tickResult nowMs entry.2 with
  | .retry _ => true
  | .keep | .expire | .abandon => false

/-- The entries that `tick` removes, in the order of their identifiers. -/
def removedEntries (broker : Broker P) (nowMs : UInt64) : List (MessageId × PendingDelivery) :=
  broker.deliveries.entries.filter (isRemoved nowMs)

/-- The entries that `tick` delivers again, by priority. -/
def repeatedEntries (broker : Broker P) (nowMs : UInt64) : List (MessageId × PendingDelivery) :=
  (broker.deliveries.entries.filter (isRepeated nowMs)).insertionSort fun a b => b.2.priority ≤ a.2.priority

def removal (nowMs : UInt64) (entry : MessageId × PendingDelivery) : DeliveryEvent :=
  .result entry.2.sender entry.1 (if entry.2.deadlineMs ≤ nowMs then .timeout else .deliveryFailed)

theorem tickOutcomes_eq_removal {e : MessageId × PendingDelivery} (h : isRemoved nowMs e = true) :
    tickOutcomes nowMs e.1 e.2 = [removal nowMs e] := by
  unfold isRemoved afterTick at h
  unfold tickOutcomes removal
  cases hresult : tickResult nowMs e.2 with
  | keep => simp [hresult] at h
  | retry updated => simp [hresult] at h
  | expire => rw [if_pos (tickResult_eq_expire_iff.mp hresult)]
  | abandon =>
    rw [if_neg fun hlate => ?_]
    rw [tickResult_eq_expire_iff.mpr hlate] at hresult
    cases hresult

theorem tick_events_eq (broker : Broker P) (nowMs : UInt64) :
    (broker.tick nowMs).2 = (removedEntries broker nowMs).map (removal nowMs) ++
      (repeatedEntries broker nowMs).map fun e => redelivery e.2 := by
  obtain ⟨-, -, hevents, hretries⟩ :=
    tickLoop_spec nowMs broker.deliveries.keys broker.deliveries.nodup_keys ⟨broker, [], []⟩
  have hremoved : (broker.deliveries.entries.flatMap fun e => tickOutcomes nowMs e.1 e.2) =
      (removedEntries broker nowMs).map (removal nowMs) := by
    refine List.flatMap_eq_map_filter (fun e he => tickOutcomes_eq_removal he) (fun e he => ?_) _
    unfold isRemoved afterTick at he
    unfold tickOutcomes
    cases hresult : tickResult nowMs e.2 <;> simp [hresult] at he ⊢
  have hrepeated : (broker.deliveries.entries.flatMap fun e => tickRetries nowMs e.2) =
      (broker.deliveries.entries.filter (isRepeated nowMs)).map fun e => (e.2.priority, redelivery e.2) := by
    refine List.flatMap_eq_map_filter (fun e he => ?_) (fun e he => ?_) _ <;>
    · unfold isRepeated at he
      unfold tickRetries
      cases hresult : tickResult nowMs e.2 <;> simp [hresult] at he ⊢
  have hsort : (sortRetries ((broker.deliveries.entries.filter (isRepeated nowMs)).map
      fun e => (e.2.priority, redelivery e.2))).map Prod.snd =
      (repeatedEntries broker nowMs).map fun e => redelivery e.2 := by
    unfold sortRetries repeatedEntries
    rw [← List.map_insertionSort (fun a b : MessageId × PendingDelivery => b.2.priority ≤ a.2.priority) _ _ _
      fun _ _ _ _ => Iff.rfl, List.map_map]
    rfl
  change _ ++ _ = _
  rw [hevents, hretries, List.nil_append, List.nil_append, OrdMap.flatMap_keys broker.deliveries (tickOutcomes nowMs),
    OrdMap.flatMap_keys broker.deliveries fun _ => tickRetries nowMs, hremoved, hrepeated, hsort]

theorem mem_removedEntries {e : MessageId × PendingDelivery} : e ∈ removedEntries broker nowMs ↔
    broker.deliveries.get? e.1 = some e.2 ∧ afterTick nowMs e.2 = none := by
  unfold removedEntries isRemoved
  rw [List.mem_filter, Option.isNone_iff_eq_none, ← OrdMap.mem_entries_iff]

theorem mem_repeatedEntries {e : MessageId × PendingDelivery} : e ∈ repeatedEntries broker nowMs ↔
    broker.deliveries.get? e.1 = some e.2 ∧ isRepeated nowMs e = true := by
  unfold repeatedEntries
  rw [List.mem_insertionSort, List.mem_filter, ← OrdMap.mem_entries_iff]

theorem removedEntries_sorted (broker : Broker P) (nowMs : UInt64) :
    (removedEntries broker nowMs).Pairwise fun a b => a.1 < b.1 :=
  broker.deliveries.sorted.filter _

theorem repeatedEntries_sorted (broker : Broker P) (nowMs : UInt64) :
    (repeatedEntries broker nowMs).Pairwise fun a b =>
      b.2.priority ≤ a.2.priority ∧ (a.2.priority = b.2.priority → a.1 < b.1) := by
  have htotal : Std.Total fun a b : MessageId × PendingDelivery => b.2.priority ≤ a.2.priority :=
    ⟨fun a b => le_total b.2.priority a.2.priority⟩
  have htrans : IsTrans (MessageId × PendingDelivery) fun a b => b.2.priority ≤ a.2.priority :=
    ⟨fun a b c hab hbc => le_trans hbc hab⟩
  refine (List.pairwise_insertionSort_stable (broker.deliveries.sorted.filter _)).imp fun h => ?_
  exact ⟨h.1, fun heq => h.2 (le_of_eq heq)⟩

theorem nodup_removed_repeated (broker : Broker P) (nowMs : UInt64) :
    ((removedEntries broker nowMs ++ repeatedEntries broker nowMs).map Prod.fst).Nodup := by
  have hsame : ∀ e ∈ removedEntries broker nowMs ++ repeatedEntries broker nowMs,
      broker.deliveries.get? e.1 = some e.2 := by
    intro e he
    rcases List.mem_append.mp he with he | he
    · exact (mem_removedEntries.mp he).1
    · exact (mem_repeatedEntries.mp he).1
  refine List.Nodup.map_on (fun e he e' he' heq => ?_) (List.nodup_append'.mpr ⟨?_, ?_, ?_⟩)
  · have hvalue := (hsame e he).symm.trans ((congrArg broker.deliveries.get? heq).trans (hsame e' he'))
    exact Prod.ext heq (Option.some.inj hvalue)
  · exact broker.deliveries.nodup_entries.filter _
  · exact (List.perm_insertionSort _ _).nodup_iff.mpr (broker.deliveries.nodup_entries.filter _)
  · intro e he he'
    have hremoved := (mem_removedEntries.mp he).2
    have hrepeated := (mem_repeatedEntries.mp he').2
    unfold afterTick at hremoved
    unfold isRepeated at hrepeated
    cases hresult : tickResult nowMs e.2 <;> simp [hresult] at hremoved hrepeated

/-! ## The whole clock -/

/-- What `tick` does to the entries of `broker`, and the order of the events it returns. -/
structure Entrywise (nowMs : UInt64) (broker after : Broker P) (events : List DeliveryEvent)
    (removed repeated : List (MessageId × PendingDelivery)) : Prop where
  clocked : ∀ id pending, broker.deliveries.get? id = some pending →
    Clocked nowMs pending (tickResult nowMs pending)
  entries : ∀ id, after.deliveries.get? id = (broker.deliveries.get? id).bind (afterTick nowMs)
  registry : SameRegistry broker after
  lifecycle : after.events = broker.events
  ended : ∀ e, e ∈ removed ↔ broker.deliveries.get? e.1 = some e.2 ∧ afterTick nowMs e.2 = none
  again : ∀ e, e ∈ repeated ↔ broker.deliveries.get? e.1 = some e.2 ∧
    ∃ updated, tickResult nowMs e.2 = .retry updated
  ordered : removed.Pairwise fun a b => a.1 < b.1
  prioritized : repeated.Pairwise fun a b =>
    b.2.priority ≤ a.2.priority ∧ (a.2.priority = b.2.priority → a.1 < b.1)
  returned : events = removed.map (removal nowMs) ++ repeated.map fun e => redelivery e.2
  once : (events.map about).Nodup
  metrics : after.metrics = { broker.metrics with
    timeouts := after.metrics.timeouts, retries := after.metrics.retries }
  timeouts : after.metrics.timeouts.toNat =
    min (broker.metrics.timeouts.toNat + events.countP isTimeout) (2 ^ 64 - 1)
  retries : after.metrics.retries.toNat =
    min (broker.metrics.retries.toNat + events.countP isDeliver) (2 ^ 64 - 1)

theorem isRepeated_iff {e : MessageId × PendingDelivery} :
    isRepeated nowMs e = true ↔ ∃ updated, tickResult nowMs e.2 = .retry updated := by
  unfold isRepeated
  cases tickResult nowMs e.2 <;> simp

theorem about_redelivery (hentry : Entry id pending) : about (redelivery pending) = some id := by
  obtain ⟨m, hmessage, hid, hkind, -⟩ := hentry.message
  unfold redelivery about
  rw [hmessage]
  dsimp only
  rw [if_neg hkind, hid]

theorem nodup_about_tick (hentries : Entries broker) (nowMs : UInt64) :
    (((broker.tick nowMs).2).map about).Nodup := by
  have habout : (broker.tick nowMs).2.map about =
      ((removedEntries broker nowMs ++ repeatedEntries broker nowMs).map Prod.fst).map some := by
    rw [tick_events_eq, List.map_append, List.map_append, List.map_append, List.map_map, List.map_map, List.map_map,
      List.map_map]
    congr 1
    refine List.map_congr_left fun e he => ?_
    exact about_redelivery (hentries e.1 e.2 (mem_repeatedEntries.mp he).1)
  rw [habout]
  exact (nodup_removed_repeated broker nowMs).map (Option.some_injective _)

theorem countP_isTimeout_tick (broker : Broker P) (nowMs : UInt64) : (broker.tick nowMs).2.countP isTimeout =
    (broker.deliveries.keys.foldl (tickStep nowMs) ⟨broker, [], []⟩).events.countP isTimeout := by
  have hcounted := tick_counted broker nowMs
  unfold tick
  refine (List.countP_append ..).trans (Nat.add_eq_left.mpr (List.countP_eq_zero.mpr fun event hevent => ?_))
  obtain ⟨e, he, rfl⟩ := List.mem_map.mp hevent
  rw [(hcounted.delivers e ((List.mem_insertionSort _).mp he)).2]
  exact Bool.false_ne_true

theorem countP_isDeliver_tick (broker : Broker P) (nowMs : UInt64) : (broker.tick nowMs).2.countP isDeliver =
    (broker.deliveries.keys.foldl (tickStep nowMs) ⟨broker, [], []⟩).retries.length := by
  have hcounted := tick_counted broker nowMs
  unfold tick
  rw [List.countP_append, List.countP_eq_zero.mpr, Nat.zero_add, List.countP_eq_length.mpr, List.length_map]
  · exact List.length_insertionSort _ _
  · intro event hevent
    obtain ⟨e, he, rfl⟩ := List.mem_map.mp hevent
    exact (hcounted.delivers e ((List.mem_insertionSort _).mp he)).1
  · intro event hevent
    rw [hcounted.results event hevent]
    exact Bool.false_ne_true

/-- `tick` treats every entry by itself, and orders the events. A delivery fails when its attempts are used up: `tick`
compares with `≥`, which for decoded messages is an equality. -/
theorem tick_entrywise [Policy P] (hrun : Run exec (Broker.empty policy limits capabilities) history broker)
    (nowMs : UInt64) :
    (∃ removed repeated, Entrywise nowMs broker (broker.tick nowMs).1 (broker.tick nowMs).2 removed repeated) ∧
      ((∀ e ∈ history, Op.Decoded e.1) → ∀ id pending initialBackoffMs maxAttempts,
        broker.deliveries.get? id = some pending →
        frameRetry pending.message = .exponential initialBackoffMs maxAttempts →
        (maxAttempts ≤ pending.attempts ↔ pending.attempts = maxAttempts)) := by
  have hentries := run_entries hrun (entries_empty policy limits capabilities)
  have hcounted := tick_counted broker nowMs
  refine ⟨⟨removedEntries broker nowMs, repeatedEntries broker nowMs, ?_⟩, ?_⟩
  · exact {
      clocked := fun id pending hget => clocked_tickResult (timed_of_run hrun hget)
      entries := tick_deliveries broker nowMs
      registry := tick_sameRegistry broker nowMs
      lifecycle := hcounted.lifecycle
      ended := fun e => mem_removedEntries
      again := fun e => mem_repeatedEntries.trans (and_congr_right' isRepeated_iff)
      ordered := removedEntries_sorted broker nowMs
      prioritized := repeatedEntries_sorted broker nowMs
      returned := tick_events_eq broker nowMs
      once := nodup_about_tick hentries nowMs
      metrics := by
        dsimp only
        rw [← hcounted.messagesRouted, ← hcounted.bytesRouted, ← hcounted.droppedSignals]
        rfl
      timeouts := by
        rw [countP_isTimeout_tick]
        exact hcounted.timeouts
      retries := by
        rw [countP_isDeliver_tick]
        exact hcounted.retries }
  · intro hdecoded id pending initialBackoffMs maxAttempts hget hretry
    obtain ⟨m, hrepresented, -⟩ := allRepresented_of_run hrun hdecoded id pending hget
    rw [hrepresented.message] at hretry
    have hbound := hrepresented.schedule.attempts initialBackoffMs maxAttempts hretry
    exact ⟨fun hle => le_antisymm hbound.2 hle, fun heq => le_of_eq heq.symm⟩

theorem tick_entrywise_retriedRun :
    ∃ removed repeated, Entrywise 30 retriedRun.2 (retriedRun.2.tick 30).1 (retriedRun.2.tick 30).2 removed repeated :=
  (tick_entrywise (run_spec _ _) 30).1

/-- A request that allows no attempt at all. `begin_delivery` does not check the bound. -/
def starvedRequest : Message :=
  { plainRequest (numberedId 1) .received .all .all .broadcast with retry := .exponential 10 0 }

def starvedRun : List (Op × Reply) × Broker AllowAll :=
  run exec (Broker.empty .mk .default ∅)
    [plainConnect, plainConnect, .beginDelivery (.new 1) (.message starvedRequest) 0]

/-- It fails after its first attempt, which is not the number of attempts it allows. -/
theorem starvedRequest_fails :
    Run exec (Broker.empty .mk .default ∅) starvedRun.1 starvedRun.2 ∧
      ∃ pending, starvedRun.2.deliveries.get? (numberedId 1) = some pending ∧
        frameRetry pending.message = .exponential 10 0 ∧ pending.attempts = 1 ∧ 0 < pending.deadlineMs ∧
        (starvedRun.2.tick 0).2 = [.result (.new 1) (numberedId 1) .deliveryFailed] := by
  refine ⟨run_spec _ _, newPending (.new 1) starvedRequest (OrdSet.ofList [.new 2]) 1000 0 0, ?_⟩
  decide +kernel

/-! ## The same instant twice -/

/-- `tick` has nothing to do exactly if every entry waits. -/
theorem tick_eq_self_iff : broker.tick nowMs = (broker, []) ↔
    ∀ id pending, broker.deliveries.get? id = some pending → tickResult nowMs pending = .keep := by
  refine ⟨fun hself id pending hget => ?_, fun hkeep => ?_⟩
  · have hevents : (broker.tick nowMs).2 = [] := congrArg Prod.snd hself
    rw [tick_events_eq, List.append_eq_nil_iff, List.map_eq_nil_iff, List.map_eq_nil_iff] at hevents
    have hremoved : (id, pending) ∉ removedEntries broker nowMs := hevents.1 ▸ List.not_mem_nil
    have hrepeated : (id, pending) ∉ repeatedEntries broker nowMs := hevents.2 ▸ List.not_mem_nil
    rw [mem_removedEntries, afterTick] at hremoved
    rw [mem_repeatedEntries, isRepeated_iff] at hrepeated
    cases hresult : tickResult nowMs pending with
    | keep => rfl
    | expire => exact absurd ⟨hget, by rw [hresult]⟩ hremoved
    | abandon => exact absurd ⟨hget, by rw [hresult]⟩ hremoved
    | retry updated => exact absurd ⟨hget, updated, hresult⟩ hrepeated
  · have hloop : ∀ ids : List MessageId, ids.foldl (tickStep nowMs) ⟨broker, [], []⟩ = ⟨broker, [], []⟩ := by
      intro ids
      induction ids with
      | nil => rfl
      | cons id ids ih =>
        have hstep : tickStep nowMs ⟨broker, [], []⟩ id = ⟨broker, [], []⟩ := by
          rw [tickStep_eq]
          cases hget : broker.deliveries.get? id with
          | none => rfl
          | some pending =>
            dsimp only
            rw [hkeep id pending hget]
            rfl
        rw [List.foldl_cons, hstep, ih]
    unfold tick
    rw [hloop]
    rfl

/-- The last permitted attempt of an entry is due. -/
def LastAttempt (nowMs : UInt64) (pending : PendingDelivery) : Prop :=
  nowMs < pending.deadlineMs ∧ retryDue nowMs pending = true ∧
    ∃ initialBackoffMs maxAttempts, frameRetry pending.message = .exponential initialBackoffMs maxAttempts ∧
      pending.attempts.toNat + 1 = maxAttempts.toNat

theorem LastAttempt.tickResult_eq (h : LastAttempt nowMs pending) :
    tickResult nowMs pending = .retry (nextAttempt nowMs pending) := by
  obtain ⟨hearly, hdue, initialBackoffMs, maxAttempts, hretry, hlast⟩ := h
  have hmore : ¬ maxAttempts ≤ pending.attempts := by
    rw [UInt8.le_iff_toNat_le]
    omega
  unfold tickResult
  rw [if_neg (not_le.mpr hearly), hdue, hretry]
  simp [hmore]

/-- The next attempt lies in the future, unless the one just made was the last. -/
theorem retryNext_later {initialBackoffMs : UInt32} {maxAttempts attempts : UInt8} {deadlineMs nextMs : UInt64}
    (hbackoff : initialBackoffMs ≠ 0) (hmore : attempts < maxAttempts) (hearly : nowMs < deadlineMs)
    (hnext : retryNext (.exponential initialBackoffMs maxAttempts) nowMs attempts = some nextMs) : nowMs < nextMs := by
  by_contra hle
  have hgap := retryNext_gap hnext hmore (not_lt.mp hle) hearly
  have hpositive : 0 < initialBackoffMs.toNat * 2 ^ (attempts.toNat - 1) := by
    refine Nat.mul_pos (Nat.pos_of_ne_zero fun hzero => hbackoff ?_) (Nat.pow_pos Nat.two_pos)
    exact UInt32.toNat_inj.mp hzero
  omega

/-- An entry that was just delivered again fails at once if that was its last attempt, and waits otherwise. -/
theorem tickResult_nextAttempt {m : Message} {updated : PendingDelivery} (hmessage : pending.message = .message m)
    (hvalid : m.Valid) (hretry : tickResult nowMs pending = .retry updated) :
    (LastAttempt nowMs pending → tickResult nowMs updated = .abandon) ∧
      (¬ LastAttempt nowMs pending → tickResult nowMs updated = .keep) := by
  obtain ⟨rfl, hearly, hdue, initialBackoffMs, maxAttempts, hpolicy, hmore⟩ := tickResult_retry hmessage hretry
  have hfrom : frameRetry pending.message = .exponential initialBackoffMs maxAttempts := by
    rw [hmessage]
    exact hpolicy
  have hcount := @nextAttempt_attempts nowMs _ _ hmore
  have hnext : (nextAttempt nowMs pending).nextRetryMs =
      retryNext (.exponential initialBackoffMs maxAttempts) nowMs (nextAttempt nowMs pending).attempts := by
    show retryNext (frameRetry pending.message) nowMs _ = _
    rw [hfrom]
    rfl
  have hstill : frameRetry (nextAttempt nowMs pending).message = .exponential initialBackoffMs maxAttempts := hfrom
  have hlate : ¬ (nextAttempt nowMs pending).deadlineMs ≤ nowMs := not_le.mpr hearly
  refine ⟨fun hlast => ?_, fun hlast => ?_⟩
  · obtain ⟨-, -, backoff, most, hpolicy', hlast⟩ := hlast
    obtain ⟨rfl, rfl⟩ := RetryPolicy.exponential.inj (hfrom.symm.trans hpolicy')
    have hspent : maxAttempts ≤ (nextAttempt nowMs pending).attempts := by
      rw [UInt8.le_iff_toNat_le]
      omega
    have hdue' : retryDue nowMs (nextAttempt nowMs pending) = true := by
      refine retryDue_iff.mpr ⟨nowMs, ?_, le_refl nowMs⟩
      rw [hnext, retryNext, if_pos hspent]
    unfold tickResult
    rw [if_neg hlate, hdue', hstill]
    simp [hspent]
  · have hmore' : (nextAttempt nowMs pending).attempts < maxAttempts := by
      have hne : pending.attempts.toNat + 1 ≠ maxAttempts.toNat := fun heq =>
        hlast ⟨hearly, hdue, initialBackoffMs, maxAttempts, hfrom, heq⟩
      rw [UInt8.lt_iff_toNat_lt] at hmore ⊢
      omega
    have hdue' : retryDue nowMs (nextAttempt nowMs pending) = false := by
      rw [Bool.eq_false_iff, ne_eq, retryDue_iff]
      rintro ⟨nextMs, hsome, hle⟩
      have hbackoff := (hvalid.retry initialBackoffMs maxAttempts hpolicy).1
      exact absurd hle (not_le.mpr (retryNext_later hbackoff hmore' hearly (hnext.symm.trans hsome)))
    unfold tickResult
    rw [if_neg hlate, hdue']
    rfl

/-- The result of `tick` for an entry that an earlier `tick` at the same instant left. -/
theorem tickResult_afterTick (hrepresented : AllRepresented broker) {updated : PendingDelivery}
    (hget : broker.deliveries.get? id = some pending) (hafter : afterTick nowMs pending = some updated) :
    tickResult nowMs updated = .keep ↔ ¬ LastAttempt nowMs pending := by
  obtain ⟨m, hentry, hvalid⟩ := hrepresented id pending hget
  unfold afterTick at hafter
  cases hresult : tickResult nowMs pending with
  | expire => simp [hresult] at hafter
  | abandon => simp [hresult] at hafter
  | keep =>
    obtain rfl : pending = updated := by simpa [hresult] using hafter
    refine iff_of_true hresult fun hlast => ?_
    rw [hlast.tickResult_eq] at hresult
    cases hresult
  | retry updated' =>
    obtain rfl : updated' = updated := by simpa [hresult] using hafter
    obtain ⟨hfails, hwaits⟩ := tickResult_nextAttempt hentry.message hvalid hresult
    refine ⟨fun hkeep hlast => ?_, hwaits⟩
    rw [hfails hlast] at hkeep
    cases hkeep

theorem LastAttempt.get?_tick (h : LastAttempt nowMs pending) (hget : broker.deliveries.get? id = some pending) :
    (broker.tick nowMs).1.deliveries.get? id = some (nextAttempt nowMs pending) := by
  rw [tick_deliveries, hget, Option.bind_some, afterTick, h.tickResult_eq]

/-- An entry is delivered again and reported failed at the same instant exactly if its last attempt is due. -/
theorem failed_at_once_iff (hrepresented : AllRepresented broker) (hget : broker.deliveries.get? id = some pending) :
    (isRepeated nowMs (id, pending) = true ∧
      .result pending.sender id .deliveryFailed ∈ ((broker.tick nowMs).1.tick nowMs).2) ↔
        LastAttempt nowMs pending := by
  obtain ⟨m, hentry, hvalid⟩ := hrepresented id pending hget
  refine ⟨fun ⟨hrepeated, hfailed⟩ => ?_, fun hlast => ⟨isRepeated_iff.mpr ⟨_, hlast.tickResult_eq⟩, ?_⟩⟩
  · obtain ⟨updated, hresult⟩ := isRepeated_iff.mp hrepeated
    have hafter : afterTick nowMs pending = some updated := by
      rw [afterTick, hresult]
    by_contra hlast
    have hkeep := (tickResult_nextAttempt hentry.message hvalid hresult).2 hlast
    rw [tick_events_eq] at hfailed
    rcases List.mem_append.mp hfailed with hfailed | hfailed
    · obtain ⟨⟨id', pending'⟩, hmem, heq⟩ := List.mem_map.mp hfailed
      obtain ⟨hget', hnone⟩ := mem_removedEntries.mp hmem
      obtain ⟨-, rfl, -⟩ := DeliveryEvent.result.inj heq
      rw [tick_deliveries, hget, Option.bind_some, hafter] at hget'
      obtain rfl := Option.some.inj hget'
      rw [afterTick, hkeep] at hnone
      cases hnone
    · obtain ⟨e, -, heq⟩ := List.mem_map.mp hfailed
      cases heq
  · have hfails := (tickResult_nextAttempt hentry.message hvalid hlast.tickResult_eq).1 hlast
    rw [tick_events_eq]
    refine List.mem_append_left _ (List.mem_map.mpr ⟨(id, nextAttempt nowMs pending), ?_, ?_⟩)
    · exact mem_removedEntries.mpr ⟨hlast.get?_tick hget, by rw [afterTick, hfails]⟩
    · have hlate : ¬ (nextAttempt nowMs pending).deadlineMs ≤ nowMs := not_le.mpr hlast.1
      unfold removal
      rw [if_neg hlate]
      rfl

/-- A second `tick` at the same instant does nothing, unless the first one made the last attempt of an entry: that
entry fails at once, before anyone had time to answer. -/
theorem tick_idempotent_iff [Policy P] (hrun : Run exec (Broker.empty policy limits capabilities) history broker)
    (hdecoded : ∀ e ∈ history, Op.Decoded e.1) (nowMs : UInt64) :
    ((broker.tick nowMs).1.tick nowMs = ((broker.tick nowMs).1, []) ↔
      ∀ id pending, broker.deliveries.get? id = some pending → ¬ LastAttempt nowMs pending) ∧
    ∀ id pending, broker.deliveries.get? id = some pending →
      ((∃ updated, tickResult nowMs pending = .retry updated) ∧
        .result pending.sender id .deliveryFailed ∈ ((broker.tick nowMs).1.tick nowMs).2 ↔
      LastAttempt nowMs pending) := by
  have hrepresented := allRepresented_of_run hrun hdecoded
  refine ⟨tick_eq_self_iff.trans ⟨fun hkeep id pending hget hlast => ?_, fun hnone id updated hget => ?_⟩,
    fun id pending hget => ?_⟩
  · have hafter : afterTick nowMs pending = some (nextAttempt nowMs pending) := by
      rw [afterTick, hlast.tickResult_eq]
    exact (tickResult_afterTick hrepresented hget hafter).mp (hkeep id _ (hlast.get?_tick hget)) hlast
  · rw [tick_deliveries, Option.bind_eq_some_iff] at hget
    obtain ⟨pending, hget, hafter⟩ := hget
    exact (tickResult_afterTick hrepresented hget hafter).mpr (hnone id pending hget)
  · exact (and_congr_left' isRepeated_iff.symm).trans (failed_at_once_iff hrepresented hget)

/-- After the second attempt at ten milliseconds nothing is due at twenty. -/
theorem tick_idempotent_retriedRun :
    (retriedRun.2.tick 20).1.tick 20 = ((retriedRun.2.tick 20).1, []) := by
  refine (tick_idempotent_iff (run_spec _ _) (forall_run_inputs retriedOps_decoded) 20).1.mpr ?_
  have hidle : ∀ e ∈ retriedRun.2.deliveries.entries, retryDue 20 e.2 = false := by decide +kernel
  rintro id pending hget ⟨-, hdue, -⟩
  rw [hidle (id, pending) (OrdMap.mem_entries_iff.mpr hget)] at hdue
  cases hdue

/-- The third attempt of three is reported failed at the instant at which it is made. -/
theorem retriedRequest_failed_at_once :
    (∀ op ∈ retriedOps, Op.Decoded op) ∧
      (retriedRun.2.tick 30).2 = [.deliver (.new 1) [.new 3] (.message retriedRequest)] ∧
      ((retriedRun.2.tick 30).1.tick 30).2 = [.result (.new 1) (numberedId 1) .deliveryFailed] := by
  exact ⟨retriedOps_decoded, by decide +kernel⟩

/-! ## Who gets the message again -/

/-- The recipients of an entry that neither acknowledged it nor responded to it. -/
def unconfirmed (pending : PendingDelivery) : List PeerId :=
  pending.recipients.keys.filter fun peer =>
    !pending.acknowledgements.contains peer && !pending.responses.contains peer

/-- A repeated delivery goes to the unconfirmed recipients of its entry, and there are some; an entry that fails has
some left. -/
def TargetsUnconfirmed (broker : Broker P) (event : DeliveryEvent) : Prop :=
  ∀ id pending, about event = some id → broker.deliveries.get? id = some pending →
    match event with
    | .deliver _ targets _ => targets ≠ [] ∧ targets = unconfirmed pending
    | .result _ _ .deliveryFailed => unconfirmed pending ≠ []
    | .result .. => True

/-- What `TargetsUnconfirmed` takes: an entry with an attempt due is not confirmed by all, and, as long as it is
delivered again, those who responded acknowledged it as well. -/
def RetryWarranted (nowMs : UInt64) (pending : PendingDelivery) : Prop :=
  nowMs < pending.deadlineMs → retryDue nowMs pending = true →
    unconfirmed pending ≠ [] ∧
      ∀ initialBackoffMs maxAttempts, frameRetry pending.message = .exponential initialBackoffMs maxAttempts →
        pending.attempts < maxAttempts →
        ∀ peer, pending.responses.contains peer = true → pending.acknowledgements.contains peer = true

theorem difference_keys_eq_filter {s t : OrdSet PeerId} :
    (OrdSet.difference s t).keys = s.keys.filter fun peer => !OrdMap.contains t peer := by
  unfold OrdSet.difference OrdMap.filter OrdMap.keys
  rw [List.filter_map]
  rfl

/-- The targets of a repeated delivery are the unconfirmed recipients exactly if those who responded acknowledged. -/
theorem difference_eq_unconfirmed_iff
    (hresponders : ∀ peer, pending.responses.contains peer = true → pending.recipients.contains peer = true) :
    (OrdSet.difference pending.recipients pending.acknowledgements).keys = unconfirmed pending ↔
      ∀ peer, pending.responses.contains peer = true → pending.acknowledgements.contains peer = true := by
  unfold unconfirmed
  rw [difference_keys_eq_filter]
  refine ⟨fun heq peer hresponded => ?_, fun hacked => List.filter_congr fun peer _ => ?_⟩
  · by_contra hnot
    have hmem : peer ∈ pending.recipients.keys.filter fun peer => !pending.acknowledgements.contains peer :=
      List.mem_filter.mpr ⟨OrdMap.mem_keys_iff.mpr (hresponders peer hresponded), by simpa using hnot⟩
    rw [heq, List.mem_filter] at hmem
    simp [hresponded] at hmem
  · cases hresponded : pending.responses.contains peer with
    | false => simp
    | true => simp [hacked peer hresponded]

theorem redelivery_targets_iff (hentry : Entry id pending) (hget : broker.deliveries.get? id = some pending)
    (hresponders : ∀ peer, pending.responses.contains peer = true → pending.recipients.contains peer = true) :
    TargetsUnconfirmed broker (redelivery pending) ↔ unconfirmed pending ≠ [] ∧
      ∀ peer, pending.responses.contains peer = true → pending.acknowledgements.contains peer = true := by
  rw [← difference_eq_unconfirmed_iff hresponders]
  refine ⟨fun h => ?_, fun h id' pending' habout hget' => ?_⟩
  · obtain ⟨hsome, heq⟩ := h id pending (about_redelivery hentry) hget
    exact ⟨heq ▸ hsome, heq⟩
  · obtain rfl : id = id' := Option.some.inj ((about_redelivery hentry).symm.trans habout)
    obtain rfl : pending = pending' := Option.some.inj (hget.symm.trans hget')
    exact ⟨h.2 ▸ h.1, h.2⟩

theorem removal_targets_iff (hget : broker.deliveries.get? id = some pending) :
    TargetsUnconfirmed broker (removal nowMs (id, pending)) ↔
      (nowMs < pending.deadlineMs → unconfirmed pending ≠ []) := by
  unfold removal TargetsUnconfirmed
  by_cases hlate : pending.deadlineMs ≤ nowMs
  · rw [if_pos hlate]
    exact iff_of_true (fun _ _ _ _ => trivial) fun hearly => absurd hlate (not_le.mpr hearly)
  · rw [if_neg hlate]
    refine ⟨fun h _ => h id pending rfl hget, fun h id' pending' habout hget' => ?_⟩
    obtain rfl : id = id' := Option.some.inj habout
    obtain rfl : pending = pending' := Option.some.inj (hget.symm.trans hget')
    exact h (not_le.mp hlate)

/-- The clock reaches the unconfirmed recipients of an entry, and no one else, exactly if the entry warrants it. -/
theorem clocked_targets_iff (hentry : Entry id pending) (hget : broker.deliveries.get? id = some pending)
    (hresponders : ∀ peer, pending.responses.contains peer = true → pending.recipients.contains peer = true)
    {result : TickResult} (hclocked : Clocked nowMs pending result) :
    ((result = .expire ∨ result = .abandon → TargetsUnconfirmed broker (removal nowMs (id, pending))) ∧
      (∀ updated, result = .retry updated → TargetsUnconfirmed broker (redelivery pending))) ↔
        RetryWarranted nowMs pending := by
  rw [removal_targets_iff hget, redelivery_targets_iff hentry hget hresponders]
  cases hclocked with
  | expired hlate =>
    refine iff_of_true ⟨fun _ hearly => absurd hlate (not_le.mpr hearly), fun _ h => by cases h⟩ fun hearly => ?_
    exact absurd hlate (not_le.mpr hearly)
  | @failed nextMs initialBackoffMs maxAttempts hearly hnext hdue hretry hspent =>
    refine ⟨fun h _ _ => ⟨h.1 (.inr rfl) hearly, fun backoff most hretry' hmore => ?_⟩, fun h => ?_⟩
    · obtain ⟨rfl, rfl⟩ := RetryPolicy.exponential.inj (hretry.symm.trans hretry')
      exact absurd hspent (not_le.mpr hmore)
    · exact ⟨fun _ _ => (h hearly (retryDue_iff.mpr ⟨nextMs, hnext, hdue⟩)).1, fun _ h => by cases h⟩
  | @retried nextMs initialBackoffMs maxAttempts updated hearly hnext hdue hretry hmore =>
    refine ⟨fun h _ _ => ?_, fun h => ⟨fun hor => by simp at hor, fun _ _ => ?_⟩⟩
    · exact ⟨(h.2 updated rfl).1, fun _ _ _ _ => (h.2 updated rfl).2⟩
    · have hwarranted := h hearly (retryDue_iff.mpr ⟨nextMs, hnext, hdue⟩)
      exact ⟨hwarranted.1, hwarranted.2 initialBackoffMs maxAttempts hretry hmore⟩
  | waiting hearly hlater =>
    refine iff_of_true ⟨fun hor => by simp at hor, fun _ h => by cases h⟩ fun _ hdue => ?_
    obtain ⟨nextMs, hnext, hle⟩ := retryDue_iff.mp hdue
    exact absurd hle (not_le.mpr (hlater nextMs hnext))

variable [Policy P]

/-- `tick` repeats deliveries to the unconfirmed recipients only, exactly if every due entry warrants it: the responses
are not looked at, and an entry that everyone acknowledged is delivered again to nobody. -/
theorem tick_unconfirmed_iff (hrun : Run exec (Broker.empty policy limits capabilities) history broker)
    (nowMs : UInt64) : (∀ event ∈ (broker.tick nowMs).2, TargetsUnconfirmed broker event) ↔
      ∀ id pending, broker.deliveries.get? id = some pending → RetryWarranted nowMs pending := by
  have hentries := run_entries hrun (entries_empty policy limits capabilities)
  have hiff : ∀ id pending, broker.deliveries.get? id = some pending →
      (((id, pending) ∈ removedEntries broker nowMs → TargetsUnconfirmed broker (removal nowMs (id, pending))) ∧
        ((id, pending) ∈ repeatedEntries broker nowMs → TargetsUnconfirmed broker (redelivery pending)) ↔
          RetryWarranted nowMs pending) := by
    intro id pending hget
    obtain ⟨m, -, -, hresponses⟩ := responseState_of_run hrun hget
    rw [← clocked_targets_iff (hentries id pending hget) hget hresponses.responders
      (@clocked_tickResult nowMs _ (timed_of_run hrun hget)), mem_removedEntries, mem_repeatedEntries,
      isRepeated_iff, afterTick]
    cases tickResult nowMs pending <;> simp [hget]
  rw [tick_events_eq, List.forall_mem_append, List.forall_mem_map, List.forall_mem_map]
  refine ⟨fun h id pending hget => (hiff id pending hget).mp ⟨fun hmem => h.1 _ hmem, fun hmem => h.2 _ hmem⟩,
    fun h => ⟨fun e hmem => ?_, fun e hmem => ?_⟩⟩
  · have hget := (mem_removedEntries.mp hmem).1
    exact ((hiff e.1 e.2 hget).mpr (h e.1 e.2 hget)).1 hmem
  · have hget := (mem_repeatedEntries.mp hmem).1
    exact ((hiff e.1 e.2 hget).mpr (h e.1 e.2 hget)).2 hmem

/-- Of the two recipients of the request one acknowledged it; the other gets it again. -/
theorem tick_unconfirmed_retriedRun :
    (retriedRun.2.tick 30).2 = [.deliver (.new 1) [.new 3] (.message retriedRequest)] ∧
      ∀ event ∈ (retriedRun.2.tick 30).2, TargetsUnconfirmed retriedRun.2 event := by
  refine ⟨by decide +kernel, (tick_unconfirmed_iff (run_spec _ _) 30).mpr fun id pending hget _ _ => ?_⟩
  have hone : ∀ e ∈ retriedRun.2.deliveries.entries, unconfirmed e.2 ≠ [] ∧ e.2.responses = ∅ := by decide +kernel
  obtain ⟨hsome, hnone⟩ := hone (id, pending) (OrdMap.mem_entries_iff.mpr hget)
  refine ⟨hsome, fun _ _ _ _ peer hresponded => ?_⟩
  rw [show pending.responses = ∅ from hnone] at hresponded
  cases hresponded

def answeredRun : List (Op × Reply) × Broker AllowAll :=
  run exec (Broker.empty .mk .default ∅)
    [plainConnect, plainConnect, plainConnect, .beginDelivery (.new 1) (.message retriedRequest) 0,
      .beginDelivery (.new 2) (.message (plainResponse (numberedId 2) (numberedId 1) .success)) 0]

def acknowledgedRun : List (Op × Reply) × Broker AllowAll :=
  run exec (Broker.empty .mk .default ∅)
    [plainConnect, plainConnect, plainConnect, .beginDelivery (.new 1) (.message retriedRequest) 0,
      .acknowledge (.new 2) (numberedId 1) .received, .acknowledge (.new 3) (numberedId 1) .received, .tick 10]

/-- The request is delivered again to a peer that responded, and to nobody once all have acknowledged; then it fails
although nobody is left to confirm it. -/
theorem retriedRequest_ignores_confirmations :
    (answeredRun.2.tick 10).2 = [.deliver (.new 1) [.new 2, .new 3] (.message retriedRequest)] ∧
      (∃ pending, answeredRun.2.deliveries.get? (numberedId 1) = some pending ∧ unconfirmed pending = [.new 3]) ∧
      (acknowledgedRun.2.tick 30).2 = [.deliver (.new 1) [] (.message retriedRequest)] ∧
      ((acknowledgedRun.2.tick 30).1.tick 40).2 = [.result (.new 1) (numberedId 1) .deliveryFailed] ∧
      ∃ pending, (acknowledgedRun.2.tick 30).1.deliveries.get? (numberedId 1) = some pending ∧
        unconfirmed pending = [] := by
  have hanswered : (answeredRun.2.deliveries.get? (numberedId 1)).map unconfirmed = some [.new 3] := by
    decide +kernel
  have hacknowledged : ((acknowledgedRun.2.tick 30).1.deliveries.get? (numberedId 1)).map unconfirmed = some [] := by
    decide +kernel
  exact ⟨by decide +kernel, Option.map_eq_some_iff.mp hanswered, by decide +kernel, by decide +kernel,
    Option.map_eq_some_iff.mp hacknowledged⟩

end Busd.Broker
