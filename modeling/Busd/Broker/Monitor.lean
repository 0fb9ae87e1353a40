import Busd.Broker.Atomicity

/-!
# The monitor history

`record_monitor` is called from all over the broker. It numbers its record and appends it to a queue of
`maxMonitorEvents` places that drops its oldest record when it is full. The whole trace is kept nowhere, so it is
put together here from the calls of a run.

* `MonitorRecord` : what `record_monitor` is called with;
* `monitored` : the records of one call of the broker, `monitorTrace` : those of a run;
* `MonitorLog.push` : what a record does to the two fields of the monitor;
* `exec_monitorLog` : a call of the broker pushes its records in order, and touches the two fields in no other way;
* `foldl_push` : the queue after any number of records;
* `monitor_history_suffix` : after a run the queue holds the end of its trace.
-/

namespace Busd.Broker

open Words Machine Busd.Protocol Busd.Policy

variable {P : Type} {broker : Broker P} {sender : PeerId} {m : Message}

/-! ## The records of a call -/

structure MonitorRecord where
  kind : MonitorKind
  peer : PeerId
  target : Option String
  messageId : Option MessageId
  payloadBytes : Nat
  deriving DecidableEq

def MonitorRecord.event (record : MonitorRecord) (sequence : UInt64) : MonitorEvent where
  sequence := sequence
  kind := record.kind
  peer := record.peer
  target := record.target
  messageId := record.messageId
  payloadBytes := record.payloadBytes

def MonitorEvent.record (event : MonitorEvent) : MonitorRecord where
  kind := event.kind
  peer := event.peer
  target := event.target
  messageId := event.messageId
  payloadBytes := event.payloadBytes

variable [Policy P]

/-- The recipients of a message that `begin_delivery` routes. A response, a repeated identifier and a message that is
not admitted are answered before that. -/
def routedRecipients (broker : Broker P) (sender : PeerId) (m : Message) : Option (OrdSet PeerId) :=
  if broker.peers.contains sender ∧ (validateMessageHeaders m.headers).isOk ∧ (messagePriority m.headers).isOk ∧
      m.kind ≠ .response ∧ !broker.deliveries.contains m.messageId then
    (broker.route sender m.destination m.headers).toOption.map OrdSet.ofList
  else none

/-- The record of a routed message. It is written before the message can be refused for lack of room. -/
def routingRecord (sender : PeerId) (m : Message) (recipients : OrdSet PeerId) : MonitorRecord where
  kind := if recipients.isEmpty then .droppedSignal else .delivered
  peer := sender
  target := some (destinationLabel m.destination)
  messageId := some m.messageId
  payloadBytes := m.payload.length

def tickRecords (nowMs : UInt64) (messageId : MessageId) (pending : PendingDelivery) : List MonitorRecord :=
  match tickResult nowMs pending with
  | .expire => [⟨.timedOut, pending.sender, none, some messageId, 0⟩]
  | .retry _ => [⟨.retried, pending.sender, none, some messageId, deliveryBytes pending.message⟩]
  | .keep | .abandon => []

/-- The records that a call writes, in the order of its calls of `record_monitor`. -/
def monitored (broker : Broker P) : Op → List MonitorRecord
  | .connect credentials hello =>
    if (broker.connectSession credentials hello).2.isOk then [⟨.connected, .new broker.nextPeer, none, none, 0⟩]
    else []
  | .disconnect peer =>
    if (broker.disconnectWithEvents peer).2.isOk then [⟨.disconnected, peer, none, none, 0⟩] else []
  | .claim peer ns =>
    if (broker.claim peer ns).2.isOk then [⟨.namespaceClaimed, peer, some ns.asStr, none, 0⟩] else []
  | .subscribe peer channel filters =>
    if (broker.subscribeWithFilters peer channel filters).2.isOk then
      [⟨.subscribed, peer, some channel.asStr, none, 0⟩]
    else []
  | .beginDelivery sender (.message m) _ =>
    ((broker.routedRecipients sender m).map (routingRecord sender m)).toList
  | .acknowledge peer messageId policy =>
    if (broker.acknowledge peer messageId policy).2.isOk then [⟨.acknowledged, peer, none, some messageId, 0⟩]
    else []
  | .tick nowMs => broker.deliveries.entries.flatMap fun e => tickRecords nowMs e.1 e.2
  | .unsubscribe .. | .registerDbusName .. | .beginDelivery .. | .drainEvents => []

def monitorTrace (start : Broker P) (history : List (Op × Reply)) : List MonitorRecord :=
  written exec monitored start history

/-! ## One record -/

structure MonitorLog where
  events : List MonitorEvent
  next : UInt64

def MonitorLog.push (log : MonitorLog) (record : MonitorRecord) : MonitorLog where
  events := pushRecord log.events (record.event log.next)
  next := saturatingAdd log.next 1

def monitorLog (broker : Broker P) : MonitorLog := ⟨broker.monitorEvents, broker.nextMonitorSequence⟩

omit [Policy P] in
theorem recordMonitor_monitorLog (broker : Broker P) (kind : MonitorKind) (peer : PeerId) (target : Option String)
    (messageId : Option MessageId) (payloadBytes : Nat) :
    (broker.recordMonitor kind peer target messageId payloadBytes).monitorLog =
      broker.monitorLog.push ⟨kind, peer, target, messageId, payloadBytes⟩ := rfl

/-! ## One call -/

theorem connectSession_monitorLog (broker : Broker P) (credentials : Credentials) (hello : ClientHello) :
    (exec broker (.connect credentials hello)).1.monitorLog =
      (monitored broker (.connect credentials hello)).foldl .push broker.monitorLog := by
  rcases connectSession_cases broker credentials hello with ⟨error, h⟩ | ⟨capabilities, nextPeer, -, h⟩
  · simp only [exec, monitored, h]
    rfl
  · simp only [exec, monitored, h]
    exact recordMonitor_monitorLog _ .connected (.new broker.nextPeer) none none 0

theorem disconnectWithEvents_monitorLog (broker : Broker P) (peer : PeerId) :
    (exec broker (.disconnect peer)).1.monitorLog =
      (monitored broker (.disconnect peer)).foldl .push broker.monitorLog := by
  rcases disconnectWithEvents_cases broker peer with ⟨-, h⟩ | ⟨-, h⟩
  · simp only [exec, monitored, h]
    rfl
  · simp only [exec, monitored, h]
    rfl

theorem claim_monitorLog (broker : Broker P) (peer : PeerId) (ns : Namespace) :
    (exec broker (.claim peer ns)).1.monitorLog =
      (monitored broker (.claim peer ns)).foldl .push broker.monitorLog := by
  rcases claim_cases broker peer ns with ⟨error, h⟩ | ⟨-, -, h⟩
  · simp only [exec, monitored, h]
    rfl
  · simp only [exec, monitored, h]
    exact recordMonitor_monitorLog _ .namespaceClaimed peer (some ns.asStr) none 0

theorem subscribeWithFilters_monitorLog (broker : Broker P) (peer : PeerId) (channel : Channel)
    (filters : List HeaderFilter) :
    (exec broker (.subscribe peer channel filters)).1.monitorLog =
      (monitored broker (.subscribe peer channel filters)).foldl .push broker.monitorLog := by
  rcases subscribeWithFilters_cases broker peer channel filters with ⟨error, h⟩ | ⟨-, h⟩
  · simp only [exec, monitored, h]
    rfl
  · simp only [exec, monitored, h]
    exact recordMonitor_monitorLog _ .subscribed peer (some channel.asStr) none 0

theorem unsubscribe_monitorLog (broker : Broker P) (peer : PeerId) (channel : Channel) :
    (exec broker (.unsubscribe peer channel)).1.monitorLog = broker.monitorLog := by
  rcases unsubscribe_cases broker peer channel with ⟨result, h⟩ | ⟨subscribers, -, h⟩
  · simp only [exec, h]
    rfl
  · simp only [exec, h]
    rfl

theorem registerDbusName_monitorLog (broker : Broker P) (peer : PeerId) (name : String) :
    (exec broker (.registerDbusName peer name)).1.monitorLog = broker.monitorLog := by
  rcases registerDbusName_cases broker peer name with ⟨error, h⟩ | ⟨-, h⟩
  · simp only [exec, h]
    rfl
  · simp only [exec, h]
    rfl

theorem acknowledge_monitorLog (broker : Broker P) (peer : PeerId) (messageId : MessageId) (policy : AckPolicy) :
    (exec broker (.acknowledge peer messageId policy)).1.monitorLog =
      (monitored broker (.acknowledge peer messageId policy)).foldl .push broker.monitorLog := by
  rcases acknowledge_eq broker peer messageId policy with ⟨error, h⟩ | ⟨pending, m, outcome, -, h⟩
  · simp only [exec, monitored, h]
    rfl
  · simp only [exec, monitored, h]
    rfl

theorem Routed.routedRecipients_eq {priority : UInt8} {recipients : List PeerId}
    (h : Routed broker sender m priority recipients) :
    broker.routedRecipients sender m = some (OrdSet.ofList recipients) := by
  have hfresh : broker.deliveries.contains m.messageId = false := OrdMap.contains_eq_false_iff.mpr h.fresh
  unfold routedRecipients
  rw [if_pos ⟨h.connected, by rw [h.headers]; rfl, by rw [h.priority]; rfl, h.kind, by rw [hfresh]; rfl⟩, h.route]
  rfl

theorem routed_of_routedRecipients {recipients : OrdSet PeerId}
    (h : broker.routedRecipients sender m = some recipients) : ∃ priority l, Routed broker sender m priority l := by
  unfold routedRecipients at h
  split_ifs at h with hrouted
  obtain ⟨hconnected, hheaders, hpriority, hkind, hfresh⟩ := hrouted
  cases hvalid : validateMessageHeaders m.headers with
  | error error =>
    rw [hvalid] at hheaders
    cases hheaders
  | ok =>
    cases hp : messagePriority m.headers with
    | error error =>
      rw [hp] at hpriority
      cases hpriority
    | ok priority =>
      cases hroute : broker.route sender m.destination m.headers with
      | error error =>
        rw [hroute] at h
        cases h
      | ok l =>
        rw [Bool.not_eq_true', OrdMap.contains_eq_false_iff] at hfresh
        exact ⟨priority, l, ⟨hconnected, hvalid, hp⟩, hkind, hfresh, hroute⟩

omit [Policy P] in
theorem recordRouting_monitorLog (broker : Broker P) (sender : PeerId) (m : Message) (recipients : OrdSet PeerId) :
    (broker.recordRouting sender m recipients).monitorLog =
      broker.monitorLog.push (routingRecord sender m recipients) := by
  unfold recordRouting
  dsimp only
  by_cases hdropped : recipients.isEmpty = true ∧ m.kind = .signal
  · rw [if_pos hdropped]
    rfl
  · rw [if_neg hdropped]
    rfl

omit [Policy P] in
/-- Whatever becomes of a routed message, it has its record. -/
theorem deliverRouted_monitorLog (broker : Broker P) (sender : PeerId) (m : Message) (recipients : OrdSet PeerId)
    (priority : UInt8) (nowMs : UInt64) :
    (broker.deliverRouted sender m recipients priority nowMs).1.monitorLog =
      broker.monitorLog.push (routingRecord sender m recipients) := by
  obtain ⟨deliveries, h⟩ := deliverRouted_state broker sender m recipients priority nowMs
  rw [h, ← recordRouting_monitorLog]
  rfl

/-- A message that is not routed leaves the monitor alone. -/
theorem beginDelivery_monitorLog_of_not_routed {message : Frame} {nowMs : UInt64}
    (h : ∀ m priority recipients, message = .message m → ¬ Routed broker sender m priority recipients) :
    (broker.beginDelivery sender message nowMs).1.monitorLog = broker.monitorLog := by
  rcases beginDelivery_state broker sender message nowMs with
    ⟨deliveries, hb⟩ | ⟨m, priority, recipients, _, hm, hrouted, -⟩
  · rw [hb]
    rfl
  · exact absurd hrouted (h m priority recipients hm)

theorem beginDelivery_monitorLog (broker : Broker P) (sender : PeerId) (message : Frame) (nowMs : UInt64) :
    (exec broker (.beginDelivery sender message nowMs)).1.monitorLog =
      (monitored broker (.beginDelivery sender message nowMs)).foldl .push broker.monitorLog := by
  change (broker.beginDelivery sender message nowMs).1.monitorLog = _
  cases message with
  | message m =>
    simp only [monitored]
    cases hrecipients : broker.routedRecipients sender m with
    | none =>
      refine beginDelivery_monitorLog_of_not_routed fun m' priority recipients hm hrouted => ?_
      cases hm
      rw [hrouted.routedRecipients_eq] at hrecipients
      cases hrecipients
    | some recipients =>
      obtain ⟨priority, l, hrouted⟩ := routed_of_routedRecipients hrecipients
      rw [hrouted.routedRecipients_eq] at hrecipients
      cases hrecipients
      rw [hrouted.beginDelivery_eq, deliverRouted_monitorLog]
      rfl
  | _ => exact beginDelivery_monitorLog_of_not_routed fun _ _ _ hm => by cases hm

omit [Policy P] in
theorem tickStep_monitorLog (nowMs : UInt64) (state : TickState P) (id : MessageId) :
    (tickStep nowMs state id).broker.monitorLog =
      ((state.broker.deliveries.get? id).elim [] (tickRecords nowMs id)).foldl .push state.broker.monitorLog := by
  rw [tickStep_eq]
  cases state.broker.deliveries.get? id with
  | none => rfl
  | some pending =>
    simp only [Option.elim_some, tickRecords]
    cases tickResult nowMs pending with
    | keep => rfl
    | expire => rfl
    | abandon => rfl
    | retry updated => rfl

omit [Policy P] in
/-- The loop writes the records of the entries in the order of its visits, each as it was when `tick` was called. -/
theorem tickLoop_monitorLog (nowMs : UInt64) (ids : List MessageId) (hids : ids.Nodup) (state : TickState P) :
    (ids.foldl (tickStep nowMs) state).broker.monitorLog =
      (ids.flatMap fun id => (state.broker.deliveries.get? id).elim [] (tickRecords nowMs id)).foldl .push
        state.broker.monitorLog := by
  induction ids generalizing state with
  | nil => rfl
  | cons id ids ih =>
    obtain ⟨hnotin, hids⟩ := List.nodup_cons.mp hids
    have hlater := tickStep_later nowMs state hnotin
    rw [List.foldl_cons, ih hids, tickStep_monitorLog, List.flatMap_cons, List.foldl_append]
    congr 1
    exact List.flatMap_congr fun id' hid' => by rw [hlater id' hid']

theorem tick_monitorLog (broker : Broker P) (nowMs : UInt64) :
    (exec broker (.tick nowMs)).1.monitorLog = (monitored broker (.tick nowMs)).foldl .push broker.monitorLog := by
  simp only [monitored]
  rw [← OrdMap.flatMap_keys broker.deliveries (tickRecords nowMs)]
  exact tickLoop_monitorLog nowMs broker.deliveries.keys broker.deliveries.nodup_keys ⟨broker, [], []⟩

/-- A call pushes its records, one after the other, and does nothing else to the monitor. -/
theorem exec_monitorLog (broker : Broker P) (op : Op) :
    (exec broker op).1.monitorLog = (monitored broker op).foldl .push broker.monitorLog := by
  cases op with
  | connect credentials hello => exact connectSession_monitorLog broker credentials hello
  | disconnect peer => exact disconnectWithEvents_monitorLog broker peer
  | claim peer ns => exact claim_monitorLog broker peer ns
  | subscribe peer channel filters => exact subscribeWithFilters_monitorLog broker peer channel filters
  | unsubscribe peer channel => exact unsubscribe_monitorLog broker peer channel
  | registerDbusName peer name => exact registerDbusName_monitorLog broker peer name
  | beginDelivery sender message nowMs => exact beginDelivery_monitorLog broker sender message nowMs
  | acknowledge peer messageId policy => exact acknowledge_monitorLog broker peer messageId policy
  | tick nowMs => exact tick_monitorLog broker nowMs
  | drainEvents => rfl

/-! ## Any number of records -/

def numbered (trace : List MonitorRecord) : List MonitorEvent :=
  (trace.zipIdx 1).map fun e => e.1.event (UInt64.ofNat e.2)

theorem numbered_concat (trace : List MonitorRecord) (record : MonitorRecord) :
    numbered (trace ++ [record]) = numbered trace ++ [record.event (UInt64.ofNat (trace.length + 1))] := by
  unfold numbered
  rw [List.zipIdx_append, List.map_append, Nat.add_comm 1]
  rfl

/-- The queue holds the end of the trace, as long as the numbers last. -/
theorem foldl_push (trace : List MonitorRecord) (h : trace.length < u64Max.toNat) :
    trace.foldl .push ⟨[], 1⟩ =
      (⟨(numbered trace).rtake maxMonitorEvents, UInt64.ofNat (trace.length + 1)⟩ : MonitorLog) := by
  induction trace using List.reverseRecOn with
  | nil => rfl
  | append_singleton trace record ih =>
    rw [List.length_append, List.length_singleton, toNat_u64Max] at h
    have hbefore := ih (by rw [toNat_u64Max]; omega)
    rw [List.foldl_append, hbefore, List.foldl_cons, List.foldl_nil, MonitorLog.push, pushRecord,
      numbered_concat, List.rtake_concat (show maxMonitorEvents ≠ 0 by decide), saturatingAdd_ofNat_one (by omega),
      List.length_append, List.length_singleton]

theorem run_monitorLog {start : Broker P} {history : List (Op × Reply)} (hrun : Run exec start history broker) :
    broker.monitorLog = (monitorTrace start history).foldl .push start.monitorLog :=
  hrun.written_foldl exec_monitorLog

theorem numbered_map_record (trace : List MonitorRecord) : (numbered trace).map MonitorEvent.record = trace := by
  unfold numbered
  rw [List.map_map]
  exact List.zipIdx_map_fst 1 trace

theorem numbered_map_sequence (trace : List MonitorRecord) (h : trace.length < u64Max.toNat) :
    (numbered trace).map (fun event => event.sequence.toNat) = List.range' 1 trace.length := by
  rw [← List.zipIdx_map_snd 1 trace]
  unfold numbered
  rw [List.map_map]
  refine List.map_congr_left fun e he => ?_
  have hlast := (List.mem_range'_1.mp (List.zipIdx_map_snd 1 trace ▸ List.mem_map_of_mem he)).2
  have hbound : e.2 < 2 ^ 64 := by
    rw [toNat_u64Max] at h
    omega
  exact UInt64.toNat_ofNat_of_lt' hbound

/-! ## Runs -/

/-- The monitor of the broker after the records of a trace. The numbers of the records kept follow each other, and
the last one is the length of the trace. -/
structure KeepsRecent (broker : Broker P) (trace : List MonitorRecord) : Prop where
  records : broker.monitorEvents.map MonitorEvent.record = trace.rtake (min trace.length maxMonitorEvents)
  sequences : broker.monitorEvents.map (fun event => event.sequence.toNat) =
    List.range' (trace.length + 1 - min trace.length maxMonitorEvents) (min trace.length maxMonitorEvents)
  next : broker.nextMonitorSequence.toNat = trace.length + 1

/-- After every run of a new broker that has written fewer than `u64::MAX` records, the monitor keeps the last
`maxMonitorEvents` of them, or all if they are no more, and shows these to whoever may see them. -/
theorem monitor_history_suffix {policy : P} {limits : Limits} {capabilities : Capabilities}
    {history : List (Op × Reply)} (hrun : Run exec (.empty policy limits capabilities) history broker)
    (hcount : (monitorTrace (.empty policy limits capabilities) history).length < u64Max.toNat) :
    KeepsRecent broker (monitorTrace (.empty policy limits capabilities) history) ∧
      ∀ peer events, broker.monitorEventsFor peer = .ok events → events = broker.monitorEvents := by
  have hlog := run_monitorLog hrun
  generalize monitorTrace (.empty policy limits capabilities) history = trace at hcount hlog ⊢
  obtain ⟨hevents, hnext⟩ := MonitorLog.mk.inj (hlog.trans (foldl_push trace hcount))
  refine ⟨⟨?_, ?_, ?_⟩, fun peer events hshown => ?_⟩
  · rw [hevents, List.map_rtake, numbered_map_record, List.rtake_min_length]
  · rw [hevents, List.map_rtake, numbered_map_sequence trace hcount, List.rtake_range', Nat.add_comm 1]
  · have hbound : trace.length + 1 < 2 ^ 64 := by
      rw [toNat_u64Max] at hcount
      omega
    rw [hnext, UInt64.toNat_ofNat_of_lt' hbound]
  · unfold monitorEventsFor at hshown
    cases hauth : broker.authorize peer .monitor with
    | error error =>
      rw [hauth] at hshown
      cases hshown
    | ok =>
      rw [hauth] at hshown
      exact (Except.ok.inj hshown).symm

/-- The sender at its limit sends one more request, and then the first one times out. -/
def refusedThenTimeout : List (Op × Reply) × Broker AllowAll :=
  run exec (Broker.empty .mk tightLimits ∅)
    [plainConnect, plainConnect, .beginDelivery (.new 1) (requestToSecond 1) 0,
      .beginDelivery (.new 1) (requestToSecond 2) 0, .tick 1000]

theorem monitor_history_suffix_refused :
    (monitorTrace (Broker.empty AllowAll.mk tightLimits ∅) refusedThenTimeout.1).map MonitorRecord.kind =
        [.connected, .connected, .delivered, .delivered, .timedOut] ∧
      KeepsRecent refusedThenTimeout.2 (monitorTrace (Broker.empty AllowAll.mk tightLimits ∅) refusedThenTimeout.1) :=
  ⟨by decide +kernel, (monitor_history_suffix (run_spec _ _) (by decide +kernel)).1⟩

end Busd.Broker
