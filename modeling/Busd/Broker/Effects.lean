import Busd.Broker.Steps

/-!
# The life of one message identifier

Every event the broker returns is about one message identifier (`about`). For one identifier, a call
does one of the seven things listed by `Effect` to the entry under it, and returns the events listed
there; `exec_effect` proves this for every call. The properties of whole runs are inductions over
`Effect`, not over the broker's code.

* `Entry` : what holds of every retained entry (`run_entries`);
* `exec_effect` : the entry and the events of one identifier under one call.
-/

namespace Busd.Broker

open Words Machine Busd.Protocol Busd.Policy

/-- The logical message an event is about: a response is about the request it answers. -/
def about : DeliveryEvent → Option MessageId
  | .result _ messageId _ => some messageId
  | .deliver _ _ (.message m) => some (if m.kind = .response then m.correlationId else m.messageId)
  | .deliver _ _ _ => none

def eventsAbout (id : MessageId) (events : List DeliveryEvent) : List DeliveryEvent :=
  events.filter fun event => about event = some id

theorem eventsAbout_append (id : MessageId) (l l' : List DeliveryEvent) :
    eventsAbout id (l ++ l') = eventsAbout id l ++ eventsAbout id l' := List.filter_append ..

theorem eventsAbout_self {id : MessageId} {events : List DeliveryEvent}
    (h : ∀ event ∈ events, about event = some id) : eventsAbout id events = events :=
  List.filter_eq_self.mpr fun event hmem => decide_eq_true (h event hmem)

theorem eventsAbout_other {id id' : MessageId} {events : List DeliveryEvent} (hne : id' ≠ id)
    (h : ∀ event ∈ events, about event = some id) : eventsAbout id' events = [] := by
  refine List.filter_eq_nil_iff.mpr fun event hmem habout => hne ?_
  have := h event hmem
  rw [of_decide_eq_true habout] at this
  exact Option.some.inj this

/-- What holds of an entry retained under `id`. -/
structure Entry (id : MessageId) (pending : PendingDelivery) : Prop where
  message : ∃ m, pending.message = .message m ∧ m.messageId = id ∧ m.kind ≠ .response ∧ isTracked m = true
  responses : ∀ peer frame, pending.responses.get? peer = some frame →
    ∃ r, frame = .message r ∧ r.kind = .response ∧ r.correlationId = id

def Submits (sender : PeerId) (m : Message) (nowMs : UInt64) (op : Op) (reply : Reply) : Prop :=
  op = .beginDelivery sender (.message m) nowMs ∧ ∃ events, reply = .delivery (.ok events)

/-- What one call does to the entry under `id`, and the events about `id` it returns. -/
inductive Effect (op : Op) (reply : Reply) (id : MessageId) :
    Option PendingDelivery → Option PendingDelivery → List DeliveryEvent → Prop
  /-- The entry, if any, stays as it is; in particular an acknowledgement of it was refused. -/
  | untouched {entry : Option PendingDelivery}
      (hack : ∀ peer policy events, op = .acknowledge peer id policy → reply ≠ .delivery (.ok events)) :
      Effect op reply id entry entry []
  /-- The message was routed, or found no recipient, and is not retained. -/
  | passed {sender : PeerId} {m : Message} {nowMs : UInt64} {events : List DeliveryEvent}
      (hcall : Submits sender m nowMs op reply) (hkind : m.kind ≠ .response) (hid : m.messageId = id)
      (hevents : events = [.result sender id .noRecipient] ∨
        ∃ recipients, events = acceptedEvents sender m recipients) : Effect op reply id none none events
  /-- The message was routed and is retained. -/
  | inserted {sender : PeerId} {m : Message} {recipients : OrdSet PeerId} {nowMs deadlineMs : UInt64}
      {priority : UInt8} (hcall : Submits sender m nowMs op reply) (hkind : m.kind ≠ .response)
      (hid : m.messageId = id) (htracked : isTracked m = true) :
      Effect op reply id none (some (newPending sender m recipients deadlineMs nowMs priority))
        (acceptedEvents sender m recipients)
  /-- A recipient acknowledged it at a sufficient stage. -/
  | acknowledged {pending : PendingDelivery} {m : Message} {peer : PeerId} {policy : AckPolicy}
      {outcome : DeliveryOutcome} {events : List DeliveryEvent} (hop : op = .acknowledge peer id policy)
      (hreply : reply = .delivery (.ok events)) (hmessage : pending.message = .message m)
      (hrecipient : pending.recipients.contains peer = true)
      (hstage : acknowledgementSatisfies m.ackPolicy policy = true)
      (houtcome : ackOutcome m.ackPolicy = some outcome) :
      Effect op reply id (some pending)
        (if ackCompletes pending m peer ∧ m.kind ≠ .request then none else some (recordAck pending m peer))
        (if ackCompletes pending m peer then [.result pending.sender id outcome] else [])
  /-- A recipient of a request answered it. -/
  | answered {pending : PendingDelivery} {request response : Message} {sender : PeerId} {nowMs : UInt64}
      (hcall : Submits sender response nowMs op reply) (hkind : response.kind = .response)
      (hid : response.correlationId = id) (hmessage : pending.message = .message request)
      (hrequest : request.kind = .request) (hrecipient : pending.recipients.contains sender = true)
      (hfirst : pending.responses.contains sender = false) :
      Effect op reply id (some pending)
        (if completesRequest pending request sender response then none
          else some { pending with responses := addResponse pending sender response })
        ((forwarded pending request sender response).toList.map
          fun message => .deliver sender [pending.sender] message)
  /-- The clock moved. -/
  | ticked {pending : PendingDelivery} {nowMs : UInt64} (hop : op = .tick nowMs) :
      Effect op reply id (some pending) (afterTick nowMs pending)
        (tickOutcomes nowMs id pending ++ (tickRetries nowMs pending).map Prod.snd)
  /-- A recipient disconnected. -/
  | recipientLost {pending : PendingDelivery} {peer : PeerId} (hop : op = .disconnect peer)
      (hrecipient : pending.recipients.contains peer = true) :
      Effect op reply id (some pending) none [.result pending.sender id .recipientDisconnected]

variable {P : Type} {broker : Broker P}

def Entries (broker : Broker P) : Prop :=
  ∀ id pending, broker.deliveries.get? id = some pending → Entry id pending

/-! ## What the returned events are about -/

theorem about_acceptedEvents {sender : PeerId} {m : Message} {recipients : OrdSet PeerId}
    (hkind : m.kind ≠ .response) :
    ∀ event ∈ acceptedEvents sender m recipients, about event = some m.messageId := by
  intro event hmem
  unfold acceptedEvents at hmem
  rcases List.mem_cons.mp hmem with rfl | hmem
  · simp [about, hkind]
  · split_ifs at hmem with haccepted
    · rw [List.mem_singleton.mp hmem]
      rfl
    · cases hmem

/-- A forwarded frame is the response just submitted, or one that is retained. -/
theorem forwarded_cases {pending : PendingDelivery} {request response : Message} {sender : PeerId} {frame : Frame}
    (h : forwarded pending request sender response = some frame) :
    frame = .message response ∨ ∃ peer, pending.responses.get? peer = some frame := by
  unfold forwarded responseForwarded at h
  split at h
  · exact .inl (Option.some.inj h).symm
  · exact .inl (Option.some.inj h).symm
  · exact .inl (Option.some.inj h).symm
  · split_ifs at h with hsuccess hcompleted
    · exact .inl (Option.some.inj h).symm
    · obtain ⟨peer, hpeer⟩ := OrdMap.mem_values_iff.mp (List.mem_of_head? h)
      unfold addResponse at hpeer
      rw [OrdMap.get?_insert] at hpeer
      split_ifs at hpeer with heq
      · exact .inl (Option.some.inj hpeer).symm
      · exact .inr ⟨peer, hpeer⟩

/-- A forwarded frame is a response to the request under `id`. -/
theorem forwarded_response {id : MessageId} {pending : PendingDelivery} {request response : Message}
    {sender : PeerId} (hentry : Entry id pending) (hkind : response.kind = .response)
    (hid : response.correlationId = id) {frame : Frame}
    (h : forwarded pending request sender response = some frame) :
    ∃ r, frame = .message r ∧ r.kind = .response ∧ r.correlationId = id := by
  rcases forwarded_cases h with rfl | ⟨peer, hpeer⟩
  · exact ⟨response, rfl, hkind, hid⟩
  · exact hentry.responses peer frame hpeer

theorem about_forwarded {id : MessageId} {pending : PendingDelivery} {request response : Message}
    {sender : PeerId} (hentry : Entry id pending) (hkind : response.kind = .response)
    (hid : response.correlationId = id) :
    ∀ event ∈ (forwarded pending request sender response).toList.map
      fun message => DeliveryEvent.deliver sender [pending.sender] message, about event = some id := by
  intro event hmem
  obtain ⟨frame, hframe, rfl⟩ := List.mem_map.mp hmem
  obtain ⟨r, rfl, hr, hrid⟩ := forwarded_response hentry hkind hid (Option.mem_toList.mp hframe)
  simp [about, hr, hrid]

theorem about_tickOutcomes {nowMs : UInt64} {id : MessageId} {pending : PendingDelivery} :
    ∀ event ∈ tickOutcomes nowMs id pending, about event = some id := by
  intro event hmem
  unfold tickOutcomes at hmem
  split at hmem
  · rw [List.mem_singleton.mp hmem]
    rfl
  · rw [List.mem_singleton.mp hmem]
    rfl
  · cases hmem
  · cases hmem

theorem about_tickRetries {nowMs : UInt64} {id : MessageId} {pending : PendingDelivery}
    (hentry : Entry id pending) :
    ∀ event ∈ (tickRetries nowMs pending).map Prod.snd, about event = some id := by
  intro event hmem
  obtain ⟨m, hm, hid, hkind, -⟩ := hentry.message
  unfold tickRetries at hmem
  split at hmem
  · rw [List.map_singleton, List.mem_singleton] at hmem
    rw [hmem]
    simp [about, redelivery, hm, hkind, hid]
  · cases hmem
  · cases hmem
  · cases hmem

/-! ## One call -/

theorem effect_of_unchanged {op : Op} {reply : Reply} {id : MessageId}
    {entry entry' : Option PendingDelivery} (hentry : entry' = entry) (hevents : reply.events = [])
    (hack : ∀ peer policy events, op = .acknowledge peer id policy → reply ≠ .delivery (.ok events)) :
    Effect op reply id entry entry' (eventsAbout id reply.events) := by
  rw [hentry, hevents]
  exact .untouched hack

/-- A call that acts on one entry only has an effect on every identifier. -/
theorem effect_of_local {op : Op} {reply : Reply} (id₀ : MessageId)
    {before after : OrdMap MessageId PendingDelivery}
    (habout : ∀ event ∈ reply.events, about event = some id₀)
    (hsame : ∀ id, id ≠ id₀ → after.get? id = before.get? id)
    (hack : ∀ id, id ≠ id₀ → ∀ peer policy, op ≠ .acknowledge peer id policy)
    (hself : Effect op reply id₀ (before.get? id₀) (after.get? id₀) reply.events) (id : MessageId) :
    Effect op reply id (before.get? id) (after.get? id) (eventsAbout id reply.events) := by
  by_cases hid : id = id₀
  · subst hid
    rwa [eventsAbout_self habout]
  · rw [eventsAbout_other hid habout, hsame id hid]
    exact .untouched fun peer policy _ hop => absurd hop (hack id hid peer policy)

/-- The outcome reported for one entry when `peer` leaves. -/
def lostEvents (peer : PeerId) (id : MessageId) (pending : PendingDelivery) : List DeliveryEvent :=
  if pending.recipients.contains peer then [.result pending.sender id .recipientDisconnected] else []

theorem affected_events (broker : Broker P) (peer : PeerId) :
    ((broker.affected peer).map fun a => DeliveryEvent.result a.2 a.1 .recipientDisconnected) =
      broker.deliveries.entries.flatMap fun e => lostEvents peer e.1 e.2 := by
  unfold affected
  induction broker.deliveries.entries with
  | nil => rfl
  | cons e es ih =>
    rw [List.flatMap_cons, ← ih]
    cases hrec : e.2.recipients.contains peer with
    | true => simp [lostEvents, hrec]
    | false => simp [lostEvents, hrec]

variable [Policy P]

theorem disconnect_effect (broker : Broker P) (peer : PeerId) (id : MessageId) :
    Effect (.disconnect peer) (exec broker (.disconnect peer)).2 id (broker.deliveries.get? id)
      ((exec broker (.disconnect peer)).1.deliveries.get? id)
      (eventsAbout id (exec broker (.disconnect peer)).2.events) := by
  have hack : ∀ p policy events, Op.disconnect peer = .acknowledge p id policy →
      (exec broker (.disconnect peer)).2 ≠ .delivery (.ok events) := fun _ _ _ h => by cases h
  rcases disconnectWithEvents_cases broker peer with ⟨-, h⟩ | ⟨-, h⟩
  · exact effect_of_unchanged (by simp [exec, h]) (by simp [exec, h, Reply.events]) hack
  have hevents : eventsAbout id (exec broker (.disconnect peer)).2.events =
      (broker.deliveries.get? id).elim [] (lostEvents peer id) := by
    have hall := OrdMap.flatMap_filter_key broker.deliveries (lostEvents peer) id
      (fun event => about event = some id) fun id' pending _ event hmem => by
        unfold lostEvents at hmem
        split_ifs at hmem with hrec
        · rw [List.mem_singleton.mp hmem]
          simp [about]
        · cases hmem
    rw [← hall, ← affected_events]
    simp [exec, h, Reply.events, eventsAbout]
  have hafter : (exec broker (.disconnect peer)).1.deliveries.get? id =
      (broker.deliveries.get? id).filter fun pending => !pending.recipients.contains peer := by
    simp [exec, h, remaining]
  rw [hevents, hafter]
  cases hget : broker.deliveries.get? id with
  | none => exact .untouched hack
  | some pending =>
    cases hrec : pending.recipients.contains peer with
    | true =>
      have hlost : Effect (.disconnect peer) (exec broker (.disconnect peer)).2 id (some pending) none
          [.result pending.sender id .recipientDisconnected] := .recipientLost rfl hrec
      simpa [lostEvents, hrec, Option.filter] using hlost
    | false =>
      have hkept : Effect (.disconnect peer) (exec broker (.disconnect peer)).2 id (some pending)
          (some pending) [] := .untouched hack
      simpa [lostEvents, hrec, Option.filter] using hkept

/-- `tick` repeats a message at most once, so the order of its repeated deliveries is no matter. -/
theorem eq_of_perm_tickRetries {nowMs : UInt64} {pending : PendingDelivery} {l : List DeliveryEvent}
    (h : l.Perm ((tickRetries nowMs pending).map Prod.snd)) : l = (tickRetries nowMs pending).map Prod.snd := by
  unfold tickRetries at h ⊢
  split at h
  · exact List.perm_singleton.mp h
  · exact h.eq_nil
  · exact h.eq_nil
  · exact h.eq_nil

theorem tick_effect (hentries : Entries broker)
    (nowMs : UInt64) (id : MessageId) :
    Effect (.tick nowMs) (exec broker (.tick nowMs)).2 id (broker.deliveries.get? id)
      ((exec broker (.tick nowMs)).1.deliveries.get? id)
      (eventsAbout id (exec broker (.tick nowMs)).2.events) := by
  have hevents : eventsAbout id (exec broker (.tick nowMs)).2.events =
      (broker.deliveries.get? id).elim [] fun pending =>
        tickOutcomes nowMs id pending ++ (tickRetries nowMs pending).map Prod.snd := by
    obtain ⟨repeated, htick, hperm⟩ := tick_events broker nowMs
    have houtcomes := OrdMap.flatMap_filter_key broker.deliveries (tickOutcomes nowMs) id
      (fun event => about event = some id) fun id' pending _ event hmem => by
        simp [about_tickOutcomes event hmem]
    have hretries := OrdMap.flatMap_filter_key broker.deliveries
      (fun _ pending => (tickRetries nowMs pending).map Prod.snd) id
      (fun event => about event = some id) fun id' pending hget event hmem => by
        simp [about_tickRetries (hentries id' pending hget) event hmem]
    change eventsAbout id (broker.tick nowMs).2 = _
    rw [htick, eventsAbout_append, eventsAbout, houtcomes]
    have hfilter := hperm.filter fun event => about event = some id
    rw [hretries] at hfilter
    cases hget : broker.deliveries.get? id with
    | none =>
      rw [hget] at hfilter
      simpa [eventsAbout] using hfilter.eq_nil
    | some pending =>
      rw [hget] at hfilter
      have hrepeated : eventsAbout id repeated = (tickRetries nowMs pending).map Prod.snd :=
        eq_of_perm_tickRetries hfilter
      rw [hrepeated]
      rfl
  have hafter : (exec broker (.tick nowMs)).1.deliveries.get? id =
      (broker.deliveries.get? id).bind (afterTick nowMs) := tick_deliveries broker nowMs id
  rw [hevents, hafter]
  cases hget : broker.deliveries.get? id with
  | none => exact .untouched fun _ _ _ h => by cases h
  | some pending => exact .ticked rfl

theorem acknowledge_effect (broker : Broker P) (peer : PeerId) (messageId : MessageId) (policy : AckPolicy)
    (id : MessageId) :
    Effect (.acknowledge peer messageId policy) (exec broker (.acknowledge peer messageId policy)).2 id
      (broker.deliveries.get? id)
      ((exec broker (.acknowledge peer messageId policy)).1.deliveries.get? id)
      (eventsAbout id (exec broker (.acknowledge peer messageId policy)).2.events) := by
  rcases acknowledge_cases broker peer messageId policy with
    ⟨error, h⟩ | ⟨pending, m, outcome, hack, -, hdeliveries, hresult⟩
  · refine effect_of_unchanged (by simp [exec, h]) (by simp [exec, h, Reply.events]) ?_
    intro _ _ _ _ hreply
    simp [exec, h] at hreply
  have hreply : (exec broker (.acknowledge peer messageId policy)).2 = .delivery (.ok
      (if ackCompletes pending m peer then [.result pending.sender messageId outcome] else [])) := by
    rw [← hresult]
    rfl
  have hafter : (exec broker (.acknowledge peer messageId policy)).1.deliveries =
      afterAck broker messageId pending m peer := hdeliveries
  rw [hreply, hafter]
  refine effect_of_local messageId ?_ ?_ ?_ ?_ id
  · intro event hmem
    change event ∈ ite _ _ _ at hmem
    split_ifs at hmem with hcomplete
    · rw [List.mem_singleton.mp hmem]
      rfl
    · cases hmem
  · intro id' hid'
    unfold afterAck
    split_ifs <;> simp [hid']
  · intro id' hid' p pol hop
    cases hop
    exact hid' rfl
  · have hself : (afterAck broker messageId pending m peer).get? messageId =
        if ackCompletes pending m peer ∧ m.kind ≠ .request then none else some (recordAck pending m peer) := by
      unfold afterAck
      split_ifs <;> simp
    rw [hack.found, hself]
    exact .acknowledged rfl rfl hack.message hack.recipient hack.stage hack.outcome

theorem completeResponse_effect
    (hentries : Entries broker)
    {sender : PeerId} {response : Message} {nowMs : UInt64} (hkind : response.kind = .response)
    (hbegin : broker.beginDelivery sender (.message response) nowMs =
      broker.completeResponse sender (.message response)) (id : MessageId) :
    Effect (.beginDelivery sender (.message response) nowMs)
      (exec broker (.beginDelivery sender (.message response) nowMs)).2 id (broker.deliveries.get? id)
      ((exec broker (.beginDelivery sender (.message response) nowMs)).1.deliveries.get? id)
      (eventsAbout id (exec broker (.beginDelivery sender (.message response) nowMs)).2.events) := by
  rcases completeResponse_cases broker sender response with ⟨error, h⟩ | ⟨pending, request, hexp, h⟩
  · exact effect_of_unchanged (by simp [exec, hbegin, h]) (by simp [exec, hbegin, h, Reply.events])
      fun _ _ _ hop => by cases hop
  have hevents : (exec broker (.beginDelivery sender (.message response) nowMs)).2.events =
      (forwarded pending request sender response).toList.map
        fun message => .deliver sender [pending.sender] message := by
    simp [exec, hbegin, h, Reply.events]
  refine effect_of_local response.correlationId ?_ ?_ ?_ ?_ id
  · rw [hevents]
    exact about_forwarded (hentries _ _ hexp.found) hkind rfl
  · intro id' hid'
    simp only [exec, hbegin, h, Prod.map_fst, id_eq]
    split_ifs <;> simp [hid']
  · intro _ _ _ _ hop
    cases hop
  · have hself : (exec broker (.beginDelivery sender (.message response) nowMs)).1.deliveries.get?
        response.correlationId = if completesRequest pending request sender response then none
          else some { pending with responses := addResponse pending sender response } := by
      simp only [exec, hbegin, h, Prod.map_fst, id_eq]
      split_ifs <;> simp
    have hreply : ∃ events, (exec broker (.beginDelivery sender (.message response) nowMs)).2 =
        .delivery (.ok events) := by
      simp [exec, hbegin, h]
    rw [hevents, hexp.found, hself]
    exact .answered ⟨rfl, hreply⟩ hkind rfl hexp.message hexp.kind hexp.recipient hexp.unanswered

/-- A message that is not retained is the business of its own identifier only. -/
theorem passed_effect {sender : PeerId} {m : Message} {nowMs : UInt64} {broker' : Broker P}
    {events : List DeliveryEvent} (hkind : m.kind ≠ .response)
    (hfresh : broker.deliveries.get? m.messageId = none)
    (hbegin : broker.beginDelivery sender (.message m) nowMs = (broker', .ok events))
    (hdeliveries : broker'.deliveries = broker.deliveries)
    (hevents : events = [.result sender m.messageId .noRecipient] ∨
      ∃ recipients, events = acceptedEvents sender m recipients) (id : MessageId) :
    Effect (.beginDelivery sender (.message m) nowMs)
      (exec broker (.beginDelivery sender (.message m) nowMs)).2 id (broker.deliveries.get? id)
      ((exec broker (.beginDelivery sender (.message m) nowMs)).1.deliveries.get? id)
      (eventsAbout id (exec broker (.beginDelivery sender (.message m) nowMs)).2.events) := by
  have hexec : exec broker (.beginDelivery sender (.message m) nowMs) = (broker', .delivery (.ok events)) := by
    simp [exec, hbegin]
  rw [hexec]
  refine effect_of_local m.messageId ?_ ?_ ?_ ?_ id
  · intro event hmem
    change event ∈ events at hmem
    rcases hevents with rfl | ⟨recipients, rfl⟩
    · rw [List.mem_singleton.mp hmem]
      rfl
    · exact about_acceptedEvents hkind event hmem
  · intro id' _
    rw [hdeliveries]
  · intro _ _ _ _ hop
    cases hop
  · rw [hdeliveries, hfresh]
    exact .passed ⟨rfl, _, rfl⟩ hkind rfl hevents

theorem retained_effect {sender : PeerId} {m : Message} {recipients : OrdSet PeerId} {priority : UInt8}
    {nowMs deadlineMs : UInt64} {broker' : Broker P} (hkind : m.kind ≠ .response)
    (hfresh : broker.deliveries.get? m.messageId = none) (htracked : isTracked m = true)
    (hbegin : broker.beginDelivery sender (.message m) nowMs =
      (broker', .ok (acceptedEvents sender m recipients)))
    (hdeliveries : broker'.deliveries = broker.deliveries.insert m.messageId
      (newPending sender m recipients deadlineMs nowMs priority)) (id : MessageId) :
    Effect (.beginDelivery sender (.message m) nowMs)
      (exec broker (.beginDelivery sender (.message m) nowMs)).2 id (broker.deliveries.get? id)
      ((exec broker (.beginDelivery sender (.message m) nowMs)).1.deliveries.get? id)
      (eventsAbout id (exec broker (.beginDelivery sender (.message m) nowMs)).2.events) := by
  have hexec : exec broker (.beginDelivery sender (.message m) nowMs) =
      (broker', .delivery (.ok (acceptedEvents sender m recipients))) := by
    simp [exec, hbegin]
  rw [hexec]
  refine effect_of_local m.messageId ?_ ?_ ?_ ?_ id
  · exact about_acceptedEvents hkind
  · intro id' hid'
    rw [hdeliveries]
    simp [hid']
  · intro _ _ _ _ hop
    cases hop
  · rw [hdeliveries, hfresh, OrdMap.get?_insert, if_pos rfl]
    exact .inserted ⟨rfl, _, rfl⟩ hkind rfl htracked

theorem beginDelivery_effect
    (hentries : Entries broker) (sender : PeerId) (message : Frame) (nowMs : UInt64) (id : MessageId) :
    Effect (.beginDelivery sender message nowMs) (exec broker (.beginDelivery sender message nowMs)).2 id
      (broker.deliveries.get? id)
      ((exec broker (.beginDelivery sender message nowMs)).1.deliveries.get? id)
      (eventsAbout id (exec broker (.beginDelivery sender message nowMs)).2.events) := by
  rcases beginDelivery_cases broker sender message nowMs with
    ⟨error, h⟩ | ⟨m, priority, rfl, -, hkind, h⟩ | ⟨m, priority, rfl, -, hkind, hfresh, h⟩ |
      ⟨m, priority, recipients, rfl, hrouted, h⟩
  · exact effect_of_unchanged (by simp [exec, h]) (by simp [exec, h, Reply.events])
      fun _ _ _ hop => by cases hop
  · exact completeResponse_effect hentries hkind h id
  · exact passed_effect hkind hfresh h rfl (.inl rfl) id
  · have hdeliveries := recordRouting_deliveries broker sender m (OrdSet.ofList recipients)
    rcases deliverRouted_cases broker sender m (OrdSet.ofList recipients) priority nowMs with
      ⟨-, h'⟩ | ⟨-, h'⟩ | ⟨-, error, -, h'⟩ | ⟨deadlineMs, hretained, h'⟩
    · exact passed_effect hrouted.kind hrouted.fresh (h.trans h') hdeliveries (.inl rfl) id
    · exact passed_effect hrouted.kind hrouted.fresh (h.trans h') hdeliveries (.inr ⟨_, rfl⟩) id
    · exact effect_of_unchanged (by simp [exec, h, h']) (by simp [exec, h, h', Reply.events])
        fun _ _ _ hop => by cases hop
    · exact retained_effect hrouted.kind hrouted.fresh hretained.tracked (h.trans h') rfl id

/-- What any call does to the entry of any identifier, and the events about it. -/
theorem exec_effect (hentries : Entries broker)
    (op : Op) (id : MessageId) :
    Effect op (exec broker op).2 id (broker.deliveries.get? id) ((exec broker op).1.deliveries.get? id)
      (eventsAbout id (exec broker op).2.events) := by
  cases op with
  | connect credentials hello =>
    refine effect_of_unchanged ?_ rfl fun _ _ _ hop => by cases hop
    rcases connectSession_cases broker credentials hello with ⟨error, h⟩ | ⟨_, _, -, h⟩
    · simp [exec, h]
    · simp only [exec, h]
      rfl
  | disconnect peer => exact disconnect_effect broker peer id
  | claim peer ns =>
    refine effect_of_unchanged ?_ rfl fun _ _ _ hop => by cases hop
    rcases claim_cases broker peer ns with ⟨error, h⟩ | ⟨-, -, h⟩
    · simp [exec, h]
    · simp only [exec, h]
      rfl
  | subscribe peer channel filters =>
    refine effect_of_unchanged ?_ rfl fun _ _ _ hop => by cases hop
    rcases subscribeWithFilters_cases broker peer channel filters with ⟨error, h⟩ | ⟨-, h⟩
    · simp [exec, h]
    · simp only [exec, h]
      rfl
  | unsubscribe peer channel =>
    refine effect_of_unchanged ?_ rfl fun _ _ _ hop => by cases hop
    rcases unsubscribe_cases broker peer channel with ⟨result, h⟩ | ⟨subscribers, -, h⟩
    · simp [exec, h]
    · simp [exec, h]
  | registerDbusName peer name =>
    refine effect_of_unchanged ?_ rfl fun _ _ _ hop => by cases hop
    rcases registerDbusName_cases broker peer name with ⟨error, h⟩ | ⟨-, h⟩
    · simp [exec, h]
    · simp [exec, h]
  | beginDelivery sender message nowMs => exact beginDelivery_effect hentries sender message nowMs id
  | acknowledge peer messageId policy => exact acknowledge_effect broker peer messageId policy id
  | tick nowMs => exact tick_effect hentries nowMs id
  | drainEvents => exact effect_of_unchanged rfl rfl fun _ _ _ hop => by cases hop

theorem exec_about (hentries : Entries broker) (op : Op) :
    ∀ event ∈ (exec broker op).2.events, ∃ id, about event = some id := by
  intro event hmem
  cases op with
  | disconnect peer =>
    rcases disconnectWithEvents_cases broker peer with ⟨-, h⟩ | ⟨-, h⟩
    · simp [exec, h, Reply.events] at hmem
    · simp only [exec, h, Prod.map_snd, Reply.events, List.mem_map] at hmem
      obtain ⟨a, -, rfl⟩ := hmem
      exact ⟨_, rfl⟩
  | beginDelivery sender message nowMs =>
    rcases beginDelivery_cases broker sender message nowMs with
      ⟨error, h⟩ | ⟨m, _, rfl, -, hkind, h⟩ | ⟨m, _, rfl, -, hkind, -, h⟩ |
        ⟨m, priority, recipients, rfl, hrouted, h⟩
    · simp [exec, h, Reply.events] at hmem
    · rcases completeResponse_cases broker sender m with ⟨error, hc⟩ | ⟨pending, request, hexp, hc⟩
      · simp [exec, h, hc, Reply.events] at hmem
      · simp only [exec, h, hc, Prod.map_snd, Reply.events] at hmem
        exact ⟨_, about_forwarded (hentries _ _ hexp.found) hkind rfl event hmem⟩
    · simp only [exec, h, Prod.map_snd, Reply.events, List.mem_singleton] at hmem
      rw [hmem]
      exact ⟨_, rfl⟩
    · rcases deliverRouted_cases broker sender m (OrdSet.ofList recipients) priority nowMs with
        ⟨-, hd⟩ | ⟨-, hd⟩ | ⟨-, error, -, hd⟩ | ⟨deadlineMs, -, hd⟩
      · simp only [exec, h, hd, Prod.map_snd, Reply.events, List.mem_singleton] at hmem
        rw [hmem]
        exact ⟨_, rfl⟩
      · simp only [exec, h, hd, Prod.map_snd, Reply.events] at hmem
        exact ⟨_, about_acceptedEvents hrouted.kind event hmem⟩
      · simp [exec, h, hd, Reply.events] at hmem
      · simp only [exec, h, hd, Prod.map_snd, Reply.events] at hmem
        exact ⟨_, about_acceptedEvents hrouted.kind event hmem⟩
  | acknowledge peer messageId policy =>
    rcases acknowledge_cases broker peer messageId policy with ⟨error, h⟩ | ⟨_, _, _, -, -, -, h⟩
    · simp [exec, h, Reply.events] at hmem
    · simp only [exec, h, Prod.map_snd, Reply.events] at hmem
      split_ifs at hmem
      · rw [List.mem_singleton.mp hmem]
        exact ⟨_, rfl⟩
      · cases hmem
  | tick nowMs =>
    obtain ⟨repeated, htick, hperm⟩ := tick_events broker nowMs
    change event ∈ (broker.tick nowMs).2 at hmem
    rw [htick, List.mem_append, hperm.mem_iff, List.mem_flatMap, List.mem_flatMap] at hmem
    rcases hmem with ⟨e, -, he⟩ | ⟨e, hentry, he⟩
    · exact ⟨_, about_tickOutcomes event he⟩
    · exact ⟨_, about_tickRetries (hentries e.1 e.2 (OrdMap.mem_entries_iff.mp hentry)) event he⟩
  | _ => cases hmem

theorem eq_of_mem_tickRetries {nowMs : UInt64} {pending : PendingDelivery} {event : DeliveryEvent}
    (h : event ∈ (tickRetries nowMs pending).map Prod.snd) : event = redelivery pending := by
  unfold tickRetries at h
  split at h
  · exact List.mem_singleton.mp h
  · cases h
  · cases h
  · cases h

theorem deliver_of_mem_acceptedEvents {caller sender : PeerId} {m : Message} {selected : OrdSet PeerId}
    {recipients : List PeerId} {frame : Frame} (h : .deliver sender recipients frame ∈ acceptedEvents caller m selected) :
    sender = caller ∧ recipients = selected.keys ∧ frame = .message m := by
  unfold acceptedEvents at h
  rcases List.mem_cons.mp h with heq | h
  · cases heq
    exact ⟨rfl, rfl, rfl⟩
  · split_ifs at h
    · cases List.mem_singleton.mp h
    · cases h

/-- A delivery is a message just routed, a message repeated by the clock, or an answer. -/
theorem deliver_cases {op : Op} {sender : PeerId} {recipients : List PeerId} {frame : Frame}
    (h : .deliver sender recipients frame ∈ (exec broker op).2.events) :
    (∃ m nowMs priority selected, op = .beginDelivery sender (.message m) nowMs ∧ frame = .message m ∧
        Routed broker sender m priority selected ∧ recipients = (OrdSet.ofList selected).keys) ∨
      (∃ nowMs id pending, op = .tick nowMs ∧ broker.deliveries.get? id = some pending ∧
        DeliveryEvent.deliver sender recipients frame = redelivery pending) ∨
      ∃ response nowMs pending request, op = .beginDelivery sender (.message response) nowMs ∧
        response.kind = .response ∧ Expected broker sender response pending request ∧
        recipients = [pending.sender] ∧ forwarded pending request sender response = some frame := by
  cases op with
  | disconnect peer =>
    rcases disconnectWithEvents_cases broker peer with ⟨-, hd⟩ | ⟨-, hd⟩
    · simp [exec, hd, Reply.events] at h
    · simp only [exec, hd, Prod.map_snd, Reply.events, List.mem_map] at h
      obtain ⟨a, -, heq⟩ := h
      cases heq
  | beginDelivery caller message nowMs =>
    rcases beginDelivery_cases broker caller message nowMs with
      ⟨error, hb⟩ | ⟨m, _, rfl, -, hkind, hb⟩ | ⟨m, _, rfl, -, -, -, hb⟩ |
        ⟨m, priority, selected, rfl, hrouted, hb⟩
    · simp [exec, hb, Reply.events] at h
    · rcases completeResponse_cases broker caller m with ⟨error, hc⟩ | ⟨pending, request, hexpected, hc⟩
      · simp [exec, hb, hc, Reply.events] at h
      · simp only [exec, hb, hc, Prod.map_snd, Reply.events] at h
        obtain ⟨forward, hforward, heq⟩ := List.mem_map.mp h
        cases heq
        exact .inr (.inr ⟨m, nowMs, pending, request, rfl, hkind, hexpected, rfl, Option.mem_toList.mp hforward⟩)
    · simp [exec, hb, Reply.events] at h
    · have haccepted : .deliver sender recipients frame ∈ acceptedEvents caller m (OrdSet.ofList selected) := by
        rcases deliverRouted_cases broker caller m (OrdSet.ofList selected) priority nowMs with
          ⟨-, hd⟩ | ⟨-, hd⟩ | ⟨-, error, -, hd⟩ | ⟨deadlineMs, -, hd⟩
        · simp [exec, hb, hd, Reply.events] at h
        · simpa only [exec, hb, hd, Prod.map_snd, Reply.events] using h
        · simp [exec, hb, hd, Reply.events] at h
        · simpa only [exec, hb, hd, Prod.map_snd, Reply.events] using h
      obtain ⟨rfl, hrecipients, hframe⟩ := deliver_of_mem_acceptedEvents haccepted
      exact .inl ⟨m, nowMs, priority, selected, rfl, hframe, hrouted, hrecipients⟩
  | acknowledge peer messageId policy =>
    rcases acknowledge_cases broker peer messageId policy with ⟨error, ha⟩ | ⟨_, _, _, -, -, -, ha⟩
    · simp [exec, ha, Reply.events] at h
    · simp only [exec, ha, Prod.map_snd, Reply.events] at h
      split_ifs at h
      · cases List.mem_singleton.mp h
      · cases h
  | tick nowMs =>
    obtain ⟨repeated, htick, hperm⟩ := tick_events broker nowMs
    change _ ∈ (broker.tick nowMs).2 at h
    rw [htick, List.mem_append, hperm.mem_iff, List.mem_flatMap, List.mem_flatMap] at h
    rcases h with ⟨e, -, he⟩ | ⟨e, hentry, he⟩
    · unfold tickOutcomes at he
      split at he
      · cases List.mem_singleton.mp he
      · cases List.mem_singleton.mp he
      · cases he
      · cases he
    · exact .inr (.inl ⟨nowMs, e.1, e.2, rfl, OrdMap.mem_entries_iff.mp hentry, eq_of_mem_tickRetries he⟩)
  | _ => cases h

theorem submits_of_events {sender : PeerId} {m : Message} {nowMs : UInt64} {event : DeliveryEvent}
    (h : event ∈ (exec broker (.beginDelivery sender (.message m) nowMs)).2.events) :
    Submits sender m nowMs (.beginDelivery sender (.message m) nowMs)
      (exec broker (.beginDelivery sender (.message m) nowMs)).2 := by
  refine ⟨rfl, ?_⟩
  cases hresult : (broker.beginDelivery sender (.message m) nowMs).2 with
  | ok events => exact ⟨events, by simp [exec, hresult]⟩
  | error error =>
    simp only [exec, Prod.map_snd, hresult, Reply.events] at h
    cases h

theorem Submits.admitted {sender : PeerId} {m : Message} {nowMs : UInt64} {op : Op}
    (h : Submits sender m nowMs op (exec broker op).2) : ∃ priority, Admitted broker sender m priority := by
  obtain ⟨rfl, events, hreply⟩ := h
  have hok : (broker.beginDelivery sender (.message m) nowMs).2 = .ok events := Reply.delivery.inj hreply
  obtain ⟨_, priority, heq, hadmitted⟩ := admitted_of_beginDelivery hok
  cases heq
  exact ⟨priority, hadmitted⟩

/-! ## Entries that appear and entries that stay -/

/-- A call under which an entry appears is the `begin_delivery` that retains it. -/
theorem inserted_spec (hentries : Entries broker) {op : Op} {id : MessageId} {pending : PendingDelivery}
    (hfresh : broker.deliveries.get? id = none) (hafter : (exec broker op).1.deliveries.get? id = some pending) :
    ∃ sender m nowMs priority recipients deadlineMs, op = .beginDelivery sender (.message m) nowMs ∧
      m.messageId = id ∧ Routed broker sender m priority recipients ∧
      Retained broker sender m (OrdSet.ofList recipients) nowMs deadlineMs ∧
      pending = newPending sender m (OrdSet.ofList recipients) deadlineMs nowMs priority ∧
      (exec broker op).2 = .delivery (.ok (acceptedEvents sender m (OrdSet.ofList recipients))) := by
  have heffect := exec_effect hentries op id
  rw [hfresh, hafter] at heffect
  generalize eventsAbout id _ = events at heffect
  cases heffect with
  | @inserted sender m _ nowMs _ _ hcall hkind hid htracked =>
    obtain ⟨rfl, -⟩ := hcall
    rcases beginDelivery_cases broker sender (.message m) nowMs with
      ⟨error, h⟩ | ⟨_, _, heq, -, hresponse, -⟩ | ⟨_, _, -, -, -, -, h⟩ |
        ⟨_, priority, recipients, heq, hrouted, h⟩
    · rw [show (exec broker (.beginDelivery sender (.message m) nowMs)).1 = broker by simp [exec, h],
        hfresh] at hafter
      cases hafter
    · cases heq
      exact absurd hresponse hkind
    · rw [show (exec broker (.beginDelivery sender (.message m) nowMs)).1 = broker by simp [exec, h],
        hfresh] at hafter
      cases hafter
    · cases heq
      have hsame : ∀ result, broker.deliverRouted sender m (OrdSet.ofList recipients) priority nowMs =
          (broker.recordRouting sender m (OrdSet.ofList recipients), result) → False := by
        intro result h'
        rw [show (exec broker (.beginDelivery sender (.message m) nowMs)).1 =
          broker.recordRouting sender m (OrdSet.ofList recipients) by simp [exec, h, h'],
          recordRouting_deliveries, hfresh] at hafter
        cases hafter
      rcases deliverRouted_cases broker sender m (OrdSet.ofList recipients) priority nowMs with
        ⟨-, h'⟩ | ⟨-, h'⟩ | ⟨-, error, -, h'⟩ | ⟨deadlineMs, hretained, h'⟩
      · exact (hsame _ h').elim
      · exact (hsame _ h').elim
      · exact (hsame _ h').elim
      · have hget : (exec broker (.beginDelivery sender (.message m) nowMs)).1.deliveries.get? id =
            some (newPending sender m (OrdSet.ofList recipients) deadlineMs nowMs priority) := by
          simp [exec, h, h', hid]
        rw [hget] at hafter
        exact ⟨sender, m, nowMs, priority, recipients, deadlineMs, rfl, hid, hrouted, hretained,
          (Option.some.inj hafter).symm, by simp [exec, h, h']⟩

structure SameDelivery (before after : PendingDelivery) : Prop where
  sender : after.sender = before.sender
  message : after.message = before.message
  recipients : after.recipients = before.recipients

theorem SameDelivery.refl (pending : PendingDelivery) : SameDelivery pending pending := ⟨rfl, rfl, rfl⟩

theorem SameDelivery.trans {a b c : PendingDelivery} (h : SameDelivery a b) (h' : SameDelivery b c) :
    SameDelivery a c :=
  ⟨h'.sender.trans h.sender, h'.message.trans h.message, h'.recipients.trans h.recipients⟩

/-- `tick` changes the schedule of an entry that stays, and nothing else of it. -/
theorem afterTick_eq_some {nowMs : UInt64} {pending pending' : PendingDelivery}
    (h : afterTick nowMs pending = some pending') :
    pending' = { pending with attempts := pending'.attempts, nextRetryMs := pending'.nextRetryMs } := by
  unfold afterTick tickResult at h
  split at h
  · cases h
    rfl
  · cases h
  · cases h
  · next updated hresult =>
    cases h
    split_ifs at hresult
    split at hresult
    · cases hresult
    · split_ifs at hresult
      cases hresult
      rfl

theorem Effect.sameDelivery {op : Op} {reply : Reply} {id : MessageId} {pending pending' : PendingDelivery}
    {events : List DeliveryEvent} (h : Effect op reply id (some pending) (some pending') events) :
    SameDelivery pending pending' := by
  generalize hafter : some pending' = after at h
  cases h with
  | untouched _ =>
    cases hafter
    exact .refl _
  | acknowledged _ _ _ _ _ _ =>
    split_ifs at hafter
    cases hafter
    exact ⟨rfl, rfl, rfl⟩
  | answered _ _ _ _ _ _ _ =>
    split_ifs at hafter
    cases hafter
    exact ⟨rfl, rfl, rfl⟩
  | ticked _ =>
    rw [afterTick_eq_some hafter.symm]
    exact ⟨rfl, rfl, rfl⟩
  | recipientLost _ _ => cases hafter

/-- What becomes of a property of the static part of entries under one call. -/
theorem exec_static {Q : MessageId → PendingDelivery → Prop} (hentries : Entries broker)
    (hQ : ∀ id a b, SameDelivery a b → Q id a → Q id b) {op : Op}
    (hbefore : ∀ id pending, broker.deliveries.get? id = some pending → Q id pending)
    (hnew : ∀ id pending, broker.deliveries.get? id = none →
      (exec broker op).1.deliveries.get? id = some pending → Q id pending) :
    ∀ id pending, (exec broker op).1.deliveries.get? id = some pending → Q id pending := by
  intro id pending hget
  cases hold : broker.deliveries.get? id with
  | none => exact hnew id pending hold hget
  | some old =>
    have heffect := exec_effect hentries op id
    rw [hold, hget] at heffect
    exact hQ id old pending heffect.sameDelivery (hbefore id old hold)

/-! ## Entries along a run -/

theorem Effect.entry {op : Op} {reply : Reply} {id : MessageId} {before after : Option PendingDelivery}
    {events : List DeliveryEvent} (h : Effect op reply id before after events)
    (hbefore : ∀ pending, before = some pending → Entry id pending) :
    ∀ pending, after = some pending → Entry id pending := by
  intro entry hafter
  cases h with
  | untouched _ => exact hbefore entry hafter
  | passed _ _ _ _ => cases hafter
  | @inserted sender m _ _ _ _ hcall hkind hid htracked =>
    cases hafter
    exact ⟨⟨m, rfl, hid, hkind, htracked⟩, fun peer frame hget => by cases hget⟩
  | @acknowledged pending m peer _ _ _ hop hreply hmessage hrecipient hstage houtcome =>
    split_ifs at hafter with hremove
    cases hafter
    exact ⟨(hbefore pending rfl).message, (hbefore pending rfl).responses⟩
  | @answered pending request response sender nowMs hcall hkind hid hmessage hrequest hrecipient hfirst =>
    split_ifs at hafter with hcomplete
    cases hafter
    refine ⟨(hbefore pending rfl).message, fun peer frame hget => ?_⟩
    change (addResponse pending sender response).get? peer = some frame at hget
    unfold addResponse at hget
    rw [OrdMap.get?_insert] at hget
    split_ifs at hget with hpeer
    · cases hget
      exact ⟨response, rfl, hkind, hid⟩
    · exact (hbefore pending rfl).responses peer frame hget
  | @ticked pending nowMs hop =>
    rw [afterTick_eq_some hafter]
    exact ⟨(hbefore pending rfl).message, (hbefore pending rfl).responses⟩
  | recipientLost _ _ => cases hafter

theorem exec_entries (broker : Broker P) (op : Op) (h : Entries broker) : Entries (exec broker op).1 :=
  fun id pending hget => (exec_effect h op id).entry (h id) pending hget

omit [Policy P] in
theorem entries_empty (policy : P) (limits : Limits) (capabilities : Capabilities) :
    Entries (Broker.empty policy limits capabilities) :=
  fun _ _ hget => by cases hget

theorem run_entries {b b' : Broker P} {history : List (Op × Reply)} (hrun : Run exec b history b')
    (h : Entries b) : Entries b' :=
  hrun.invariant exec_entries h

end Busd.Broker
