import Busd.Broker.Effects
import Busd.Protocol.Decode
import Busd.Protocol.Encode

/-!
# The life of a retained delivery

A delivery is retained by one `begin_delivery`, stays the same delivery while it is pending, and leaves
with exactly one completion event.

* `WhilePending` : the events a pending delivery may give rise to;
* `Completion` : the events that may end it;
* `Effect.whilePending`, `Effect.completion`, `Effect.absent` : one call, by the state of the entry;
* `pends_of_runIn` : a run through states in which it is pending;
* `delivery_life` : every run.
-/

namespace Busd.Broker

open Words Machine Busd.Protocol Busd.Policy

/-! ## Events -/

def isAckOutcome : DeliveryOutcome → Bool
  | .received | .processed => true
  | _ => false

def isFailure : DeliveryOutcome → Bool
  | .timeout | .deliveryFailed | .recipientDisconnected => true
  | _ => false

def isAckResult : DeliveryEvent → Bool
  | .result _ _ outcome => isAckOutcome outcome
  | .deliver .. => false

inductive WhilePending (id : MessageId) (pending : PendingDelivery) : DeliveryEvent → Prop
  /-- The message itself, first or again. -/
  | message (recipients : List PeerId) :
      WhilePending id pending (.deliver pending.sender recipients pending.message)
  /-- A request waits for its responses after it was acknowledged. -/
  | acknowledged {outcome : DeliveryOutcome} (hrequest : isRequest pending.message = true)
      (houtcome : isAckOutcome outcome = true) :
      WhilePending id pending (.result pending.sender id outcome)
  /-- An earlier response, when the requester asked for all of them. -/
  | response {request response : Message} {responder : PeerId} (hmessage : pending.message = .message request)
      (hrequest : request.kind = .request) (hall : request.requestPolicy = .all)
      (hkind : response.kind = .response) (hid : response.correlationId = id) :
      WhilePending id pending (.deliver responder [pending.sender] (.message response))

inductive Completion (id : MessageId) (pending : PendingDelivery) : DeliveryEvent → Prop
  | acknowledged {outcome : DeliveryOutcome} (hrequest : isRequest pending.message = false)
      (houtcome : isAckOutcome outcome = true) : Completion id pending (.result pending.sender id outcome)
  | failed {outcome : DeliveryOutcome} (houtcome : isFailure outcome = true) :
      Completion id pending (.result pending.sender id outcome)
  | answered {response : Message} {responder : PeerId} (hrequest : isRequest pending.message = true)
      (hkind : response.kind = .response) (hid : response.correlationId = id) :
      Completion id pending (.deliver responder [pending.sender] (.message response))

theorem WhilePending.of_same {id : MessageId} {a b : PendingDelivery} (h : SameDelivery a b)
    {event : DeliveryEvent} (hb : WhilePending id b event) : WhilePending id a event := by
  cases hb with
  | message recipients =>
    rw [h.sender, h.message]
    exact .message recipients
  | acknowledged hrequest houtcome =>
    rw [h.sender]
    exact .acknowledged (h.message ▸ hrequest) houtcome
  | response hmessage hrequest hall hkind hid =>
    rw [h.sender]
    exact .response (h.message ▸ hmessage) hrequest hall hkind hid

theorem Completion.of_same {id : MessageId} {a b : PendingDelivery} (h : SameDelivery a b)
    {event : DeliveryEvent} (hb : Completion id b event) : Completion id a event := by
  cases hb with
  | acknowledged hrequest houtcome =>
    rw [h.sender]
    exact .acknowledged (h.message ▸ hrequest) houtcome
  | failed houtcome =>
    rw [h.sender]
    exact .failed houtcome
  | answered hrequest hkind hid =>
    rw [h.sender]
    exact .answered (h.message ▸ hrequest) hkind hid

/-- A successful `begin_delivery` of a message under `id` that is not a response. -/
def begins (id : MessageId) : Op × Reply → Bool
  | (.beginDelivery _ (.message m) _, .delivery (.ok _)) => m.kind ≠ .response ∧ m.messageId = id
  | _ => false

/-! ## One call -/

theorem isAckOutcome_of_ackOutcome {policy : AckPolicy} {outcome : DeliveryOutcome}
    (h : ackOutcome policy = some outcome) : isAckOutcome outcome = true := by
  cases policy with
  | none => cases h
  | accepted => cases h
  | received =>
    cases h
    rfl
  | processed =>
    cases h
    rfl

/-- A response that completes a request is forwarded, or an earlier one is. -/
theorem forwarded_of_completes {pending : PendingDelivery} {request response : Message} {sender : PeerId}
    (h : completesRequest pending request sender response = true) :
    ∃ frame, forwarded pending request sender response = some frame := by
  unfold forwarded responseForwarded
  rw [h]
  split
  · exact ⟨_, rfl⟩
  · exact ⟨_, rfl⟩
  · exact ⟨_, rfl⟩
  · by_cases hsuccess : response.status = .success
    · rw [if_pos hsuccess]
      exact ⟨_, rfl⟩
    · rw [if_neg hsuccess, if_pos rfl]
      -- the response at hand is stored, so there is a first one
      cases hvalues : (addResponse pending sender response).values with
      | cons frame rest => exact ⟨frame, rfl⟩
      | nil =>
        have hmem : Frame.message response ∈ (addResponse pending sender response).values :=
          OrdMap.mem_values_iff.mpr ⟨sender, by simp [addResponse]⟩
        rw [hvalues] at hmem
        cases hmem

/-- While a request stays pending, only `ALL` forwards responses. -/
theorem forwarded_of_not_completes {pending : PendingDelivery} {request response : Message} {sender : PeerId}
    {frame : Frame} (h : completesRequest pending request sender response = false)
    (hf : forwarded pending request sender response = some frame) : request.requestPolicy = .all := by
  unfold forwarded responseForwarded at hf
  unfold completesRequest responseCompletes at h
  cases hpolicy : request.requestPolicy with
  | all => rfl
  | exact => simp [hpolicy] at h
  | first => simp [hpolicy] at h
  | firstSuccess =>
    rw [hpolicy] at h hf
    simp only [Bool.or_eq_false_iff, decide_eq_false_iff_not] at h
    simp [h.1, h.2, completesRequest, responseCompletes, hpolicy] at hf

theorem isRequest_message {pending : PendingDelivery} {m : Message} (h : pending.message = .message m) :
    isRequest pending.message = decide (m.kind = .request) := by
  rw [h]
  rfl

/-- How many acknowledgement outcomes an entry has given rise to. -/
def ackReports (pending : PendingDelivery) : Nat := if pending.acknowledgementComplete then 1 else 0

theorem ackReports_le_one (pending : PendingDelivery) : ackReports pending ≤ 1 := by
  unfold ackReports
  split_ifs
  · exact le_refl _
  · exact Nat.zero_le _

theorem ackReports_of_completes {pending : PendingDelivery} {m : Message} {peer : PeerId}
    (h : ackCompletes pending m peer = true) : ackReports pending = 0 := by
  unfold ackCompletes at h
  unfold ackReports
  cases hflag : pending.acknowledgementComplete with
  | false => rfl
  | true => simp [hflag] at h

/-- An entry that stays: what it may give rise to, and that its flag counts the outcomes. -/
theorem Effect.whilePending {op : Op} {reply : Reply} {id : MessageId} {pending pending' : PendingDelivery}
    {events : List DeliveryEvent} (h : Effect op reply id (some pending) (some pending') events)
    (hentry : Entry id pending) :
    (∀ event ∈ events, WhilePending id pending event) ∧
      ackReports pending + events.countP isAckResult = ackReports pending' := by
  generalize hafter : some pending' = after at h
  cases h with
  | untouched _ =>
    cases hafter
    exact ⟨fun event hmem => absurd hmem List.not_mem_nil, rfl⟩
  | @acknowledged _ m peer _ outcome _ _ _ hmessage _ _ houtcome =>
    have hack := isAckOutcome_of_ackOutcome houtcome
    split_ifs at hafter with hremoved
    cases hafter
    by_cases hcomplete : ackCompletes pending m peer = true
    · have hkind : m.kind = .request := by
        by_contra hne
        exact hremoved ⟨hcomplete, hne⟩
      rw [if_pos hcomplete, ackReports_of_completes hcomplete]
      refine ⟨fun event hmem => ?_, ?_⟩
      · rw [List.mem_singleton.mp hmem]
        exact .acknowledged (by rw [isRequest_message hmessage]; simpa using hkind) hack
      · simp [ackReports, recordAck, hcomplete, isAckResult, hack]
    · rw [if_neg hcomplete]
      refine ⟨fun event hmem => absurd hmem List.not_mem_nil, ?_⟩
      simp [ackReports, recordAck, hcomplete]
  | @answered _ request response sender _ _ hkind hid hmessage hrequest _ _ =>
    split_ifs at hafter with hcomplete
    cases hafter
    refine ⟨fun event hmem => ?_, ?_⟩
    · obtain ⟨frame, hframe, rfl⟩ := List.mem_map.mp hmem
      rw [Option.mem_toList] at hframe
      obtain ⟨r, rfl, hr, hrid⟩ := forwarded_response hentry hkind hid hframe
      have hall := forwarded_of_not_completes (Bool.not_eq_true _ ▸ hcomplete) hframe
      exact .response hmessage hrequest hall hr hrid
    · have hnone : ((forwarded pending request sender response).toList.map
          fun message => DeliveryEvent.deliver sender [pending.sender] message).countP isAckResult = 0 := by
        refine List.countP_eq_zero.mpr fun event hmem => ?_
        obtain ⟨frame, -, rfl⟩ := List.mem_map.mp hmem
        simp [isAckResult]
      rw [hnone]
      rfl
  | @ticked _ nowMs _ =>
    have hflag : ackReports pending' = ackReports pending := by
      rw [afterTick_eq_some hafter.symm]
      rfl
    unfold afterTick at hafter
    unfold tickOutcomes tickRetries
    split at hafter
    · rename_i hresult
      rw [hresult, hflag]
      exact ⟨fun event hmem => absurd hmem List.not_mem_nil, rfl⟩
    · cases hafter
    · cases hafter
    · rename_i hresult
      rw [hresult, hflag]
      refine ⟨fun event hmem => ?_, rfl⟩
      rw [List.nil_append, List.map_singleton, List.mem_singleton] at hmem
      rw [hmem]
      exact .message _
  | recipientLost _ _ => cases hafter

/-- An entry that leaves gives rise to exactly one event, which ends it; an acknowledgement is reported
then only if none was reported before. -/
theorem Effect.completion {op : Op} {reply : Reply} {id : MessageId} {pending : PendingDelivery}
    {events : List DeliveryEvent} (h : Effect op reply id (some pending) none events)
    (hentry : Entry id pending) :
    ∃ event, events = [event] ∧ Completion id pending event ∧
      ackReports pending + [event].countP isAckResult ≤ 1 := by
  generalize hafter : none = after at h
  cases h with
  | untouched _ => cases hafter
  | @acknowledged _ m peer _ outcome _ _ _ hmessage _ _ houtcome =>
    split_ifs at hafter with hremoved
    refine ⟨_, if_pos hremoved.1, .acknowledged ?_ (isAckOutcome_of_ackOutcome houtcome), ?_⟩
    · rw [isRequest_message hmessage]
      simpa using hremoved.2
    · rw [ackReports_of_completes hremoved.1]
      exact (Nat.zero_add _).trans_le List.countP_le_length
  | @answered _ request response sender _ _ hkind hid hmessage hrequest _ _ =>
    split_ifs at hafter with hcomplete
    obtain ⟨frame, hframe⟩ := forwarded_of_completes hcomplete
    obtain ⟨r, rfl, hr, hrid⟩ := forwarded_response hentry hkind hid hframe
    refine ⟨.deliver sender [pending.sender] (.message r), by rw [hframe]; rfl, .answered ?_ hr hrid,
      ackReports_le_one pending⟩
    rw [isRequest_message hmessage]
    simpa using hrequest
  | @ticked _ nowMs _ =>
    unfold afterTick at hafter
    unfold tickOutcomes tickRetries
    split at hafter
    · cases hafter
    · rename_i hresult
      rw [hresult]
      exact ⟨_, rfl, .failed rfl, ackReports_le_one pending⟩
    · rename_i hresult
      rw [hresult]
      exact ⟨_, rfl, .failed rfl, ackReports_le_one pending⟩
    · cases hafter
  | recipientLost _ _ => exact ⟨_, rfl, .failed rfl, ackReports_le_one pending⟩

/-- Nothing is said about an identifier that is not pending, unless a message begins under it. -/
theorem Effect.absent {op : Op} {reply : Reply} {id : MessageId} {after : Option PendingDelivery}
    {events : List DeliveryEvent} (h : Effect op reply id none after events)
    (hop : begins id (op, reply) = false) : after = none ∧ events = [] := by
  have hbegun : ∀ sender m nowMs, Submits sender m nowMs op reply → m.kind ≠ .response →
      m.messageId = id → False := by
    intro sender m nowMs ⟨hbegin, _, hreply⟩ hkind hid
    rw [hbegin, hreply] at hop
    simp [begins, hkind, hid] at hop
  generalize hbefore : none = before at h
  cases h with
  | untouched _ =>
    subst hbefore
    exact ⟨rfl, rfl⟩
  | passed hcall hkind hid _ => exact (hbegun _ _ _ hcall hkind hid).elim
  | inserted hcall hkind hid _ => exact (hbegun _ _ _ hcall hkind hid).elim
  | acknowledged _ _ _ _ _ _ => cases hbefore
  | answered _ _ _ _ _ _ _ => cases hbefore
  | ticked _ => cases hbefore
  | recipientLost _ _ => cases hbefore

/-- The events of a message that begins report no failure. -/
theorem Effect.begun {op : Op} {reply : Reply} {id : MessageId} {after : Option PendingDelivery}
    {events : List DeliveryEvent} (h : Effect op reply id none after events) :
    ∀ sender outcome, .result sender id outcome ∈ events → isFailure outcome = false := by
  have haccepted : ∀ p m recipients sender outcome,
      .result sender id outcome ∈ acceptedEvents p m recipients → isFailure outcome = false := by
    intro p m recipients sender outcome hmem
    unfold acceptedEvents at hmem
    rcases List.mem_cons.mp hmem with heq | hmem
    · cases heq
    · split_ifs at hmem
      · cases List.mem_singleton.mp hmem
        rfl
      · cases hmem
  intro sender outcome hmem
  generalize hbefore : none = before at h
  cases h with
  | untouched _ => cases hmem
  | passed _ _ _ hevents =>
    rcases hevents with rfl | ⟨recipients, rfl⟩
    · cases List.mem_singleton.mp hmem
      rfl
    · exact haccepted _ _ _ sender outcome hmem
  | inserted _ _ _ _ => exact haccepted _ _ _ sender outcome hmem
  | acknowledged _ _ _ _ _ _ => cases hbefore
  | answered _ _ _ _ _ _ _ => cases hbefore
  | ticked _ => cases hbefore
  | recipientLost _ _ => cases hbefore

/-! ## Runs -/

variable {P : Type} {broker : Broker P}

def IsPending (id : MessageId) (broker : Broker P) : Prop := ∃ pending, broker.deliveries.get? id = some pending

theorem not_isPending_iff {id : MessageId} : ¬ IsPending id broker ↔ broker.deliveries.get? id = none := by
  unfold IsPending
  cases broker.deliveries.get? id <;> simp

def trace (id : MessageId) (history : List (Op × Reply)) : List DeliveryEvent :=
  eventsAbout id (history.flatMap fun e => e.2.events)

theorem trace_append (id : MessageId) (h h' : List (Op × Reply)) :
    trace id (h ++ h') = trace id h ++ trace id h' := by
  unfold trace
  rw [List.flatMap_append, eventsAbout_append]

theorem trace_snoc (id : MessageId) (history : List (Op × Reply)) (op : Op) (reply : Reply) :
    trace id (history ++ [(op, reply)]) = trace id history ++ eventsAbout id reply.events := by
  rw [trace_append]
  unfold trace
  rw [List.flatMap_singleton]

variable [Policy P]

/-- In this run `pending` stays the entry under `id`. -/
structure Pends (id : MessageId) (pending : PendingDelivery) (b : Broker P) (history : List (Op × Reply))
    (b' : Broker P) : Prop where
  states : RunIn exec (IsPending id) b history b'
  same : ∃ pending', b'.deliveries.get? id = some pending' ∧ SameDelivery pending pending'
  events : ∀ event ∈ trace id history, WhilePending id pending event
  once : (trace id history).countP isAckResult ≤ 1

/-- The run lemma behind `Pends`: the flag of the entry counts the acknowledgement outcomes. -/
theorem runIn_isPending {id : MessageId} {pending : PendingDelivery} {b b' : Broker P}
    {history : List (Op × Reply)} (hrun : RunIn exec (IsPending id) b history b') (hentries : Entries b)
    (hb : b.deliveries.get? id = some pending) :
    ∃ pending', b'.deliveries.get? id = some pending' ∧ SameDelivery pending pending' ∧
      (∀ event ∈ trace id history, WhilePending id pending event) ∧
      ackReports pending + (trace id history).countP isAckResult = ackReports pending' := by
  induction hrun with
  | nil _ => exact ⟨pending, hb, .refl _, fun event hmem => absurd hmem List.not_mem_nil, rfl⟩
  | @snoc b₁ b₂ history op reply hrun hexec hpending ih =>
    obtain ⟨before, hbefore, hsame, hevents, hcount⟩ := ih
    obtain ⟨after, hafter⟩ := hpending
    have hentries₁ := run_entries hrun.run hentries
    have heffect := exec_effect hentries₁ op id
    rw [hexec, hbefore, hafter] at heffect
    obtain ⟨hnew, hreports⟩ := heffect.whilePending (hentries₁ id before hbefore)
    refine ⟨after, hafter, hsame.trans heffect.sameDelivery, ?_, ?_⟩
    · intro event hmem
      rw [trace_snoc, List.mem_append] at hmem
      rcases hmem with hmem | hmem
      · exact hevents event hmem
      · exact (hnew event hmem).of_same hsame
    · rw [trace_snoc, List.countP_append, ← hreports, ← hcount]
      exact (Nat.add_assoc _ _ _).symm

theorem pends_of_runIn {id : MessageId} {pending : PendingDelivery} {b b' : Broker P}
    {history : List (Op × Reply)} (hrun : RunIn exec (IsPending id) b history b') (hentries : Entries b)
    (hb : b.deliveries.get? id = some pending) : Pends id pending b history b' := by
  obtain ⟨pending', hb', hsame, hevents, hcount⟩ := runIn_isPending hrun hentries hb
  refine ⟨hrun, ⟨pending', hb', hsame⟩, hevents, ?_⟩
  have hle := ackReports_le_one pending'
  omega

/-- Once an identifier is not pending, nothing is said about it until a message begins under it. -/
theorem run_absent {id : MessageId} {b b' : Broker P} {history : List (Op × Reply)}
    (hrun : Run exec b history b') (hentries : Entries b) (hb : ¬ IsPending id b)
    (hops : ∀ e ∈ history, begins id e = false) : ¬ IsPending id b' ∧ trace id history = [] := by
  induction hrun with
  | nil => exact ⟨hb, rfl⟩
  | @snoc b₁ b₂ history op reply hrun hexec ih =>
    obtain ⟨habsent, htrace⟩ := ih fun e hmem => hops e (List.mem_append_left _ hmem)
    have heffect := exec_effect (run_entries hrun hentries) op id
    rw [hexec, not_isPending_iff.mp habsent] at heffect
    have hop := hops (op, reply) (List.mem_append_right _ (List.mem_singleton_self _))
    obtain ⟨hafter, hevents⟩ := heffect.absent hop
    refine ⟨not_isPending_iff.mpr hafter, ?_⟩
    rw [trace_snoc, htrace]
    exact hevents

/-- A failure is reported by the call that removes the entry, and by no other. -/
theorem failure_removes (hentries : Entries broker) {op : Op} {sender : PeerId} {id : MessageId}
    {outcome : DeliveryOutcome} (hfailure : isFailure outcome = true)
    (hmem : .result sender id outcome ∈ (exec broker op).2.events) :
    IsPending id broker ∧ ¬ IsPending id (exec broker op).1 := by
  have habout : .result sender id outcome ∈ eventsAbout id (exec broker op).2.events :=
    List.mem_filter.mpr ⟨hmem, by simp [about]⟩
  have heffect := exec_effect hentries op id
  cases hbefore : broker.deliveries.get? id with
  | none =>
    rw [hbefore] at heffect
    rw [heffect.begun sender outcome habout] at hfailure
    cases hfailure
  | some pending =>
    refine ⟨⟨pending, hbefore⟩, ?_⟩
    rintro ⟨after, hafter⟩
    rw [hbefore, hafter] at heffect
    have hpending := (heffect.whilePending (hentries id pending hbefore)).1 _ habout
    generalize hevent : DeliveryEvent.result sender id outcome = event at hpending
    cases hpending with
    | message recipients => cases hevent
    | acknowledged _ houtcome =>
      cases hevent
      cases outcome <;> simp_all [isFailure, isAckOutcome]
    | response _ _ _ _ _ => cases hevent

/-- What `begin_delivery` returned when it retained `pending` under `id`. -/
def Begun (id : MessageId) (pending : PendingDelivery) (op : Op) (reply : Reply) : Prop :=
  ∃ m nowMs, op = .beginDelivery pending.sender (.message m) nowMs ∧ m.messageId = id ∧
    pending.message = .message m ∧ eventsAbout id reply.events =
      .deliver pending.sender pending.recipients.keys pending.message ::
        if m.ackPolicy = .accepted then [.result pending.sender id .accepted] else []

theorem begun_of_inserted (hentries : Entries broker) {op : Op} {id : MessageId} {pending : PendingDelivery}
    (hfresh : broker.deliveries.get? id = none)
    (hafter : (exec broker op).1.deliveries.get? id = some pending) :
    Begun id pending op (exec broker op).2 := by
  obtain ⟨sender, m, nowMs, _, recipients, _, rfl, rfl, hrouted, -, rfl, hreply⟩ :=
    inserted_spec hentries hfresh hafter
  refine ⟨m, nowMs, rfl, rfl, rfl, ?_⟩
  rw [hreply]
  exact eventsAbout_self (about_acceptedEvents hrouted.kind)

/-- The end of `pending` under `id`: the last call of `history` removes it, with its one completion event. -/
def Completed (id : MessageId) (pending : PendingDelivery) (b : Broker P) (history : List (Op × Reply))
    (b' : Broker P) : Prop :=
  ∃ earlier op reply b₁ event, history = earlier ++ [(op, reply)] ∧
    Pends id pending b earlier b₁ ∧ exec b₁ op = (b', reply) ∧ ¬ IsPending id b' ∧
    eventsAbout id reply.events = [event] ∧ Completion id pending event ∧
    (trace id history).countP isAckResult ≤ 1

/-- From a state that retains `pending` under `id`, every run keeps it, or completes it once and is then
silent about `id` until a message begins under it. -/
theorem run_pending {id : MessageId} {pending : PendingDelivery} {b b' : Broker P}
    {history : List (Op × Reply)} (hrun : Run exec b history b') (hentries : Entries b)
    (hb : b.deliveries.get? id = some pending) :
    Pends id pending b history b' ∨
      ∃ life later b₁, history = life ++ later ∧ Completed id pending b life b₁ ∧ Run exec b₁ later b' ∧
        ((∀ e ∈ later, begins id e = false) → ¬ IsPending id b' ∧ trace id later = []) := by
  have hpending : IsPending id b := ⟨pending, hb⟩
  rcases hrun.stays_or_leaves hpending with
    hstays | ⟨earlier, op, reply, later, b₁, b₂, rfl, hstays, hexec, hleft, hlater⟩
  · exact .inl (pends_of_runIn hstays hentries hb)
  have hpends := pends_of_runIn hstays hentries hb
  have hentries₁ := run_entries hstays.run hentries
  obtain ⟨last, hlast, hsame, -, hcount⟩ := runIn_isPending hstays hentries hb
  have heffect := exec_effect hentries₁ op id
  rw [hexec, hlast, not_isPending_iff.mp hleft] at heffect
  obtain ⟨event, hevent, hcompletion, honce⟩ := heffect.completion (hentries₁ id last hlast)
  have hentries₂ := run_entries (Run.single hexec) hentries₁
  have htotal : (trace id (earlier ++ [(op, reply)])).countP isAckResult ≤ 1 := by
    rw [trace_snoc, List.countP_append, hevent]
    omega
  exact .inr ⟨earlier ++ [(op, reply)], later, b₂, by simp,
    ⟨earlier, op, reply, b₁, event, rfl, hpends, hexec, hleft, hevent, hcompletion.of_same hsame, htotal⟩,
    hlater, run_absent hlater hentries₂ hleft⟩

/-- No retained delivery is lost or completed twice. A failure is only reported by the call that removes
the entry. A `begin_delivery` that retains `pending` under `id` delivers the message and reports `ACCEPTED`
if that was asked for; from then on every run keeps the entry or completes it exactly once. -/
theorem delivery_life {policy : P} {limits : Limits} {capabilities : Capabilities}
    {before : List (Op × Reply)} {b b₁ : Broker P} {op : Op} {reply : Reply}
    (hrun : Run exec (Broker.empty policy limits capabilities) before b) (hexec : exec b op = (b₁, reply))
    (id : MessageId) :
    (∀ sender outcome, isFailure outcome = true → .result sender id outcome ∈ reply.events →
      IsPending id b ∧ ¬ IsPending id b₁) ∧
    ∀ pending, b.deliveries.get? id = none → b₁.deliveries.get? id = some pending →
      Begun id pending op reply ∧
      ∀ history b', Run exec b₁ history b' →
        Pends id pending b₁ history b' ∨
          ∃ life later b₂, history = life ++ later ∧ Completed id pending b₁ life b₂ ∧
            Run exec b₂ later b' ∧
            ((∀ e ∈ later, begins id e = false) → ¬ IsPending id b' ∧ trace id later = []) := by
  have hentries := run_entries hrun (entries_empty policy limits capabilities)
  have hentries₁ := run_entries (Run.single hexec) hentries
  have hb₁ : (exec b op).1 = b₁ := by rw [hexec]
  have hreply : (exec b op).2 = reply := by rw [hexec]
  subst hb₁ hreply
  refine ⟨fun sender outcome hfailure hmem => failure_removes hentries hfailure hmem, ?_⟩
  intro pending hfresh hafter
  exact ⟨begun_of_inserted hentries hfresh hafter, fun history b' hlater => run_pending hlater hentries₁ hafter⟩

/-! ## A request that asks for `ACCEPTED` -/

def acceptedRequest : Message := plainRequest (numberedId 1) .accepted .none .exact (.peer (.new 2))

def acceptedRequestPacket : List UInt8 :=
  [66, 85, 83, 49, 3, 6, 0, 0, 0, 0, 0, 57, 1, 1, 0, 0, 0, 0, 3, 232, 0, 1] ++ beBytes 8 2 ++ beBytes 16 1 ++
    List.replicate 23 0

def pairConnected : List (Op × Reply) × Broker AllowAll :=
  run exec (Broker.empty .mk .default ∅) [plainConnect, plainConnect]

def beginAccepted : Op := .beginDelivery (.new 1) (.message acceptedRequest) 0

def acceptedPending : PendingDelivery :=
  newPending (.new 1) acceptedRequest (OrdSet.ofList [.new 2]) 1000 0 0

/-- `begin_delivery` retains the request, and reports `ACCEPTED` for it in the same call. -/
theorem acceptedRequest_reported :
    Frame.decode acceptedRequestPacket = .ok (.message acceptedRequest) ∧
      Run exec (Broker.empty AllowAll.mk .default ∅) pairConnected.1 pairConnected.2 ∧
      pairConnected.2.deliveries.get? (numberedId 1) = none ∧
      (exec pairConnected.2 beginAccepted).1.deliveries.get? (numberedId 1) = some acceptedPending ∧
      .result (.new 1) (numberedId 1) .accepted ∈
        eventsAbout (numberedId 1) (exec pairConnected.2 beginAccepted).2.events ∧
      ¬ WhilePending (numberedId 1) acceptedPending (.result (.new 1) (numberedId 1) .accepted) := by
  refine ⟨by decide +kernel, run_spec _ _, by decide +kernel, by decide +kernel, by decide +kernel, ?_⟩
  generalize hevent : DeliveryEvent.result (.new 1) (numberedId 1) .accepted = event
  intro h
  cases h with
  | message _ => cases hevent
  | acknowledged _ houtcome =>
    cases hevent
    cases houtcome
  | response _ _ _ _ _ => cases hevent

theorem delivery_life_acceptedRequest :
    (exec pairConnected.2 beginAccepted).1.deliveries.get? (numberedId 1) = some acceptedPending ∧
      Begun (numberedId 1) acceptedPending beginAccepted (exec pairConnected.2 beginAccepted).2 ∧
      ∀ history b', Run exec (exec pairConnected.2 beginAccepted).1 history b' →
        Pends (numberedId 1) acceptedPending (exec pairConnected.2 beginAccepted).1 history b' ∨
          ∃ life later b₂, history = life ++ later ∧
            Completed (numberedId 1) acceptedPending (exec pairConnected.2 beginAccepted).1 life b₂ ∧
            Run exec b₂ later b' ∧ ((∀ e ∈ later, begins (numberedId 1) e = false) →
              ¬ IsPending (numberedId 1) b' ∧ trace (numberedId 1) later = []) := by
  have hrun : Run exec (Broker.empty AllowAll.mk .default ∅) pairConnected.1 pairConnected.2 := run_spec _ _
  have hfresh : pairConnected.2.deliveries.get? (numberedId 1) = none := by decide +kernel
  have hafter : (exec pairConnected.2 beginAccepted).1.deliveries.get? (numberedId 1) =
      some acceptedPending := by decide +kernel
  exact ⟨hafter, (delivery_life hrun Prod.mk.eta.symm (numberedId 1)).2 acceptedPending hfresh hafter⟩

end Busd.Broker
