import Busd.Broker.Effects
import Busd.Daemon.Forwarding
import Busd.Daemon.Serve

/-!
# Who sent a forwarded message

A forwarded message carries the peer that the broker names as its sender. The name is that of the peer which
submitted the message, but for one case: when the last of several answers to a `FIRST_SUCCESS` request fails,
the answer of the lowest-numbered peer is forwarded, in the name of the last one.

* `run_attributed` : in every run, what the broker retains was submitted by the peer it is filed under;
* `authentic_iff` : the calls whose deliveries name the right sender;
* `forwarded_authentic_iff` : the runs whose forwarded messages all do.
-/

namespace Busd.Daemon

open Words Machine Busd.Protocol Busd.Policy Busd.Broker

variable {P : Type} [Policy P] {broker start : Broker P} {history : List (Op × Reply)}

/-! ## The answer of another peer -/

/-- The answer of `sender` to a `FIRST_SUCCESS` request fails as the last one, after `peer`, the lowest-numbered
of the others and lower than `sender`, answered `frame`. -/
structure ForwardsLower (pending : PendingDelivery) (request : Message) (sender : PeerId) (response : Message)
    (peer : PeerId) (frame : Frame) : Prop where
  policy : request.requestPolicy = .firstSuccess
  failed : response.status ≠ .success
  last : pending.responses.size + 1 = pending.recipients.size
  lowest : pending.responses.entries.head? = some (peer, frame)
  below : peer < sender

theorem head?_addResponse (pending : PendingDelivery) (sender : PeerId) (response : Message) :
    (addResponse pending sender response).values.head? =
      match pending.responses.entries.head? with
      | none => some (.message response)
      | some e => if e.1 < sender then some e.2 else some (.message response) := by
  unfold addResponse
  rw [OrdMap.head?_values, OrdMap.head?_insert_entries]
  cases pending.responses.entries.head? with
  | none => rfl
  | some e =>
    simp only []
    split_ifs <;> rfl

/-- When the frame forwarded to the requester is not the one just submitted. -/
theorem forwarded_other_iff {pending : PendingDelivery} {request response : Message} {sender : PeerId}
    {frame : Frame} (hfirst : pending.responses.get? sender = none) (hother : frame ≠ .message response) :
    forwarded pending request sender response = some frame ↔
      ∃ peer, ForwardsLower pending request sender response peer frame := by
  have hown : ¬ some (Frame.message response) = some frame := fun h => hother (Option.some.inj h).symm
  have hsize : (addResponse pending sender response).size = pending.responses.size + 1 :=
    OrdMap.size_insert_new hfirst _
  unfold forwarded responseForwarded completesRequest
  cases hpolicy : request.requestPolicy with
  | firstSuccess =>
    by_cases hsuccess : response.status = .success
    · rw [if_pos hsuccess]
      exact ⟨fun h => absurd h hown, fun ⟨_, h⟩ => absurd hsuccess h.failed⟩
    by_cases hlast : pending.responses.size + 1 = pending.recipients.size
    swap
    · rw [if_neg hsuccess, if_neg (by simp [responseCompletes, hsuccess, hsize, hlast])]
      exact ⟨fun h => (nomatch h), fun ⟨_, h⟩ => absurd h.last hlast⟩
    rw [if_neg hsuccess, if_pos (by simp [responseCompletes, hsize, hlast]), head?_addResponse]
    cases hhead : pending.responses.entries.head? with
    | none => exact ⟨fun h => absurd h hown, fun ⟨_, h⟩ => by cases hhead.symm.trans h.lowest⟩
    | some e =>
      simp only []
      split_ifs with hbelow
      · refine ⟨fun h => ⟨e.1, hpolicy, hsuccess, hlast, ?_, hbelow⟩, fun ⟨_, h⟩ => ?_⟩
        · rw [hhead, ← Option.some.inj h]
        · cases hhead.symm.trans h.lowest
          rfl
      · refine ⟨fun h => absurd h hown, fun ⟨_, h⟩ => ?_⟩
        cases hhead.symm.trans h.lowest
        exact absurd h.below hbelow
  | _ => exact ⟨fun h => absurd h hown, fun ⟨_, h⟩ => by cases hpolicy.symm.trans h.policy⟩

/-! ## One call -/

/-- The peer submitted the frame, in this call or as a message or an answer that is still retained. -/
def SubmittedBy (broker : Broker P) (op : Op) (peer : PeerId) (frame : Frame) : Prop :=
  (∃ nowMs, op = .beginDelivery peer frame nowMs) ∨
    ∃ id pending, broker.deliveries.get? id = some pending ∧
      (pending.sender = peer ∧ pending.message = frame ∨ pending.responses.get? peer = some frame)

/-- The sender named by each delivery of the call is the peer that submitted its frame. -/
def Authentic (broker : Broker P) (op : Op) : Prop :=
  ∀ sender recipients frame, .deliver sender recipients frame ∈ (exec broker op).2.events →
    SubmittedBy broker op sender frame

/-- The call is not a failing last answer after a different answer of a lower-numbered peer. -/
def LowestAnswersLast (broker : Broker P) (op : Op) : Prop :=
  ∀ sender response nowMs priority pending request, op = .beginDelivery sender (.message response) nowMs →
    Admitted broker sender response priority → response.kind = .response →
    Expected broker sender response pending request →
    ∀ peer frame, ForwardsLower pending request sender response peer frame → frame = .message response

theorem exec_answer {sender : PeerId} {response request : Message} {priority : UInt8} {nowMs : UInt64}
    {pending : PendingDelivery} (hadmitted : Admitted broker sender response priority)
    (hkind : response.kind = .response) (hexpected : Expected broker sender response pending request) :
    (exec broker (.beginDelivery sender (.message response) nowMs)).2.events =
      (forwarded pending request sender response).toList.map
        fun message => .deliver sender [pending.sender] message := by
  obtain ⟨found, hfound⟩ := OrdMap.contains_iff.mp hadmitted.connected
  have hbegin : broker.beginDelivery sender (.message response) nowMs =
      broker.completeResponse sender (.message response) := by
    simp [beginDelivery, Broker.credentials, hfound, hadmitted.headers, hadmitted.priority, hkind, orReturn]
  rcases completeResponse_cases broker sender response with ⟨error, h⟩ | ⟨pending', request', hexpected', h⟩
  · simp [completeResponse, hexpected.found, hexpected.message, hexpected.kind, hexpected.recipient,
      hexpected.unanswered] at h
  · cases hexpected.found.symm.trans hexpected'.found
    cases hexpected.message.symm.trans hexpected'.message
    simp [exec, hbegin, h, Reply.events]

theorem deliver_origin {op : Op} {reply : Reply} {id : MessageId} {before after : Option PendingDelivery}
    {events : List DeliveryEvent} (h : Effect op reply id before after events) {sender : PeerId}
    {recipients : List PeerId} {frame : Frame} (hmem : .deliver sender recipients frame ∈ events) :
    (∃ m nowMs, frame = .message m ∧ Submits sender m nowMs op reply) ∨
      (∃ pending, before = some pending ∧ pending.sender = sender ∧ pending.message = frame) ∨
      ∃ pending request response nowMs peer, before = some pending ∧ Submits sender response nowMs op reply ∧
        response.kind = .response ∧ response.correlationId = id ∧ pending.message = .message request ∧
        request.kind = .request ∧ pending.recipients.contains sender = true ∧
        pending.responses.contains sender = false ∧
        ForwardsLower pending request sender response peer frame ∧ frame ≠ .message response := by
  have haccepted : ∀ {s : PeerId} {m : Message} {r : OrdSet PeerId} {nowMs : UInt64},
      Submits s m nowMs op reply → DeliveryEvent.deliver sender recipients frame ∈ acceptedEvents s m r →
      ∃ m nowMs, frame = .message m ∧ Submits sender m nowMs op reply := by
    intro s m r nowMs hcall hevent
    unfold acceptedEvents at hevent
    rcases List.mem_cons.mp hevent with heq | hevent
    · cases heq
      exact ⟨m, nowMs, rfl, hcall⟩
    · split_ifs at hevent
      · cases List.mem_singleton.mp hevent
      · cases hevent
  cases h with
  | untouched _ => cases hmem
  | passed hcall _ _ hevents =>
    rcases hevents with rfl | ⟨_, rfl⟩
    · cases List.mem_singleton.mp hmem
    · exact .inl (haccepted hcall hmem)
  | inserted hcall _ _ _ => exact .inl (haccepted hcall hmem)
  | acknowledged _ _ _ _ _ _ =>
    split_ifs at hmem
    · cases List.mem_singleton.mp hmem
    · cases hmem
  | @answered pending request response sender' nowMs hcall hkind hid hmessage hrequest hrecipient hfirst =>
    obtain ⟨frame', hforward, heq⟩ := List.mem_map.mp hmem
    cases heq
    by_cases hown : frame = .message response
    · exact .inl ⟨response, nowMs, hown, hcall⟩
    · obtain ⟨peer, hlower⟩ := (forwarded_other_iff (OrdMap.contains_eq_false_iff.mp hfirst) hown).mp
        (Option.mem_toList.mp hforward)
      exact .inr (.inr ⟨pending, request, response, nowMs, peer, rfl, hcall, hkind, hid, hmessage, hrequest,
        hrecipient, hfirst, hlower, hown⟩)
  | @ticked pending nowMs _ =>
    rcases List.mem_append.mp hmem with hmem | hmem
    · unfold tickOutcomes at hmem
      split at hmem
      · cases List.mem_singleton.mp hmem
      · cases List.mem_singleton.mp hmem
      · cases hmem
      · cases hmem
    · unfold tickRetries at hmem
      split at hmem
      · cases List.mem_singleton.mp hmem
        exact .inr (.inl ⟨pending, rfl, rfl, rfl⟩)
      · cases hmem
      · cases hmem
      · cases hmem
  | recipientLost _ _ => cases List.mem_singleton.mp hmem

/-- The sender of every delivery is right exactly if no answer of a lower-numbered peer is forwarded. -/
theorem authentic_iff (hentries : Entries broker) (op : Op) : Authentic broker op ↔ LowestAnswersLast broker op := by
  refine ⟨fun h => ?_, fun h => ?_⟩
  · intro sender response nowMs priority pending request hop hadmitted hkind hexpected peer frame hlower
    subst hop
    by_contra hother
    have hfirst := OrdMap.contains_eq_false_iff.mp hexpected.unanswered
    have hforward := (forwarded_other_iff hfirst hother).mpr ⟨peer, hlower⟩
    have hevent : .deliver sender [pending.sender] frame ∈
        (exec broker (.beginDelivery sender (.message response) nowMs)).2.events := by
      rw [exec_answer hadmitted hkind hexpected, hforward]
      exact List.mem_singleton_self _
    -- the frame answers this request, so it is filed under `peer` here and nowhere else
    have hstored : pending.responses.get? peer = some frame :=
      OrdMap.mem_entries_iff.mp (List.mem_of_head? hlower.lowest)
    obtain ⟨r, rfl, hr, hrid⟩ := (hentries _ _ hexpected.found).responses peer frame hstored
    rcases h sender [pending.sender] _ hevent with ⟨_, hop⟩ | ⟨id, held, hheld, ⟨-, hmessage⟩ | hanswer⟩
    · cases hop
      exact hother rfl
    · obtain ⟨m, hm, -, hnot, -⟩ := (hentries id held hheld).message
      cases hmessage.symm.trans hm
      exact hnot hr
    · obtain ⟨r', heq, -, hid⟩ := (hentries id held hheld).responses sender _ hanswer
      cases heq
      rw [← hid, hrid, hexpected.found] at hheld
      cases hheld
      rw [hfirst] at hanswer
      cases hanswer
  · intro sender recipients frame hevent
    obtain ⟨id, hid⟩ := exec_about hentries op _ hevent
    have habout : .deliver sender recipients frame ∈ eventsAbout id (exec broker op).2.events :=
      List.mem_filter.mpr ⟨hevent, decide_eq_true hid⟩
    rcases deliver_origin (exec_effect hentries op id) habout with
      ⟨m, nowMs, rfl, hcall⟩ | ⟨pending, hpending, hsender, hmessage⟩ |
        ⟨pending, request, response, nowMs, peer, hpending, hcall, hkind, rfl, hmessage, hrequest, hrecipient,
          hfirst, hlower, hother⟩
    · exact .inl ⟨nowMs, hcall.1⟩
    · exact .inr ⟨id, pending, hpending, .inl ⟨hsender, hmessage⟩⟩
    · obtain ⟨priority, hadmitted⟩ := hcall.admitted
      exact absurd (h sender response nowMs priority pending request hcall.1 hadmitted hkind
        ⟨hpending, hmessage, hrequest, hrecipient, hfirst⟩ peer frame hlower) hother

/-! ## Whole runs -/

/-- The peer submitted the message during the history, while it was connected, and named no sender in it. -/
structure Submitted (start : Broker P) (history : List (Op × Reply)) (peer : PeerId) (m : Message) : Prop where
  call : ∃ earlier nowMs events later b,
    history = earlier ++ (.beginDelivery peer (.message m) nowMs, .delivery (.ok events)) :: later ∧
      Run exec start earlier b ∧ b.peers.contains peer = true
  header : m.headers.get? "broker.sender" = none

theorem Submitted.mono {peer : PeerId} {m : Message} (h : Submitted start history peer m)
    (more : List (Op × Reply)) : Submitted start (history ++ more) peer m := by
  obtain ⟨earlier, nowMs, events, later, b, rfl, hrun, hpeer⟩ := h.call
  exact ⟨⟨earlier, nowMs, events, later ++ more, b, by simp, hrun, hpeer⟩, h.header⟩

theorem submitted_of_submits {sender : PeerId} {m : Message} {nowMs : UInt64} {op : Op}
    (hrun : Run exec start history broker) (h : Submits sender m nowMs op (exec broker op).2) :
    Submitted start (history ++ [(op, (exec broker op).2)]) sender m := by
  obtain ⟨_, hadmitted⟩ := h.admitted
  obtain ⟨rfl, events, hreply⟩ := h
  rw [hreply]
  exact ⟨⟨history, nowMs, events, [], broker, rfl, hrun, hadmitted.connected⟩,
    get?_sender_of_validate hadmitted.headers⟩

/-- What the entry holds was submitted by the peers it is filed under. -/
structure Attributed (start : Broker P) (history : List (Op × Reply)) (pending : PendingDelivery) : Prop where
  message : ∃ m, pending.message = .message m ∧ Submitted start history pending.sender m
  responses : ∀ peer frame, pending.responses.get? peer = some frame →
    ∃ m, frame = .message m ∧ Submitted start history peer m

theorem Attributed.mono {pending : PendingDelivery} (h : Attributed start history pending)
    (more : List (Op × Reply)) : Attributed start (history ++ more) pending := by
  obtain ⟨m, hm, hsubmitted⟩ := h.message
  refine ⟨⟨m, hm, hsubmitted.mono more⟩, fun peer frame hget => ?_⟩
  obtain ⟨r, hr, hresponse⟩ := h.responses peer frame hget
  exact ⟨r, hr, hresponse.mono more⟩

theorem exec_attributed (hentries : Entries broker) (hrun : Run exec start history broker) (op : Op)
    (h : ∀ id pending, broker.deliveries.get? id = some pending → Attributed start history pending) :
    ∀ id pending, (exec broker op).1.deliveries.get? id = some pending →
      Attributed start (history ++ [(op, (exec broker op).2)]) pending := by
  intro id pending hafter
  have heffect := exec_effect hentries op id
  have hbefore := h id
  rw [hafter] at heffect
  generalize broker.deliveries.get? id = before at heffect hbefore
  generalize eventsAbout id _ = events at heffect
  generalize hnow : some pending = after at heffect
  cases heffect with
  | untouched _ => exact (hbefore pending hnow.symm).mono _
  | passed _ _ _ _ => cases hnow
  | inserted hcall _ _ _ =>
    cases hnow
    exact ⟨⟨_, rfl, submitted_of_submits hrun hcall⟩, fun _ _ hget => by cases hget⟩
  | @acknowledged old _ _ _ _ _ _ _ _ _ _ _ =>
    split_ifs at hnow
    cases hnow
    have hold := (hbefore old rfl).mono [(op, (exec broker op).2)]
    exact ⟨hold.message, hold.responses⟩
  | @answered old _ response sender _ hcall _ _ _ _ _ _ =>
    split_ifs at hnow
    cases hnow
    have hold := (hbefore old rfl).mono [(op, (exec broker op).2)]
    refine ⟨hold.message, fun peer frame hget => ?_⟩
    change (addResponse old sender response).get? peer = some frame at hget
    unfold addResponse at hget
    rw [OrdMap.get?_insert] at hget
    split_ifs at hget with hpeer
    · cases hget
      rw [hpeer]
      exact ⟨response, rfl, submitted_of_submits hrun hcall⟩
    · exact hold.responses peer frame hget
  | @ticked old _ _ =>
    have hold := (hbefore old rfl).mono [(op, (exec broker op).2)]
    rw [afterTick_eq_some hnow.symm]
    exact ⟨hold.message, hold.responses⟩
  | recipientLost _ _ => cases hnow

theorem run_attributed {policy : P} {limits : Limits} {capabilities : Capabilities}
    (hrun : Run exec (Broker.empty policy limits capabilities) history broker) :
    ∀ id pending, broker.deliveries.get? id = some pending →
      Attributed (Broker.empty policy limits capabilities) history pending := by
  generalize hstart : Broker.empty policy limits capabilities = start at hrun
  induction hrun with
  | nil =>
    intro id pending hget
    subst hstart
    cases hget
  | @snoc b b' history op reply hrun hstep ih =>
    have hentries : Entries b := run_entries hrun (hstart ▸ entries_empty policy limits capabilities)
    have hnext := exec_attributed hentries hrun op ih
    rwa [hstep] at hnext

/-- A message frame made of the event is what a connected peer submitted during the history, with one header
added, and that header names this very peer. -/
def Faithful (start : Broker P) (history : List (Op × Reply)) (event : DeliveryEvent) : Prop :=
  ∀ forwarded, (dispatched event).2 = .message forwarded →
    ∃ sender m, event = .deliver sender (dispatched event).1 (.message m) ∧ Submitted start history sender m ∧
      forwarded = { m with headers := m.headers.insert "broker.sender" (.unsigned sender.get) }

theorem Faithful.mono {event : DeliveryEvent} (h : Faithful start history event) (more : List (Op × Reply)) :
    Faithful start (history ++ more) event := by
  intro forwarded hforwarded
  obtain ⟨sender, m, hevent, hsubmitted, hheader⟩ := h forwarded hforwarded
  exact ⟨sender, m, hevent, hsubmitted.mono more, hheader⟩

theorem faithful_of_authentic {policy : P} {limits : Limits} {capabilities : Capabilities}
    (hrun : Run exec (Broker.empty policy limits capabilities) history broker) {op : Op}
    (hauthentic : Authentic broker op) : ∀ event ∈ (exec broker op).2.events,
      Faithful (Broker.empty policy limits capabilities) (history ++ [(op, (exec broker op).2)]) event := by
  intro event hevent forwarded hforwarded
  cases event with
  | result sender id outcome => cases hforwarded
  | deliver sender recipients frame =>
    cases frame with
    | message m =>
      refine ⟨sender, m, rfl, ?_, (Frame.message.inj hforwarded).symm⟩
      rcases hauthentic sender recipients _ hevent with ⟨nowMs, rfl⟩ | ⟨id, pending, hpending, hfiled⟩
      · exact submitted_of_submits hrun (submits_of_events hevent)
      · have hattributed := (run_attributed hrun id pending hpending).mono [(op, (exec broker op).2)]
        rcases hfiled with ⟨rfl, hmessage⟩ | hresponse
        · obtain ⟨_, heq, hsubmitted⟩ := hattributed.message
          cases hmessage.symm.trans heq
          exact hsubmitted
        · obtain ⟨_, heq, hsubmitted⟩ := hattributed.responses sender _ hresponse
          cases heq
          exact hsubmitted
    | _ => cases hforwarded

theorem run_faithful {policy : P} {limits : Limits} {capabilities : Capabilities}
    (hrun : Run exec (Broker.empty policy limits capabilities) history broker)
    (hall : Every exec (Broker.empty policy limits capabilities) Authentic history) :
    ∀ call ∈ history, ∀ event ∈ call.2.events,
      Faithful (Broker.empty policy limits capabilities) history event := by
  generalize hstart : Broker.empty policy limits capabilities = start at hrun hall
  induction hrun with
  | nil => exact fun call hmem => absurd hmem List.not_mem_nil
  | @snoc b b' history op reply hrun hstep ih =>
    obtain ⟨hearlier, hlast⟩ := (every_snoc hrun).mp hall
    subst hstart
    intro call hmem event hevent
    rcases List.mem_append.mp hmem with hmem | hmem
    · exact (ih hearlier call hmem event hevent).mono _
    · rw [List.mem_singleton.mp hmem] at hevent
      have hreply : (exec b op).2 = reply := by rw [hstep]
      subst hreply
      exact faithful_of_authentic hrun hlast event hevent

/-- In a run of the daemon, every delivery of the broker names the peer that submitted its frame exactly when no
failing last answer to a `FIRST_SUCCESS` request follows a different one of a lower-numbered peer. Then every
message frame that the daemon builds is a submitted one, with one header added that names its submitter. -/
theorem forwarded_authentic_iff {policy : P} {limits : Limits} {capabilities : Capabilities}
    {frameLimits : FrameLimits} {turns : List (Turn × Output)} {state : State P}
    (hrun : Run step (State.initial (Broker.empty policy limits capabilities) frameLimits) turns state) :
    (Every exec (Broker.empty policy limits capabilities) Authentic (calls turns) ↔
      Every exec (Broker.empty policy limits capabilities) LowestAnswersLast (calls turns)) ∧
    (Every exec (Broker.empty policy limits capabilities) LowestAnswersLast (calls turns) →
      ∀ event ∈ state.undispatched, Faithful (Broker.empty policy limits capabilities) (calls turns) event) := by
  have hcalls : Run exec (Broker.empty policy limits capabilities) (calls turns) state.broker := run_calls hrun
  have hiff := (hcalls.every_iff (I := Entries) (Q := Authentic) (R := LowestAnswersLast)
    (fun b op hentries => authentic_iff hentries op) (fun b op hentries _ => exec_entries b op hentries)
    (entries_empty policy limits capabilities)).1
  refine ⟨hiff, fun h event hevent => ?_⟩
  obtain ⟨call, hcall, hreturned⟩ := run_events hrun event hevent
  exact run_faithful hcalls (hiff.mpr h) call hcall event hreturned

/-! ## Two failing answers -/

def failedAnswer (n : UInt8) : Message where
  kind := .response
  ackPolicy := .none
  ackRequirement := .none
  requestPolicy := .exact
  deadlineMs := 0
  retry := .none
  destination := .peer (.new 1)
  messageId := numberedId n
  correlationId := numberedId 1
  status := .error
  headers := ∅
  payload := []

/-- The first of three peers asks the others, which answer in the given order. -/
def answerOps (first second : UInt8) : List Op :=
  [plainConnect, plainConnect, plainConnect,
    .beginDelivery (.new 1) (.message (plainRequest (numberedId 1) .none .none .firstSuccess .broadcast)) 0,
    .beginDelivery (.new first.toUInt64) (.message (failedAnswer first)) 0,
    .beginDelivery (.new second.toUInt64) (.message (failedAnswer second)) 0]

/-- The same in the daemon, up to the dispatch of the last answer. -/
def answerTurns (first second : UInt8) : List Turn :=
  [.accept, .accept, .accept] ++ joins 0 ++ joins 1 ++ joins 2 ++
    submits 0 (.message (plainRequest (numberedId 1) .none .none .firstSuccess .broadcast)) ++
    [.serve 0 calmIo, .serve 0 calmIo] ++
    submits (first.toNat - 1) (.message (failedAnswer first)) ++
    submits (second.toNat - 1) (.message (failedAnswer second))

def answerRun (first second : UInt8) : List (Turn × Output) × State AllowAll :=
  run step (State.initial (Broker.empty .mk .default ∅) .default) (answerTurns first second)

/-- The third peer fails last, and the answer of the second one is forwarded in its name. -/
theorem failedAnswer_misattributed :
    Run step (State.initial (Broker.empty AllowAll.mk .default ∅) .default) (answerRun 2 3).1 (answerRun 2 3).2 ∧
      (answerRun 2 3).2.undispatched = [.deliver (.new 3) [.new 1] (.message (failedAnswer 2))] ∧
      (dispatched (.deliver (.new 3) [.new 1] (.message (failedAnswer 2)))).2 =
        .message (stamped (.new 3) (failedAnswer 2)) ∧
      ¬ Submitted (Broker.empty AllowAll.mk .default ∅) (calls (answerRun 2 3).1) (.new 3) (failedAnswer 2) := by
  refine ⟨run_spec _ _, by decide +kernel, rfl, fun h => ?_⟩
  obtain ⟨earlier, nowMs, events, later, b, heq, -⟩ := h.call
  have hops : (calls (answerRun 2 3).1).map Prod.fst = answerOps 2 3 := by decide +kernel
  have hmem : .beginDelivery (.new 3) (.message (failedAnswer 2)) nowMs ∈ answerOps 2 3 := by
    rw [← hops, heq]
    exact List.mem_map.mpr ⟨_, List.mem_append_right _ List.mem_cons_self, rfl⟩
  simp [answerOps, plainConnect, failedAnswer, plainRequest] at hmem
  exact absurd hmem.1 (by decide)

/-- With the two in the other order, the third peer's answer is not forwarded and the second peer's is its own. -/
theorem forwarded_authentic_iff_ordered :
    (answerRun 3 2).2.undispatched = [.deliver (.new 2) [.new 1] (.message (failedAnswer 2))] ∧
      ∀ event ∈ (answerRun 3 2).2.undispatched,
        Faithful (Broker.empty AllowAll.mk .default ∅) (calls (answerRun 3 2).1) event := by
  have hrun : Run step (State.initial (Broker.empty AllowAll.mk .default ∅) .default) (answerRun 3 2).1
      (answerRun 3 2).2 := run_spec _ _
  have hops : (calls (answerRun 3 2).1).map Prod.fst = answerOps 3 2 := by decide +kernel
  have hcalls : (run exec (Broker.empty AllowAll.mk .default ∅) (answerOps 3 2)).1 = calls (answerRun 3 2).1 := by
    rw [← hops]
    exact congrArg Prod.fst (run_calls hrun).eq_run
  -- whoever has answered when a call is made has a higher number than the caller
  have hcall : ∀ (b : Broker AllowAll) (sender : PeerId) (m : Message),
      (∀ e, (b.deliveries.get? m.correlationId).bind (fun pending => pending.responses.entries.head?) = some e →
        sender ≤ e.1) → LowestAnswersLast b (.beginDelivery sender (.message m) 0) := by
    intro b sender m hhigher sender' response _ _ pending _ hop _ _ hexpected peer frame hlower
    cases hop
    have hsender := hhigher (peer, frame) (by rw [hexpected.found]; exact hlower.lowest)
    exact absurd hlower.below (not_lt_of_ge hsender)
  have hconnect : ∀ b : Broker AllowAll, LowestAnswersLast b plainConnect := by
    intro b _ _ _ _ _ _ hop
    cases hop
  have hevery : Every exec (Broker.empty AllowAll.mk .default ∅) LowestAnswersLast
      (run exec (Broker.empty AllowAll.mk .default ∅) (answerOps 3 2)).1 := by
    refine every_run_cons (hconnect _) (every_run_cons (hconnect _) (every_run_cons (hconnect _) ?_))
    refine every_run_cons (hcall _ _ _ ?_) (every_run_cons (hcall _ _ _ ?_)
      (every_run_cons (hcall _ _ _ ?_) (every_nil _)))
    · decide +kernel
    · decide +kernel
    · decide +kernel
  rw [hcalls] at hevery
  exact ⟨by decide +kernel, (forwarded_authentic_iff hrun).2 hevery⟩

end Busd.Daemon
