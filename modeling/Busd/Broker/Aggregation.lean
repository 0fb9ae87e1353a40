import Busd.Broker.Ticks
import Busd.Broker.Integrity
import Busd.Broker.Lifecycle

/-!
# Collecting the responses to a request

A pending request takes one response from each of its recipients until its policy is met.

* `arrivals` : the responses that count for a request, among the calls made;
* `settled`, `forwards` : when they meet the policy, and what the requester gets of them;
* `Collected` : the broker's entry and events after these arrivals, kept by every response (`collected_step`);
* `responses_aggregated` : the four policies, over every sequence of responses by any peers;
* `exact_complete_iff` : when an `EXACT` request waits for all of its recipients.
-/

namespace Busd.Broker

open Words Machine Busd.Protocol Busd.Policy

variable {P : Type} {broker : Broker P} {id : MessageId} {pending : PendingDelivery}
  {request : Message}

/-! ## One response -/

def admissible (m : Message) : Bool :=
  (validateMessageHeaders m.headers).isOk && (messagePriority m.headers).isOk

theorem Admitted.admissible {peer : PeerId} {m : Message} {priority : UInt8}
    (h : Admitted broker peer m priority) : admissible m = true := by
  unfold Broker.admissible
  rw [h.headers, h.priority]
  rfl

theorem admitted_of_admissible {peer : PeerId} {m : Message} (hpeer : broker.peers.contains peer = true)
    (h : admissible m = true) : ∃ priority, Admitted broker peer m priority := by
  unfold admissible at h
  cases hheaders : validateMessageHeaders m.headers with
  | error error => simp [hheaders, Except.isOk, Except.toBool] at h
  | ok =>
    cases hpriority : messagePriority m.headers with
    | error error => simp [hpriority, Except.isOk, Except.toBool] at h
    | ok priority => exact ⟨priority, hpeer, hheaders, hpriority⟩

variable [Policy P]

theorem respond_rejected {peer : PeerId} {r : Message} {nowMs : UInt64} (hkind : r.kind = .response)
    (hnone : ∀ pending request, ¬ Expected broker peer r pending request) :
    ∃ error, exec broker (.beginDelivery peer (.message r) nowMs) = (broker, .delivery (.error error)) := by
  have hrefused : ∃ error, broker.beginDelivery peer (.message r) nowMs = (broker, .error error) := by
    rcases beginDelivery_cases broker peer (.message r) nowMs with
      h | ⟨m, _, hm, -, -, h⟩ | ⟨m, _, hm, -, hother, -⟩ | ⟨m, _, _, hm, hrouted, -⟩
    · exact h
    · rcases completeResponse_cases broker peer r with ⟨error, hc⟩ | ⟨pending, request, hexpected, -⟩
      · exact ⟨error, h.trans hc⟩
      · exact absurd hexpected (hnone pending request)
    · exact absurd hkind (Frame.message.inj hm ▸ hother)
    · exact absurd hkind (Frame.message.inj hm ▸ hrouted.kind)
  obtain ⟨error, h⟩ := hrefused
  exact ⟨error, by simp [exec, h]⟩

theorem respond_eq {peer : PeerId} {r : Message} {nowMs : UInt64} (hkind : r.kind = .response)
    (hpeer : broker.peers.contains peer = true) (hadmissible : admissible r = true)
    (h : Expected broker peer r pending request) :
    exec broker (.beginDelivery peer (.message r) nowMs) =
      ({ broker with
          deliveries :=
            if completesRequest pending request peer r then broker.deliveries.erase r.correlationId
            else broker.deliveries.insert r.correlationId { pending with responses := addResponse pending peer r } },
        .delivery (.ok ((forwarded pending request peer r).toList.map fun frame =>
          .deliver peer [pending.sender] frame))) := by
  obtain ⟨priority, hadmitted⟩ := admitted_of_admissible hpeer hadmissible
  obtain ⟨found, hfound⟩ := OrdMap.contains_iff.mp hpeer
  have hbegin : broker.beginDelivery peer (.message r) nowMs = broker.completeResponse peer (.message r) := by
    simp [beginDelivery, Broker.credentials, hfound, hadmitted.headers, hadmitted.priority, hkind, orReturn]
  rcases completeResponse_cases broker peer r with ⟨error, hc⟩ | ⟨pending', request', hexpected, hc⟩
  · simp [completeResponse, h.found, h.message, h.kind, h.recipient, h.unanswered] at hc
  · obtain rfl : pending' = pending := Option.some.inj (hexpected.found.symm.trans h.found)
    obtain rfl : request' = request := Frame.message.inj (hexpected.message.symm.trans h.message)
    simp only [exec, hbegin, hc]
    rfl

theorem respond_accepted {peer : PeerId} {r : Message} {nowMs : UInt64} (hentries : Entries broker)
    (hkind : r.kind = .response) (hpeer : broker.peers.contains peer = true) (hadmissible : admissible r = true)
    (h : Expected broker peer r pending request) :
    (exec broker (.beginDelivery peer (.message r) nowMs)).1.deliveries.get? r.correlationId =
        (if completesRequest pending request peer r then none
          else some { pending with responses := addResponse pending peer r }) ∧
      eventsAbout r.correlationId (exec broker (.beginDelivery peer (.message r) nowMs)).2.events =
        (forwarded pending request peer r).toList.map fun frame => .deliver peer [pending.sender] frame := by
  rw [respond_eq hkind hpeer hadmissible h]
  refine ⟨?_, eventsAbout_self (about_forwarded (hentries _ _ h.found) hkind rfl)⟩
  dsimp only
  split_ifs <;> simp

/-! ## The responses that count -/

abbrev Arrival := PeerId × Message

/-- A call counts for the request under `id` if a recipient responds for the first time. -/
def arrivalOf (pending : PendingDelivery) (id : MessageId) (arrived : List Arrival) : Op → Option Arrival
  | .beginDelivery peer (.message r) _ =>
    if r.kind = .response ∧ r.correlationId = id ∧ admissible r = true ∧ pending.recipients.contains peer = true ∧
        pending.responses.contains peer = false ∧ peer ∉ arrived.map Prod.fst then
      some (peer, r)
    else none
  | _ => none

def arrivals (pending : PendingDelivery) (id : MessageId) (ops : List Op) : List Arrival :=
  ops.foldl (fun arrived op => arrived ++ (arrivalOf pending id arrived op).toList) []

theorem arrivals_snoc (pending : PendingDelivery) (id : MessageId) (ops : List Op) (op : Op) :
    arrivals pending id (ops ++ [op]) =
      arrivals pending id ops ++ (arrivalOf pending id (arrivals pending id ops) op).toList := by
  unfold arrivals
  rw [List.foldl_append]
  rfl

theorem arrivalOf_eq_some {arrived : List Arrival} {op : Op} {a : Arrival} :
    arrivalOf pending id arrived op = some a ↔ (∃ nowMs, op = .beginDelivery a.1 (.message a.2) nowMs) ∧
      a.2.kind = .response ∧ a.2.correlationId = id ∧ admissible a.2 = true ∧
      pending.recipients.contains a.1 = true ∧ pending.responses.contains a.1 = false ∧ a.1 ∉ arrived.map Prod.fst := by
  unfold arrivalOf
  split
  · next peer r nowMs =>
    split_ifs with h
    · refine ⟨fun heq => ?_, fun ⟨⟨_, hop⟩, _⟩ => ?_⟩
      · obtain rfl := Option.some.inj heq
        exact ⟨⟨nowMs, rfl⟩, h⟩
      · obtain ⟨rfl, hframe, -⟩ := Op.beginDelivery.inj hop
        rw [Frame.message.inj hframe]
    · refine iff_of_false (by simp) ?_
      rintro ⟨⟨_, hop⟩, hrest⟩
      obtain ⟨rfl, hframe, -⟩ := Op.beginDelivery.inj hop
      exact h (Frame.message.inj hframe ▸ hrest)
  · next hother =>
    refine iff_of_false (by simp) ?_
    rintro ⟨⟨nowMs, hop⟩, -⟩
    exact hother _ _ _ hop

/-- Each arrival is the only response of a recipient that had not responded before. -/
structure Arrived (pending : PendingDelivery) (arrived : List Arrival) : Prop where
  nodup : (arrived.map Prod.fst).Nodup
  recipient : ∀ a ∈ arrived, pending.recipients.contains a.1 = true
  fresh : ∀ a ∈ arrived, pending.responses.contains a.1 = false

theorem Arrived.snoc {arrived : List Arrival} {op : Op} {a : Arrival} (h : Arrived pending arrived)
    (ha : arrivalOf pending id arrived op = some a) : Arrived pending (arrived ++ [a]) := by
  obtain ⟨-, -, -, -, hrecipient, hfresh, hnew⟩ := arrivalOf_eq_some.mp ha
  refine ⟨?_, List.forall_mem_append.mpr ⟨h.recipient, List.forall_mem_singleton.mpr hrecipient⟩,
    List.forall_mem_append.mpr ⟨h.fresh, List.forall_mem_singleton.mpr hfresh⟩⟩
  rw [List.map_append, List.map_singleton]
  exact List.nodup_append'.mpr ⟨h.nodup, List.nodup_singleton _, by simpa using hnew⟩

theorem arrived_arrivals (pending : PendingDelivery) (id : MessageId) (ops : List Op) :
    Arrived pending (arrivals pending id ops) := by
  induction ops using List.reverseRecOn with
  | nil => exact ⟨List.nodup_nil, fun _ h => (List.not_mem_nil h).elim, fun _ h => (List.not_mem_nil h).elim⟩
  | append_singleton ops op ih =>
    rw [arrivals_snoc]
    cases ha : arrivalOf pending id (arrivals pending id ops) op with
    | none => simpa using ih
    | some a => exact ih.snoc ha

def answered (pending : PendingDelivery) (arrived : List Arrival) : OrdMap PeerId Frame :=
  arrived.foldl (fun responses a => responses.insert a.1 (.message a.2)) pending.responses

theorem answered_snoc (pending : PendingDelivery) (arrived : List Arrival) (a : Arrival) :
    answered pending (arrived ++ [a]) = (answered pending arrived).insert a.1 (.message a.2) := by
  unfold answered
  rw [List.foldl_append]
  rfl

theorem contains_answered {arrived : List Arrival} {peer : PeerId} : (answered pending arrived).contains peer = true ↔
    pending.responses.contains peer = true ∨ peer ∈ arrived.map Prod.fst := by
  induction arrived using List.reverseRecOn with
  | nil => simp [answered]
  | append_singleton arrived a ih =>
    rw [answered_snoc, OrdMap.contains_insert, ih, List.map_append, List.mem_append, List.map_singleton,
      List.mem_singleton, or_comm, or_assoc]

theorem Arrived.size_answered {arrived : List Arrival} (h : Arrived pending arrived) :
    (answered pending arrived).size = pending.responses.size + arrived.length := by
  induction arrived using List.reverseRecOn with
  | nil => rfl
  | append_singleton arrived a ih =>
    obtain ⟨hnodup, hrecipient, hfresh⟩ := h
    rw [List.map_append, List.map_singleton, List.nodup_append'] at hnodup
    have hbefore : Arrived pending arrived := ⟨hnodup.1, fun b hb => hrecipient b (List.mem_append_left _ hb),
      fun b hb => hfresh b (List.mem_append_left _ hb)⟩
    have hnew : (answered pending arrived).contains a.1 = false := by
      rw [Bool.eq_false_iff, ne_eq, contains_answered, hfresh a (List.mem_append_right _ (List.mem_singleton_self a))]
      exact fun hor => hnodup.2.2 (hor.resolve_left Bool.false_ne_true) (List.mem_singleton_self _)
    rw [answered_snoc, OrdMap.size_insert_new (OrdMap.contains_eq_false_iff.mp hnew), ih hbefore, List.length_append,
      List.length_singleton, Nat.add_assoc]

theorem Arrived.recipient_of_answered {arrived : List Arrival} (h : Arrived pending arrived)
    (hresponders : ∀ peer, pending.responses.contains peer = true → pending.recipients.contains peer = true)
    (peer : PeerId) (hpeer : (answered pending arrived).contains peer = true) :
    pending.recipients.contains peer = true := by
  rcases contains_answered.mp hpeer with hpeer | hpeer
  · exact hresponders peer hpeer
  · obtain ⟨a, ha, rfl⟩ := List.mem_map.mp hpeer
    exact h.recipient a ha

theorem Arrived.size_le {arrived : List Arrival} (h : Arrived pending arrived)
    (hresponders : ∀ peer, pending.responses.contains peer = true → pending.recipients.contains peer = true) :
    pending.responses.size + arrived.length ≤ pending.recipients.size := by
  rw [← h.size_answered]
  exact OrdMap.size_le_of_subset (h.recipient_of_answered hresponders)

/-! ## The policies -/

def isSuccess (a : Arrival) : Bool := a.2.status = .success

def allResponded (pending : PendingDelivery) (arrived : List Arrival) : Bool :=
  pending.responses.size + arrived.length = pending.recipients.size

/-- Whether the arrivals meet the policy. -/
def settled (policy : RequestPolicy) (pending : PendingDelivery) (arrived : List Arrival) : Bool :=
  match policy with
  | .exact | .first => !arrived.isEmpty
  | .firstSuccess => arrived.any isSuccess || allResponded pending arrived
  | .all => allResponded pending arrived

/-- What the requester gets of the arrivals. -/
def forwards (policy : RequestPolicy) (pending : PendingDelivery) (arrived : List Arrival) : List Frame :=
  match policy with
  | .exact | .first => (arrived.take 1).map fun a => .message a.2
  | .firstSuccess =>
    match arrived.find? isSuccess with
    | some a => [.message a.2]
    | none => if allResponded pending arrived then (answered pending arrived).values.head?.toList else []
  | .all => arrived.map fun a => .message a.2

def withAnswers (pending : PendingDelivery) (arrived : List Arrival) : PendingDelivery :=
  { pending with responses := answered pending arrived }

theorem ResponseState.unsettled (h : ResponseState request pending) :
    settled request.requestPolicy pending [] = false := by
  unfold settled allResponded
  cases hpolicy : request.requestPolicy with
  | exact => rfl
  | first => rfl
  | firstSuccess => simpa using (h.several (.inl hpolicy)).ne
  | all => simpa using (h.several (.inr hpolicy)).ne

theorem forwards_nil (h : ResponseState request pending) : forwards request.requestPolicy pending [] = [] := by
  unfold forwards allResponded
  cases hpolicy : request.requestPolicy with
  | exact => rfl
  | first => rfl
  | firstSuccess => simp [(h.several (.inl hpolicy)).ne]
  | all => rfl

section Arrival

variable {arrived : List Arrival} {a : Arrival} {policy : RequestPolicy}

theorem Arrived.not_allResponded (h : Arrived pending (arrived ++ [a]))
    (hresponders : ∀ peer, pending.responses.contains peer = true → pending.recipients.contains peer = true) :
    allResponded pending arrived = false := by
  have hle := h.size_le hresponders
  rw [List.length_append, List.length_singleton] at hle
  refine decide_eq_false fun heq => ?_
  omega

/-- An arrival after the policy is met changes nothing. -/
theorem settled_snoc (h : Arrived pending (arrived ++ [a]))
    (hresponders : ∀ peer, pending.responses.contains peer = true → pending.recipients.contains peer = true)
    (hsettled : settled policy pending arrived = true) :
    settled policy pending (arrived ++ [a]) = true ∧
      forwards policy pending (arrived ++ [a]) = forwards policy pending arrived := by
  have hopen := h.not_allResponded hresponders
  unfold settled at hsettled ⊢
  unfold forwards
  cases policy with
  | exact => cases arrived <;> simp at hsettled ⊢
  | first => cases arrived <;> simp at hsettled ⊢
  | firstSuccess =>
    dsimp only at hsettled ⊢
    rw [hopen, Bool.or_false] at hsettled
    obtain ⟨b, hfind⟩ := Option.isSome_iff_exists.mp (List.find?_isSome.mpr (List.any_eq_true.mp hsettled))
    rw [List.any_append, hsettled, List.find?_append, hfind]
    exact ⟨rfl, rfl⟩
  | all =>
    rw [hopen] at hsettled
    cases hsettled

/-- What `complete_response` decides at an arrival is what the policy says of the arrivals so far. -/
theorem completesRequest_withAnswers (h : Arrived pending (arrived ++ [a]))
    (hopen : settled request.requestPolicy pending arrived = false) :
    completesRequest (withAnswers pending arrived) request a.1 a.2 =
        settled request.requestPolicy pending (arrived ++ [a]) ∧
      forwards request.requestPolicy pending (arrived ++ [a]) = forwards request.requestPolicy pending arrived ++
        (forwarded (withAnswers pending arrived) request a.1 a.2).toList := by
  have hadded : addResponse (withAnswers pending arrived) a.1 a.2 = answered pending (arrived ++ [a]) :=
    (answered_snoc pending arrived a).symm
  have hcompletes : completesRequest (withAnswers pending arrived) request a.1 a.2 =
      settled request.requestPolicy pending (arrived ++ [a]) := by
    unfold completesRequest
    rw [hadded, h.size_answered]
    unfold settled at hopen ⊢
    unfold responseCompletes
    cases hpolicy : request.requestPolicy with
    | exact => simp
    | first => simp
    | all => rfl
    | firstSuccess =>
      rw [hpolicy] at hopen
      obtain ⟨hnone, -⟩ := Bool.or_eq_false_iff.mp hopen
      dsimp only
      rw [List.any_append, hnone, Bool.false_or, List.any_cons, List.any_nil, Bool.or_false]
      rfl
  refine ⟨hcompletes, ?_⟩
  unfold forwarded
  rw [hcompletes, hadded]
  unfold settled at hopen
  unfold forwards responseForwarded settled
  cases hpolicy : request.requestPolicy with
  | exact =>
    obtain rfl : arrived = [] := by simpa [hpolicy] using hopen
    rfl
  | first =>
    obtain rfl : arrived = [] := by simpa [hpolicy] using hopen
    rfl
  | all => simp
  | firstSuccess =>
    rw [hpolicy] at hopen
    obtain ⟨hnone, hwaits⟩ := Bool.or_eq_false_iff.mp hopen
    have hfind : arrived.find? isSuccess = none := by
      rw [List.find?_eq_none]
      intro b hb hsuccess
      rw [List.any_eq_true.mpr ⟨b, hb, hsuccess⟩] at hnone
      cases hnone
    dsimp only
    rw [List.find?_append, hfind, hwaits, List.any_append, hnone]
    by_cases hsuccess : a.2.status = .success
    · simp [isSuccess, hsuccess]
    · by_cases hall : allResponded pending (arrived ++ [a]) = true <;> simp [isSuccess, hsuccess, hall]

end Arrival

/-! ## Sequences of responses -/

def Op.IsResponse (op : Op) : Prop :=
  ∃ peer r nowMs, op = .beginDelivery peer (.message r) nowMs ∧ r.kind = .response

def deliveredFrame : DeliveryEvent → Option Frame
  | .deliver _ _ frame => some frame
  | .result .. => none

/-- The responses forwarded for the request under `id` in a run, in order. -/
def forwardedIn (id : MessageId) (history : List (Op × Reply)) : List Frame :=
  (trace id history).filterMap deliveredFrame

/-- The entry and the events after these responses are what the policy says of the arrivals among them. -/
structure Collected (broker : Broker P) (id : MessageId) (pending : PendingDelivery) (request : Message)
    (history : List (Op × Reply)) (after : Broker P) : Prop where
  peers : after.peers = broker.peers
  entries : Entries after
  entry : after.deliveries.get? id =
    if settled request.requestPolicy pending (arrivals pending id (history.map Prod.fst)) then none
    else some (withAnswers pending (arrivals pending id (history.map Prod.fst)))
  forwarded : forwardedIn id history =
    forwards request.requestPolicy pending (arrivals pending id (history.map Prod.fst))
  requester : ∀ event ∈ trace id history, ∃ sender frame, event = .deliver sender [pending.sender] frame

/-- A response leaves the entry alone, or it is the answer of a recipient. -/
theorem Op.IsResponse.effect {op : Op} (hop : op.IsResponse) {reply : Reply} {before after : Option PendingDelivery}
    {events : List DeliveryEvent} (h : Effect op reply id before after events) :
    (after = before ∧ events = []) ∨ ∃ sender r nowMs pending request, Submits sender r nowMs op reply ∧
      r.kind = .response ∧ r.correlationId = id ∧ before = some pending ∧ pending.message = .message request ∧
      pending.recipients.contains sender = true ∧ pending.responses.contains sender = false ∧
      after = (if completesRequest pending request sender r then none
        else some { pending with responses := addResponse pending sender r }) ∧
      events = (forwarded pending request sender r).toList.map fun frame => .deliver sender [pending.sender] frame := by
  obtain ⟨peer, r, nowMs, rfl, hkind⟩ := hop
  cases h with
  | untouched => exact .inl ⟨rfl, rfl⟩
  | passed hcall hother =>
    obtain ⟨-, hframe, -⟩ := Op.beginDelivery.inj hcall.1
    exact absurd hkind (Frame.message.inj hframe ▸ hother)
  | inserted hcall hother =>
    obtain ⟨-, hframe, -⟩ := Op.beginDelivery.inj hcall.1
    exact absurd hkind (Frame.message.inj hframe ▸ hother)
  | acknowledged hop => cases hop
  | @answered pending request response sender nowMs' hcall hkind hid hmessage hrequest hrecipient hfirst =>
    exact .inr ⟨sender, response, nowMs', pending, request, hcall, hkind, hid, rfl, hmessage, hrecipient, hfirst,
      rfl, rfl⟩
  | ticked hop => cases hop
  | recipientLost hop => cases hop

section Request

variable {history : List (Op × Reply)} {after : Broker P} {op : Op}

theorem Collected.ignored (h : Collected broker id pending request history after) (hop : op.IsResponse)
    (hnone : arrivalOf pending id (arrivals pending id (history.map Prod.fst)) op = none ∨
      settled request.requestPolicy pending (arrivals pending id (history.map Prod.fst)) = true) :
    (exec after op).1.deliveries.get? id = after.deliveries.get? id ∧
      eventsAbout id (exec after op).2.events = [] := by
  rcases hop.effect (exec_effect h.entries op id) with hsame | ⟨sender, r, nowMs, pending', request', hcall, hkind, hid,
    hbefore, -, hrecipient, hfirst, -, -⟩
  · exact hsame
  exfalso
  rw [h.entry] at hbefore
  split_ifs at hbefore with hsettled
  obtain rfl := Option.some.inj hbefore
  obtain ⟨priority, hadmitted⟩ := hcall.admitted
  obtain ⟨rfl, -⟩ := hcall
  rcases hnone with hnone | hnone
  · have hnew := mt contains_answered.mpr (Bool.eq_false_iff.mp hfirst)
    rw [not_or] at hnew
    have hcounts : arrivalOf pending id (arrivals pending id (history.map Prod.fst))
        (.beginDelivery sender (.message r) nowMs) = some (sender, r) :=
      arrivalOf_eq_some.mpr ⟨⟨nowMs, rfl⟩, hkind, hid, hadmitted.admissible, hrecipient,
        Bool.eq_false_iff.mpr hnew.1, hnew.2⟩
    rw [hnone] at hcounts
    cases hcounts
  · exact hsettled hnone

/-- One more response, in terms of the arrivals with it. -/
theorem Collected.snoc (h : Collected broker id pending request history after) (hop : op.IsResponse)
    {arrived : List Arrival} (harrived : arrivals pending id (history.map Prod.fst) ++
      (arrivalOf pending id (arrivals pending id (history.map Prod.fst)) op).toList = arrived)
    (hentry : (exec after op).1.deliveries.get? id =
      if settled request.requestPolicy pending arrived then none else some (withAnswers pending arrived))
    (hforwards : forwards request.requestPolicy pending arrived =
      forwards request.requestPolicy pending (arrivals pending id (history.map Prod.fst)) ++
        (eventsAbout id (exec after op).2.events).filterMap deliveredFrame)
    (hrequester : ∀ event ∈ eventsAbout id (exec after op).2.events,
      ∃ sender frame, event = .deliver sender [pending.sender] frame) :
    Collected broker id pending request (history ++ [(op, (exec after op).2)]) (exec after op).1 := by
  have hmap : arrivals pending id ((history ++ [(op, (exec after op).2)]).map Prod.fst) = arrived := by
    rw [List.map_append, List.map_singleton, arrivals_snoc, harrived]
  refine ⟨?_, exec_entries after op h.entries, ?_, ?_, ?_⟩
  · obtain ⟨peer, r, nowMs, rfl, -⟩ := hop
    exact (exec_samePeers after (fun _ _ hop => by cases hop) (fun _ hop => by cases hop)).peers.trans h.peers
  · rw [hmap, hentry]
  · rw [hmap, hforwards, ← h.forwarded]
    unfold forwardedIn
    rw [trace_snoc, List.filterMap_append]
  · rw [trace_snoc]
    exact fun event hevent => (List.mem_append.mp hevent).elim (h.requester event) (hrequester event)

theorem Collected.snoc_ignored (h : Collected broker id pending request history after) (hop : op.IsResponse)
    {arrived : List Arrival} (harrived : arrivals pending id (history.map Prod.fst) ++
      (arrivalOf pending id (arrivals pending id (history.map Prod.fst)) op).toList = arrived)
    (hsame : (exec after op).1.deliveries.get? id = after.deliveries.get? id)
    (hsilent : eventsAbout id (exec after op).2.events = [])
    (hentry : after.deliveries.get? id =
      if settled request.requestPolicy pending arrived then none else some (withAnswers pending arrived))
    (hforwards : forwards request.requestPolicy pending arrived =
      forwards request.requestPolicy pending (arrivals pending id (history.map Prod.fst))) :
    Collected broker id pending request (history ++ [(op, (exec after op).2)]) (exec after op).1 := by
  refine h.snoc hop harrived (hsame.trans hentry) ?_ ?_
  · rw [hsilent, List.filterMap_nil, List.append_nil, hforwards]
  · rw [hsilent]
    exact fun _ hevent => (List.not_mem_nil hevent).elim

theorem collected_step (hmessage : pending.message = .message request) (hkind : request.kind = .request)
    (hstate : ResponseState request pending)
    (hconnected : ∀ peer, pending.recipients.contains peer = true → broker.peers.contains peer = true)
    (h : Collected broker id pending request history after) (hop : op.IsResponse) :
    Collected broker id pending request (history ++ [(op, (exec after op).2)]) (exec after op).1 := by
  cases ha : arrivalOf pending id (arrivals pending id (history.map Prod.fst)) op with
  | none =>
    obtain ⟨hsame, hsilent⟩ := h.ignored hop (.inl ha)
    exact h.snoc_ignored hop (by rw [ha, Option.toList_none, List.append_nil]) hsame hsilent h.entry rfl
  | some a =>
    have hlonger := (arrived_arrivals pending id (history.map Prod.fst)).snoc ha
    cases hsettled : settled request.requestPolicy pending (arrivals pending id (history.map Prod.fst)) with
    | true =>
      obtain ⟨hsame, hsilent⟩ := h.ignored hop (.inr hsettled)
      obtain ⟨hstill, hforwards⟩ := settled_snoc hlonger hstate.responders hsettled
      refine h.snoc_ignored hop (by rw [ha, Option.toList_some]) hsame hsilent ?_ hforwards
      rw [h.entry, if_pos hsettled, if_pos hstill]
    | false =>
      obtain ⟨⟨nowMs, rfl⟩, hresponse, hid, hadmissible, hrecipient, hfresh, hnew⟩ := arrivalOf_eq_some.mp ha
      have hfound := h.entry
      rw [if_neg (by simp [hsettled])] at hfound
      have hunanswered : (answered pending (arrivals pending id (history.map Prod.fst))).contains a.1 = false := by
        rw [Bool.eq_false_iff, ne_eq, contains_answered, hfresh]
        exact fun hor => hnew (hor.resolve_left Bool.false_ne_true)
      have hexpected : Expected after a.1 a.2
          (withAnswers pending (arrivals pending id (history.map Prod.fst))) request :=
        ⟨hid ▸ hfound, hmessage, hkind, hrecipient, hunanswered⟩
      obtain ⟨hentry, hevents⟩ := @respond_accepted _ _ _ _ _ _ _ nowMs h.entries hresponse
        (h.peers ▸ hconnected a.1 hrecipient) hadmissible hexpected
      obtain ⟨hcompletes, hforwards⟩ := completesRequest_withAnswers hlonger hsettled
      rw [hid] at hentry hevents
      refine h.snoc hop (by rw [ha, Option.toList_some]) ?_ ?_ ?_
      · rw [hentry, hcompletes]
        unfold withAnswers
        rw [answered_snoc]
        rfl
      · rw [hforwards, hevents]
        congr 1
        cases forwarded (withAnswers pending (arrivals pending id (history.map Prod.fst))) request a.1 a.2 <;> rfl
      · rw [hevents]
        intro event hevent
        obtain ⟨frame, -, rfl⟩ := List.mem_map.mp hevent
        exact ⟨a.1, frame, rfl⟩

theorem collected_run (hentries : Entries broker) (hget : broker.deliveries.get? id = some pending)
    (hmessage : pending.message = .message request) (hkind : request.kind = .request)
    (hstate : ResponseState request pending)
    (hconnected : ∀ peer, pending.recipients.contains peer = true → broker.peers.contains peer = true)
    (hrun : Run exec broker history after) (hall : ∀ e ∈ history, e.1.IsResponse) :
    Collected broker id pending request history after := by
  induction hrun with
  | nil =>
    refine ⟨rfl, hentries, ?_, (forwards_nil hstate).symm, fun _ hevent => (List.not_mem_nil hevent).elim⟩
    rw [hget, if_neg (by simp [arrivals, hstate.unsettled])]
    rfl
  | @snoc s' s'' h op reply hrun hstep ih =>
    have hbefore := ih fun e he => hall e (List.mem_append_left _ he)
    have hafter := collected_step hmessage hkind hstate hconnected hbefore
      (hall (op, reply) (List.mem_append_right _ (List.mem_singleton_self _)))
    rwa [hstep] at hafter

end Request

def Responded (pending : PendingDelivery) (arrived : List Arrival) : Prop :=
  ∀ peer, pending.recipients.contains peer = true →
    pending.responses.contains peer = true ∨ peer ∈ arrived.map Prod.fst

/-- Counting the responses is the same as looking for a recipient that has not responded. -/
theorem Arrived.allResponded_iff {arrived : List Arrival} (h : Arrived pending arrived)
    (hresponders : ∀ peer, pending.responses.contains peer = true → pending.recipients.contains peer = true) :
    allResponded pending arrived = true ↔ Responded pending arrived := by
  unfold allResponded
  rw [decide_eq_true_iff, ← h.size_answered, OrdMap.size_eq_iff_of_subset (h.recipient_of_answered hresponders)]
  exact forall₂_congr fun peer _ => contains_answered

/-! ## The policies over every sequence of responses -/

/-- What the broker did with the request under `id`, given the responses that arrived for it. -/
structure Aggregated (id : MessageId) (pending : PendingDelivery) (policy : RequestPolicy) (arrived : List Arrival)
    (history : List (Op × Reply)) (after : Broker P) : Prop where
  counted : Arrived pending arrived
  rejected : ∀ peer r nowMs, r.kind = .response → r.correlationId = id →
    (pending.recipients.contains peer = false ∨ pending.responses.contains peer = true ∨
      peer ∈ arrived.map Prod.fst) →
    ∃ error, exec after (.beginDelivery peer (.message r) nowMs) = (after, .delivery (.error error))
  requester : ∀ event ∈ trace id history, ∃ sender frame, event = .deliver sender [pending.sender] frame
  first : policy = .first →
    forwardedIn id history = (arrived.take 1).map (fun a => .message a.2) ∧
      (after.deliveries.get? id = none ↔ arrived ≠ [])
  succeeded : policy = .firstSuccess → ∀ a, arrived.find? isSuccess = some a →
    forwardedIn id history = [.message a.2] ∧ after.deliveries.get? id = none
  failed : policy = .firstSuccess → arrived.find? isSuccess = none → Responded pending arrived →
    after.deliveries.get? id = none ∧ ∃ r, forwardedIn id history = [.message r] ∧ r.status ≠ .success ∧
      (r ∈ arrived.map Prod.snd ∨ ∃ peer, pending.responses.get? peer = some (.message r))
  undecided : policy = .firstSuccess → arrived.find? isSuccess = none → ¬ Responded pending arrived →
    forwardedIn id history = [] ∧ after.deliveries.get? id = some (withAnswers pending arrived)
  all : policy = .all →
    forwardedIn id history = arrived.map (fun a => .message a.2) ∧
      (after.deliveries.get? id = none ↔ Responded pending arrived)

section Reachable

variable {policy : P} {limits : Limits} {capabilities : Capabilities} {past history : List (Op × Reply)}
  {after : Broker P}

theorem collected_of_run (hreach : Run exec (Broker.empty policy limits capabilities) past broker)
    (hget : broker.deliveries.get? id = some pending) (hmessage : pending.message = .message request)
    (hkind : request.kind = .request) (hrun : Run exec broker history after)
    (hall : ∀ e ∈ history, e.1.IsResponse) :
    ResponseState request pending ∧ Collected broker id pending request history after := by
  obtain ⟨m, hm, -, hstate⟩ := responseState_of_run hreach hget
  obtain rfl : m = request := Frame.message.inj (hm.symm.trans hmessage)
  have hsound := run_sound hreach (sound_empty policy limits capabilities)
  exact ⟨hstate, collected_run hsound.2 hget hmessage hkind hstate (hsound.1.recipient id pending hget) hrun hall⟩

theorem Collected.rejected (h : Collected broker id pending request history after) {peer : PeerId} {r : Message}
    (nowMs : UInt64) (hkind : r.kind = .response) (hid : r.correlationId = id)
    (hinvalid : pending.recipients.contains peer = false ∨ pending.responses.contains peer = true ∨
      peer ∈ (arrivals pending id (history.map Prod.fst)).map Prod.fst) :
    ∃ error, exec after (.beginDelivery peer (.message r) nowMs) = (after, .delivery (.error error)) := by
  refine respond_rejected hkind fun pending' request' hexpected => ?_
  have hfound := hexpected.found
  rw [hid, h.entry] at hfound
  split_ifs at hfound
  obtain rfl := Option.some.inj hfound
  rcases hinvalid with hstranger | hagain
  · exact Bool.false_ne_true (hstranger.symm.trans hexpected.recipient)
  · exact Bool.false_ne_true (hexpected.unanswered.symm.trans (contains_answered.mpr hagain))

theorem get?_answered {arrived : List Arrival} {peer : PeerId} {frame : Frame}
    (h : (answered pending arrived).get? peer = some frame) :
    (∃ a ∈ arrived, frame = .message a.2) ∨ pending.responses.get? peer = some frame := by
  induction arrived using List.reverseRecOn with
  | nil => exact .inr h
  | append_singleton arrived a ih =>
    rw [answered_snoc, OrdMap.get?_insert] at h
    split_ifs at h with heq
    · exact .inl ⟨a, List.mem_append_right _ (List.mem_singleton_self a), (Option.some.inj h).symm⟩
    · obtain ⟨b, hb, hframe⟩ | hold := ih h
      · exact .inl ⟨b, List.mem_append_left _ hb, hframe⟩
      · exact .inr hold

/-- If nobody succeeded, the response that is forwarded in the end is a failure. -/
theorem forwards_failure (hstate : ResponseState request pending) {arrived : List Arrival}
    (hcounted : Arrived pending arrived) (hpolicy : request.requestPolicy = .firstSuccess)
    (hfind : arrived.find? isSuccess = none) (hresponded : allResponded pending arrived = true) :
    ∃ r, forwards request.requestPolicy pending arrived = [.message r] ∧ r.status ≠ .success ∧
      (r ∈ arrived.map Prod.snd ∨ ∃ peer, pending.responses.get? peer = some (.message r)) := by
  have hsize := hcounted.size_answered
  have hpositive := hstate.several (.inl hpolicy)
  have hfull : pending.responses.size + arrived.length = pending.recipients.size := of_decide_eq_true hresponded
  unfold forwards
  rw [hpolicy]
  dsimp only
  rw [hfind, hresponded]
  cases hvalues : (answered pending arrived).values with
  | nil =>
    have hzero : (answered pending arrived).values.length = (answered pending arrived).size := List.length_map _
    rw [hvalues, List.length_nil] at hzero
    omega
  | cons frame rest =>
    have hmem : frame ∈ (answered pending arrived).values := hvalues ▸ List.mem_cons_self
    obtain ⟨peer, hpeer⟩ := OrdMap.mem_values_iff.mp hmem
    rcases get?_answered hpeer with ⟨a, ha, rfl⟩ | hold
    · refine ⟨a.2, rfl, fun hsuccess => ?_, .inl (List.mem_map_of_mem ha)⟩
      exact List.find?_eq_none.mp hfind a ha (decide_eq_true hsuccess)
    · obtain ⟨r, rfl, hfailure⟩ := hstate.unsuccessful hpolicy peer frame hold
      exact ⟨r, rfl, hfailure, .inr ⟨peer, hold⟩⟩

/-- In every sequence of responses by any peers, the request is answered as its policy says. -/
theorem responses_aggregated (hreach : Run exec (Broker.empty policy limits capabilities) past broker)
    (hget : broker.deliveries.get? id = some pending) (hmessage : pending.message = .message request)
    (hkind : request.kind = .request) (hrun : Run exec broker history after)
    (hall : ∀ e ∈ history, e.1.IsResponse) :
    Aggregated id pending request.requestPolicy (arrivals pending id (history.map Prod.fst)) history after := by
  obtain ⟨hstate, hcollected⟩ := collected_of_run hreach hget hmessage hkind hrun hall
  have hcounted := arrived_arrivals pending id (history.map Prod.fst)
  have hresponded := hcounted.allResponded_iff hstate.responders
  have hentry := hcollected.entry
  have hforwarded := hcollected.forwarded
  generalize harrived : arrivals pending id (history.map Prod.fst) = arrived at *
  refine ⟨hcounted, fun peer r nowMs hkind hid hinvalid => hcollected.rejected nowMs hkind hid (harrived ▸ hinvalid),
    hcollected.requester, ?_, ?_, ?_, ?_, ?_⟩
  all_goals intro hpolicy
  · rw [hentry, hforwarded, hpolicy]
    refine ⟨rfl, ?_⟩
    cases arrived <;> simp [settled]
  · intro a hfind
    have hany : arrived.any isSuccess = true :=
      List.any_eq_true.mpr ⟨a, List.mem_of_find?_eq_some hfind, List.find?_some hfind⟩
    rw [hentry, hforwarded, hpolicy]
    simp [forwards, settled, hfind, hany]
  · intro hfind hyes
    have hfull := hresponded.mpr hyes
    rw [hentry, hforwarded]
    refine ⟨?_, forwards_failure hstate hcounted hpolicy hfind hfull⟩
    simp [settled, hpolicy, hfull]
  · intro hfind hno
    have hopen := Bool.eq_false_iff.mpr (mt hresponded.mp hno)
    have hany : arrived.any isSuccess = false := by
      rw [List.any_eq_false]
      exact List.find?_eq_none.mp hfind
    rw [hentry, hforwarded, hpolicy]
    simp [forwards, settled, hfind, hany, hopen]
  · rw [hentry, hforwarded, hpolicy]
    refine ⟨rfl, ?_⟩
    rw [← hresponded]
    cases hfull : allResponded pending arrived <;> simp [settled, hfull]

end Reachable

/-- A request for two peers, which succeeds with the second. -/
def raceRequest (policy : RequestPolicy) : Message := plainRequest (numberedId 1) .received .all policy .broadcast

def raceStart (policy : RequestPolicy) : List (Op × Reply) × Broker AllowAll :=
  run exec (Broker.empty .mk .default ∅)
    [plainConnect, plainConnect, plainConnect, .beginDelivery (.new 1) (.message (raceRequest policy)) 0]

def racePending (policy : RequestPolicy) : PendingDelivery :=
  newPending (.new 1) (raceRequest policy) (OrdSet.ofList [.new 2, .new 3]) 1000 0 0

/-- A failure, a second response of the same peer, a response of the requester itself, and a success. -/
def raceResponses : List Op :=
  [.beginDelivery (.new 3) (.message (plainResponse (numberedId 3) (numberedId 1) .error)) 1,
    .beginDelivery (.new 3) (.message (plainResponse (numberedId 4) (numberedId 1) .success)) 2,
    .beginDelivery (.new 1) (.message (plainResponse (numberedId 5) (numberedId 1) .success)) 3,
    .beginDelivery (.new 2) (.message (plainResponse (numberedId 6) (numberedId 1) .success)) 4]

def raceRun (policy : RequestPolicy) : List (Op × Reply) × Broker AllowAll :=
  run exec (raceStart policy).2 raceResponses

theorem responses_aggregated_raceRun :
    Aggregated (numberedId 1) (racePending .firstSuccess) .firstSuccess
      [(.new 3, plainResponse (numberedId 3) (numberedId 1) .error),
        (.new 2, plainResponse (numberedId 6) (numberedId 1) .success)]
      (raceRun .firstSuccess).1 (raceRun .firstSuccess).2 := by
  have hget : (raceStart .firstSuccess).2.deliveries.get? (numberedId 1) = some (racePending .firstSuccess) := by
    decide +kernel
  have hall : ∀ op ∈ raceResponses, op.IsResponse := by
    unfold raceResponses
    simp only [List.forall_mem_cons]
    exact ⟨⟨_, _, _, rfl, rfl⟩, ⟨_, _, _, rfl, rfl⟩, ⟨_, _, _, rfl, rfl⟩, ⟨_, _, _, rfl, rfl⟩, List.forall_mem_nil _⟩
  have h := responses_aggregated (run_spec _ _) hget rfl rfl (run_spec _ raceResponses) (forall_run_inputs hall)
  rw [run_inputs] at h
  have harrived : arrivals (racePending .firstSuccess) (numberedId 1) raceResponses =
      [(.new 3, plainResponse (numberedId 3) (numberedId 1) .error),
        (.new 2, plainResponse (numberedId 6) (numberedId 1) .success)] := by decide +kernel
  rwa [harrived] at h

/-! ## `EXACT` -/

/-- No sequence of responses removes the entry while a recipient has not responded. -/
def WaitsForAll (broker : Broker P) (id : MessageId) (pending : PendingDelivery) : Prop :=
  ∀ history after, Run exec broker history after → (∀ e ∈ history, e.1.IsResponse) →
    ¬ Responded pending (arrivals pending id (history.map Prod.fst)) → after.deliveries.get? id ≠ none

section Reachable

variable {policy : P} {limits : Limits} {capabilities : Capabilities} {past : List (Op × Reply)}

theorem recipients_of_run (hreach : Run exec (Broker.empty policy limits capabilities) past broker)
    (hget : broker.deliveries.get? id = some pending) : 0 < pending.recipients.size := by
  have hall := run_kept (A := fun _ => True) (Q := fun _ pending => 0 < pending.recipients.size) ?_ ?_
    hreach (fun _ _ => trivial) hget
  · obtain ⟨m, -, -, hsize⟩ := hall
    exact hsize
  · intro b sender m recipients nowMs deadlineMs priority _ _ hretained
    exact OrdMap.isEmpty_eq_false_iff.mp hretained.nonempty
  · intro m pending pending' _ hsize hkept
    cases hkept <;> exact hsize

/-- An `EXACT` request is gone after the response of any one of its recipients. -/
theorem exact_gone (hreach : Run exec (Broker.empty policy limits capabilities) past broker)
    (hget : broker.deliveries.get? id = some pending) (hmessage : pending.message = .message request)
    (hkind : request.kind = .request) (hpolicy : request.requestPolicy = .exact) {peer : PeerId}
    (hpeer : pending.recipients.contains peer = true) :
    ∃ history after, Run exec broker history after ∧ (∀ e ∈ history, e.1.IsResponse) ∧
      (arrivals pending id (history.map Prod.fst)).map Prod.fst = [peer] ∧ after.deliveries.get? id = none := by
  let op : Op := .beginDelivery peer (.message (plainResponse (numberedId 2) id .success)) 0
  have hall : ∀ op' ∈ [op], op'.IsResponse := by
    intro op' hmem
    rw [List.mem_singleton.mp hmem]
    exact ⟨_, _, _, rfl, rfl⟩
  obtain ⟨hstate, hcollected⟩ := collected_of_run hreach hget hmessage hkind (run_spec broker [op])
    (forall_run_inputs hall)
  have harrived : arrivals pending id [op] = [(peer, plainResponse (numberedId 2) id .success)] := by
    have hfirst : arrivalOf pending id [] op = some (peer, plainResponse (numberedId 2) id .success) := by
      refine arrivalOf_eq_some.mpr ⟨⟨0, rfl⟩, rfl, rfl, rfl, hpeer, ?_, List.not_mem_nil⟩
      rw [hstate.single (.inl hpolicy)]
      rfl
    show [] ++ (arrivalOf pending id [] op).toList = _
    rw [hfirst]
    rfl
  have hentry := hcollected.entry
  rw [run_inputs, harrived, hpolicy] at hentry
  refine ⟨_, _, run_spec broker [op], forall_run_inputs hall, ?_, hentry⟩
  rw [run_inputs, harrived]
  rfl

/-- The first response removes an `EXACT` request, so that it waits for all its recipients exactly if it has one. -/
theorem exact_complete_iff (hreach : Run exec (Broker.empty policy limits capabilities) past broker)
    (hget : broker.deliveries.get? id = some pending) (hmessage : pending.message = .message request)
    (hkind : request.kind = .request) (hpolicy : request.requestPolicy = .exact) :
    WaitsForAll broker id pending ↔ pending.recipients.size = 1 := by
  have hpositive := recipients_of_run hreach hget
  refine ⟨fun hwaits => ?_, fun hone history after hrun hall hmissing hnone => ?_⟩
  · by_contra hmany
    -- two recipients: the response of one removes the request, and the other is still to respond
    have hcard : 1 < (OrdSet.toFinset pending.recipients).card := by
      rw [OrdSet.card_toFinset]
      omega
    obtain ⟨first, hfirst, second, hsecond, hne⟩ := Finset.one_lt_card.mp hcard
    rw [OrdSet.mem_toFinset] at hfirst hsecond
    obtain ⟨history, after, hrun, hall, harrived, hgone⟩ :=
      exact_gone hreach hget hmessage hkind hpolicy hfirst
    refine hwaits history after hrun hall (fun hresponded => ?_) hgone
    obtain ⟨m, hm, -, hstate⟩ := responseState_of_run hreach hget
    obtain rfl : m = request := Frame.message.inj (hm.symm.trans hmessage)
    rcases hresponded second hsecond with hbefore | hnow
    · rw [hstate.single (.inl hpolicy)] at hbefore
      cases hbefore
    · rw [harrived, List.mem_singleton] at hnow
      exact hne hnow.symm
  · obtain ⟨hstate, hcollected⟩ := collected_of_run hreach hget hmessage hkind hrun hall
    have hcounted := arrived_arrivals pending id (history.map Prod.fst)
    have hle := hcounted.size_le hstate.responders
    refine hmissing ((hcounted.allResponded_iff hstate.responders).mp (decide_eq_true ?_))
    have hentry := hcollected.entry
    rw [hnone, hpolicy] at hentry
    have hsome : arrivals pending id (history.map Prod.fst) ≠ [] := by
      intro hnil
      rw [hnil] at hentry
      cases hentry
    have hlength := List.length_pos_iff.mpr hsome
    omega

end Reachable

def loneStart : List (Op × Reply) × Broker AllowAll :=
  run exec (Broker.empty .mk .default ∅)
    [plainConnect, plainConnect, .beginDelivery (.new 1) (.message (raceRequest .exact)) 0]

def lonePending : PendingDelivery := newPending (.new 1) (raceRequest .exact) (OrdSet.ofList [.new 2]) 1000 0 0

theorem exact_complete_iff_loneStart :
    loneStart.2.deliveries.get? (numberedId 1) = some lonePending ∧
      WaitsForAll loneStart.2 (numberedId 1) lonePending := by
  have hget : loneStart.2.deliveries.get? (numberedId 1) = some lonePending := by decide +kernel
  exact ⟨hget, (exact_complete_iff (run_spec _ _) hget rfl rfl rfl).mpr rfl⟩

/-- The first of two recipients responds to an `EXACT` request, and the request is gone. -/
theorem exactRequest_gone :
    (racePending .exact).recipients.keys = [.new 2, .new 3] ∧
      (raceStart .exact).2.deliveries.get? (numberedId 1) = some (racePending .exact) ∧
      (run exec (raceStart .exact).2 (raceResponses.take 1)).2.deliveries.get? (numberedId 1) = none := by
  decide +kernel

end Busd.Broker
