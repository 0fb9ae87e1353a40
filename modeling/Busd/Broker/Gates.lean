import Busd.Broker.Ticks
import Busd.Lib.Related

/-!
# Policies and limits are gates

A policy or a limit answers a call with a refusal or leaves it alone: it chooses no recipient, delays nothing and is
stored nowhere. The broker is therefore the broker without policy and limits, some of whose calls are refused.

* `Error.isRefusal`, `granted` : the errors of policies and limits, and the calls of a history without them;
* `Loosened` : two brokers up to policy, limits and what is counted for the monitor, where the second one permits what
  the first one permits and has at least its limits;
* `exec_loosened` : a call is refused, and the second broker can do without it, or both return the same;
* `run_loosened` : every run, without the refused calls, is a run of the looser broker with the same replies.
-/

namespace Busd.Broker

open Words Machine Busd.Protocol Busd.Policy

variable {P Q : Type} [Policy P] [Policy Q] {α β : Type}

/-! ## Refusals -/

/-- The errors that come from the policy or a limit. -/
def Error.isRefusal : Error → Bool
  | .denied _ | .limitExceeded _ => true
  | _ => false

def Reply.isRefusal : Reply → Bool
  | .connected (.error error) | .completed (.error error) | .delivery (.error error) => error.isRefusal
  | _ => false

def granted (history : List (Op × Reply)) : List (Op × Reply) := history.filter fun e => !e.2.isRefusal

structure Limits.Within (limits limits' : Limits) : Prop where
  queuedBytes : limits.maximumQueuedBytes ≤ limits'.maximumQueuedBytes
  queuedMessages : limits.maximumQueuedMessages ≤ limits'.maximumQueuedMessages
  inFlightRequests : limits.maximumInFlightRequests ≤ limits'.maximumInFlightRequests
  subscriptions : limits.maximumSubscriptions ≤ limits'.maximumSubscriptions
  namespaceClaims : limits.maximumNamespaceClaims ≤ limits'.maximumNamespaceClaims

def PermitsMore (policy : P) (policy' : Q) : Prop :=
  ∀ request, Policy.permits policy request = true → Policy.permits policy' request = true

/-! ## Brokers up to their gates -/

/-- The same registry and deliveries under another policy and other limits, with other records of what happened. -/
def regated (broker : Broker P) (policy : Q) (limits : Limits) (metrics : Metrics) (monitorEvents : List MonitorEvent)
    (nextMonitorSequence : UInt64) : Broker Q where
  policy := policy
  limits := limits
  capabilities := broker.capabilities
  nextPeer := broker.nextPeer
  peers := broker.peers
  namespaces := broker.namespaces
  dbusNames := broker.dbusNames
  subscriptions := broker.subscriptions
  deliveries := broker.deliveries
  events := broker.events
  metrics := metrics
  monitorEvents := monitorEvents
  nextMonitorSequence := nextMonitorSequence

/-- The second broker differs in its gates and records only, and refuses no more than the first one. -/
inductive Loosened (broker : Broker P) : Broker Q → Prop
  | mk {policy : Q} {limits : Limits} {metrics : Metrics} {monitorEvents : List MonitorEvent}
      {nextMonitorSequence : UInt64} (hpolicy : PermitsMore broker.policy policy)
      (hlimits : broker.limits.Within limits) :
      Loosened broker (broker.regated policy limits metrics monitorEvents nextMonitorSequence)

structure Agrees (o : Broker P × α) (o' : Broker Q × α) : Prop where
  state : Loosened o.1 o'.1
  result : o'.2 = o.2

def refuses : Except Error α → Bool
  | .error error => error.isRefusal
  | .ok _ => false

/-- The second broker returns the same unless the first one refuses; then it need not make the call. -/
structure Follows (origin : Broker Q) (o : Outcome P α) (o' : Outcome Q α) : Prop where
  granted : refuses o.2 = false → Agrees o o'
  refused : refuses o.2 = true → Loosened o.1 origin

/-- A check of both brokers comes to the same, or the first one refuses. -/
def Gated (x x' : Except Error α) : Prop := x' = x ∨ ∃ error, x = .error error ∧ error.isRefusal = true

variable {broker : Broker P} {broker' origin : Broker Q}

theorem Loosened.of (heq : broker' = broker.regated broker'.policy broker'.limits broker'.metrics
      broker'.monitorEvents broker'.nextMonitorSequence)
    (hpolicy : PermitsMore broker.policy broker'.policy) (hlimits : broker.limits.Within broker'.limits) :
    Loosened broker broker' := by
  rw [heq]
  exact ⟨hpolicy, hlimits⟩

theorem agrees_of (h : Loosened broker broker') {a : α} : Agrees (broker, a) (broker', a) := ⟨h, rfl⟩

theorem follows_of (horigin : Loosened broker origin) (h : Loosened broker broker') {a : Except Error α} :
    Follows origin (broker, a) (broker', a) :=
  ⟨fun _ => agrees_of h, fun _ => horigin⟩

theorem follows_granted {a : Except Error α} (ha : refuses a = false) (h : Loosened broker broker') :
    Follows origin (broker, a) (broker', a) :=
  ⟨fun _ => agrees_of h, fun hrefused => absurd (ha.symm.trans hrefused) Bool.false_ne_true⟩

theorem follows_refused {error : Error} (herror : error.isRefusal = true) (horigin : Loosened broker origin)
    {o' : Outcome Q α} : Follows origin (broker, .error error) o' :=
  ⟨fun hgranted => absurd (hgranted.symm.trans herror) Bool.false_ne_true, fun _ => horigin⟩

theorem follows_orReturn (horigin : Loosened broker origin) (h : Loosened broker broker') {x x' : Except Error β}
    (hx : Gated x x') {next : β → Outcome P α} {next' : β → Outcome Q α}
    (hnext : ∀ b, Follows origin (next b) (next' b)) :
    Follows origin (broker.orReturn x next) (broker'.orReturn x' next') := by
  rcases hx with rfl | ⟨error, rfl, hrefusal⟩
  · cases x' with
    | error error => exact follows_of horigin h
    | ok b => exact hnext b
  · exact follows_refused hrefusal horigin

theorem follows_ite {p : Prop} [Decidable p] {a b : Outcome P α} {a' b' : Outcome Q α} (h : Follows origin a a')
    (h' : Follows origin b b') : Follows origin (if p then a else b) (if p then a' else b') := by
  split_ifs
  · exact h
  · exact h'

/-- A limit that both brokers check: where the second one reaches it, so does the first one. -/
theorem follows_limit {p p' : Prop} [Decidable p] [Decidable p'] (himp : p' → p) (horigin : Loosened broker origin)
    {limit : Limit} {a : Outcome P α} {a' b' : Outcome Q α} (h : Follows origin a a') :
    Follows origin (if p then (broker, .error (.limitExceeded limit)) else a) (if p' then b' else a') := by
  by_cases hp : p
  · rw [if_pos hp]
    exact follows_refused rfl horigin
  · rw [if_neg hp, if_neg (mt himp hp)]
    exact h

/-! ## Checks -/

theorem gated_bind {x x' : Except Error β} (hx : Gated x x') {f f' : β → Except Error α}
    (hf : ∀ b, Gated (f b) (f' b)) : Gated (x >>= f) (x' >>= f') := by
  rcases hx with rfl | ⟨error, rfl, hrefusal⟩
  · cases x' with
    | error error => exact .inl rfl
    | ok b => exact hf b
  · exact .inr ⟨error, rfl, hrefusal⟩

theorem gated_permits {policy : P} {policy' : Q} (h : PermitsMore policy policy') (request : Request)
    (action : Action) :
    Gated (if Policy.permits policy request then .ok () else .error (.denied action))
      (if Policy.permits policy' request then .ok () else .error (.denied action)) := by
  cases hpermits : Policy.permits policy request with
  | true =>
    rw [if_pos (h request hpermits)]
    exact .inl rfl
  | false => exact .inr ⟨.denied action, rfl, rfl⟩

theorem gated_limit {p p' : Prop} [Decidable p] [Decidable p'] (himp : p' → p) {limit : Limit}
    {x x' y' : Except Error α} (h : Gated x x') :
    Gated (if p then .error (.limitExceeded limit) else x) (if p' then y' else x') := by
  by_cases hp : p
  · rw [if_pos hp]
    exact .inr ⟨_, rfl, rfl⟩
  · rw [if_neg hp, if_neg (mt himp hp)]
    exact h

theorem authorizeHello_gated (h : Loosened broker broker') (credentials : Credentials) (hello : ClientHello)
    (action : Action) :
    Gated (broker.authorizeHello credentials hello action) (broker'.authorizeHello credentials hello action) := by
  obtain ⟨hpolicy, -⟩ := h
  exact gated_permits hpolicy _ _

theorem authorize_gated (h : Loosened broker broker') (peer : PeerId) (action : Action) :
    Gated (broker.authorize peer action) (broker'.authorize peer action) := by
  obtain ⟨hpolicy, -⟩ := h
  unfold authorize regated
  dsimp only
  cases broker.peers.get? peer with
  | none => exact .inl rfl
  | some found => exact gated_permits hpolicy _ _

theorem credentials_loosened (h : Loosened broker broker') (peer : PeerId) :
    broker'.credentials peer = broker.credentials peer := by
  obtain ⟨-, -⟩ := h
  rfl

theorem candidates_gated (h : Loosened broker broker') (sender : PeerId) (destination : Destination)
    (headers : Headers) :
    Gated (broker.candidates sender destination headers) (broker'.candidates sender destination headers) := by
  have hauth := fun action => authorize_gated h sender action
  obtain ⟨-, -⟩ := h
  cases destination with
  | broker => exact .inl rfl
  | peer peer => exact gated_bind (hauth _) fun _ => .inl rfl
  | «namespace» ns => exact gated_bind (hauth _) fun _ => .inl rfl
  | channel channel => exact gated_bind (hauth _) fun _ => .inl rfl
  | clientId clientId selection => exact gated_bind (hauth _) fun _ => .inl rfl
  | broadcast => exact gated_bind (hauth _) fun _ => .inl rfl

theorem route_gated (h : Loosened broker broker') (sender : PeerId) (destination : Destination) (headers : Headers) :
    Gated (broker.route sender destination headers) (broker'.route sender destination headers) := by
  unfold route
  rw [credentials_loosened h]
  exact gated_bind (.inl rfl) fun _ => gated_bind (candidates_gated h sender destination headers) fun _ => .inl rfl

theorem ensureDeliveryCapacity_gated (h : Loosened broker broker') (sender : PeerId) (message : Frame)
    (isRequestMessage : Bool) :
    Gated (broker.ensureDeliveryCapacity sender message isRequestMessage)
      (broker'.ensureDeliveryCapacity sender message isRequestMessage) := by
  obtain ⟨-, hlimits⟩ := h
  refine gated_limit (fun hfull => hlimits.queuedMessages.trans hfull) ?_
  refine gated_limit (fun hlarge => hlimits.queuedBytes.trans_lt hlarge) ?_
  refine gated_limit (fun hbusy => ⟨hbusy.1, hlimits.inFlightRequests.trans hbusy.2⟩) ?_
  exact .inl rfl

/-! ## The registry -/

theorem connectSession_loosened (h : Loosened broker broker') (credentials : Credentials) (hello : ClientHello) :
    Follows broker' (broker.connectSession credentials hello) (broker'.connectSession credentials hello) := by
  have hauth := authorizeHello_gated h credentials hello .connect
  have hstate := h
  obtain ⟨hpolicy, hlimits⟩ := h
  refine follows_orReturn hstate hstate (.inl rfl) fun _ => ?_
  refine follows_orReturn hstate hstate hauth fun _ => ?_
  dsimp only [regated]
  cases checkedAdd broker.nextPeer 1 with
  | none => exact follows_of hstate hstate
  | some nextPeer => exact follows_granted rfl (.of rfl hpolicy hlimits)

theorem claim_loosened (h : Loosened broker broker') (peer : PeerId) (ns : Namespace) :
    Follows broker' (broker.claim peer ns) (broker'.claim peer ns) := by
  have hauth := authorize_gated h peer (.claimNamespace ns)
  have hstate := h
  obtain ⟨hpolicy, hlimits⟩ := h
  refine follows_orReturn hstate hstate hauth fun _ => ?_
  refine follows_limit (fun hfull => hlimits.namespaceClaims.trans hfull) hstate ?_
  dsimp only [regated]
  cases broker.namespaces.get? ns with
  | some owner => exact follows_of hstate hstate
  | none => exact follows_granted rfl (.of rfl hpolicy hlimits)

theorem subscribeWithFilters_loosened (h : Loosened broker broker') (peer : PeerId) (channel : Channel)
    (filters : List HeaderFilter) :
    Follows broker' (broker.subscribeWithFilters peer channel filters)
      (broker'.subscribeWithFilters peer channel filters) := by
  have hauth := authorize_gated h peer (.subscribe channel)
  have hstate := h
  obtain ⟨hpolicy, hlimits⟩ := h
  refine follows_orReturn hstate hstate hauth fun _ => ?_
  refine follows_limit (fun hfull => ⟨hfull.1, hlimits.subscriptions.trans hfull.2⟩) hstate ?_
  exact follows_granted rfl (.of rfl hpolicy hlimits)

theorem unsubscribe_loosened (h : Loosened broker broker') (peer : PeerId) (channel : Channel) :
    Follows broker' (broker.unsubscribe peer channel) (broker'.unsubscribe peer channel) := by
  have hstate := h
  refine follows_orReturn hstate hstate (.inl (credentials_loosened h peer)) fun _ => ?_
  obtain ⟨hpolicy, hlimits⟩ := h
  dsimp only [regated]
  cases broker.subscriptions.get? channel with
  | none => exact follows_of hstate hstate
  | some subscribers => exact follows_granted rfl (.of rfl hpolicy hlimits)

theorem registerDbusName_loosened (h : Loosened broker broker') (peer : PeerId) (name : String) :
    Follows broker' (broker.registerDbusName peer name) (broker'.registerDbusName peer name) := by
  have hauth := authorize_gated h peer (.registerDbusName name)
  have hstate := h
  obtain ⟨hpolicy, hlimits⟩ := h
  refine follows_ite (follows_of hstate hstate) ?_
  refine follows_orReturn hstate hstate hauth fun _ => ?_
  dsimp only [regated]
  cases broker.dbusNames.get? name with
  | some owner => exact follows_of hstate hstate
  | none => exact follows_granted rfl (.of rfl hpolicy hlimits)

theorem disconnectWithEvents_loosened (h : Loosened broker broker') (peer : PeerId) :
    Follows broker' (broker.disconnectWithEvents peer) (broker'.disconnectWithEvents peer) := by
  have hpeers : broker'.peers = broker.peers := by
    obtain ⟨-, -⟩ := h
    rfl
  rcases disconnectWithEvents_cases broker peer with ⟨hgone, heq⟩ | ⟨hthere, heq⟩
  · have heq' := (disconnectWithEvents_cases broker' peer).resolve_right fun h' =>
      Bool.false_ne_true (hgone.symm.trans (hpeers ▸ h'.1))
    rw [heq, heq'.2]
    exact follows_of h h
  · have heq' := (disconnectWithEvents_cases broker' peer).resolve_left fun h' =>
      Bool.false_ne_true (h'.1.symm.trans (hpeers ▸ hthere))
    rw [heq, heq'.2]
    obtain ⟨hpolicy, hlimits⟩ := h
    exact follows_granted rfl (.of rfl hpolicy hlimits)

/-! ## Messages -/

/-- The counters and the record of a routed message are outside the relation, on either side. -/
theorem Loosened.recordRouting (h : Loosened broker broker') (sender : PeerId) (m : Message)
    (recipients : OrdSet PeerId) :
    Loosened (broker.recordRouting sender m recipients) broker' ∧
      Loosened (broker.recordRouting sender m recipients) (broker'.recordRouting sender m recipients) := by
  obtain ⟨hpolicy, hlimits⟩ := h
  unfold Broker.recordRouting
  dsimp only
  split_ifs <;> exact ⟨.of rfl hpolicy hlimits, .of rfl hpolicy hlimits⟩

theorem deliverRouted_loosened (h : Loosened broker broker') (sender : PeerId) (m : Message)
    (recipients : OrdSet PeerId) (priority : UInt8) (nowMs : UInt64) :
    Follows broker' (broker.deliverRouted sender m recipients priority nowMs)
      (broker'.deliverRouted sender m recipients priority nowMs) := by
  obtain ⟨horigin, hrouted⟩ := h.recordRouting sender m recipients
  unfold deliverRouted
  generalize broker.recordRouting sender m recipients = b, broker'.recordRouting sender m recipients = b'
    at horigin hrouted
  have hstate := hrouted
  have hcapacity := ensureDeliveryCapacity_gated hrouted sender (.message m) (m.kind = .request)
  refine follows_ite (follows_of horigin hstate) ?_
  refine follows_ite (follows_of horigin hstate) ?_
  refine follows_ite (follows_orReturn horigin hstate hcapacity fun _ => ?_) (follows_of horigin hstate)
  obtain ⟨hpolicy, hlimits⟩ := hrouted
  cases checkedAdd nowMs m.deadlineMs.toUInt64 with
  | none => exact follows_of horigin hstate
  | some deadlineMs => exact follows_granted rfl (.of rfl hpolicy hlimits)

theorem completeResponse_loosened (h : Loosened broker broker') (sender : PeerId) (message : Frame) :
    Follows broker' (broker.completeResponse sender message) (broker'.completeResponse sender message) := by
  have hstate := h
  obtain ⟨hpolicy, hlimits⟩ := h
  unfold completeResponse
  cases message with
  | message response =>
    dsimp only [regated]
    cases broker.deliveries.get? response.correlationId with
    | none => exact follows_of hstate hstate
    | some pending =>
      dsimp only
      cases pending.message with
      | message request =>
        refine follows_ite (follows_of hstate hstate) ?_
        exact follows_ite (follows_of hstate hstate) (follows_granted rfl (.of rfl hpolicy hlimits))
      | _ => exact follows_of hstate hstate
  | _ => exact follows_of hstate hstate

theorem beginDelivery_loosened (h : Loosened broker broker') (sender : PeerId) (frame : Frame) (nowMs : UInt64) :
    Follows broker' (broker.beginDelivery sender frame nowMs) (broker'.beginDelivery sender frame nowMs) := by
  cases frame with
  | message m =>
    have hresponse := completeResponse_loosened h sender (.message m)
    have hrouted := fun recipients priority => deliverRouted_loosened h sender m recipients priority nowMs
    have hroute := route_gated h sender m.destination m.headers
    have hstate := h
    refine follows_orReturn hstate hstate (.inl (credentials_loosened h sender)) fun _ => ?_
    refine follows_orReturn hstate hstate (.inl rfl) fun _ => ?_
    refine follows_orReturn hstate hstate (.inl rfl) fun priority => ?_
    refine follows_ite hresponse ?_
    have hknown : broker'.deliveries = broker.deliveries := by
      obtain ⟨-, -⟩ := h
      rfl
    rw [hknown]
    refine follows_ite (follows_of hstate hstate) ?_
    rcases hroute with hsame | ⟨error, herror, hrefusal⟩
    · rw [hsame]
      cases broker.route sender m.destination m.headers with
      | ok recipients => exact hrouted _ _
      | error error =>
        cases error with
        | noRecipient => exact follows_of hstate hstate
        | _ => exact follows_of hstate hstate
    · rw [herror]
      cases error with
      | noRecipient => cases hrefusal
      | _ => exact follows_refused hrefusal hstate
  | _ => exact follows_of h h

theorem acknowledge_loosened (h : Loosened broker broker') (peer : PeerId) (messageId : MessageId)
    (policy : AckPolicy) :
    Follows broker' (broker.acknowledge peer messageId policy) (broker'.acknowledge peer messageId policy) := by
  have hauth := authorize_gated h peer .acknowledge
  have hstate := h
  obtain ⟨hpolicy, hlimits⟩ := h
  refine follows_orReturn hstate hstate hauth fun _ => ?_
  dsimp only [regated]
  cases broker.deliveries.get? messageId with
  | none => exact follows_of hstate hstate
  | some pending =>
    dsimp only
    cases pending.message with
    | message m =>
      refine follows_ite (follows_of hstate hstate) ?_
      cases ackOutcome m.ackPolicy with
      | none => exact follows_granted rfl (.of rfl hpolicy hlimits)
      | some outcome =>
        refine follows_ite (follows_granted rfl (.of rfl hpolicy hlimits)) ?_
        exact follows_ite (follows_granted rfl (.of rfl hpolicy hlimits)) (follows_granted rfl (.of rfl hpolicy hlimits))
    | _ => exact follows_of hstate hstate

/-! ## The clock -/

structure TickLoosened (state : TickState P) (state' : TickState Q) : Prop where
  broker : Loosened state.broker state'.broker
  events : state'.events = state.events
  retries : state'.retries = state.retries

theorem tickStep_loosened (nowMs : UInt64) {state : TickState P} {state' : TickState Q} (h : TickLoosened state state')
    (id : MessageId) : TickLoosened (tickStep nowMs state id) (tickStep nowMs state' id) := by
  obtain ⟨broker, events, retries⟩ := state
  obtain ⟨broker', events', retries'⟩ := state'
  obtain rfl : events' = events := h.events
  obtain rfl : retries' = retries := h.retries
  have hstate : Loosened broker broker' := h.broker
  clear h
  have hkept := hstate
  obtain ⟨hpolicy, hlimits⟩ := hkept
  rw [tickStep_eq, tickStep_eq]
  dsimp only [regated]
  cases broker.deliveries.get? id with
  | none => exact ⟨hstate, rfl, rfl⟩
  | some pending =>
    dsimp only
    cases tickResult nowMs pending with
    | keep => exact ⟨hstate, rfl, rfl⟩
    | expire => exact ⟨.of rfl hpolicy hlimits, rfl, rfl⟩
    | abandon => exact ⟨.of rfl hpolicy hlimits, rfl, rfl⟩
    | retry updated => exact ⟨.of rfl hpolicy hlimits, rfl, rfl⟩

theorem tickLoop_loosened (nowMs : UInt64) (ids : List MessageId) {state : TickState P} {state' : TickState Q}
    (h : TickLoosened state state') :
    TickLoosened (ids.foldl (tickStep nowMs) state) (ids.foldl (tickStep nowMs) state') := by
  induction ids generalizing state state' with
  | nil => exact h
  | cons id ids ih => exact ih (tickStep_loosened nowMs h id)

theorem tick_loosened (h : Loosened broker broker') (nowMs : UInt64) :
    Agrees (broker.tick nowMs) (broker'.tick nowMs) := by
  have hkeys : broker'.deliveries.keys = broker.deliveries.keys := by
    obtain ⟨-, -⟩ := h
    rfl
  have hstart : TickLoosened (⟨broker, [], []⟩ : TickState P) ⟨broker', [], []⟩ := ⟨h, rfl, rfl⟩
  have hloop := tickLoop_loosened nowMs broker.deliveries.keys hstart
  unfold tick
  rw [hkeys]
  refine ⟨hloop.broker, ?_⟩
  dsimp only
  rw [hloop.events, hloop.retries]

/-! ## Runs -/

/-- The looser broker returns the same, or the call is refused and it can do without it. -/
theorem exec_loosened (h : Loosened broker broker') (op : Op) :
    ((exec broker op).2.isRefusal = false → Agrees (exec broker op) (exec broker' op)) ∧
      ((exec broker op).2.isRefusal = true → Loosened (exec broker op).1 broker') := by
  have hmap : ∀ {β : Type} {o : Outcome P β} {o' : Outcome Q β} (reply : Except Error β → Reply),
      (∀ result, (reply result).isRefusal = refuses result) → Follows broker' o o' →
      ((reply o.2).isRefusal = false → Agrees (o.map id reply) (o'.map id reply)) ∧
        ((reply o.2).isRefusal = true → Loosened o.1 broker') := by
    intro β o o' reply hreply hfollows
    rw [hreply]
    exact ⟨fun hgranted => ⟨(hfollows.granted hgranted).state, congrArg reply (hfollows.granted hgranted).result⟩,
      hfollows.refused⟩
  have hconnected : ∀ result, (Reply.connected result).isRefusal = refuses result := by
    intro result
    cases result <;> rfl
  have hcompleted : ∀ result, (Reply.completed result).isRefusal = refuses result := by
    intro result
    cases result <;> rfl
  have hdelivery : ∀ result, (Reply.delivery result).isRefusal = refuses result := by
    intro result
    cases result <;> rfl
  cases op with
  | connect credentials hello => exact hmap _ hconnected (connectSession_loosened h credentials hello)
  | disconnect peer => exact hmap _ hdelivery (disconnectWithEvents_loosened h peer)
  | claim peer ns => exact hmap _ hcompleted (claim_loosened h peer ns)
  | subscribe peer channel filters => exact hmap _ hcompleted (subscribeWithFilters_loosened h peer channel filters)
  | unsubscribe peer channel => exact hmap _ hcompleted (unsubscribe_loosened h peer channel)
  | registerDbusName peer name => exact hmap _ hcompleted (registerDbusName_loosened h peer name)
  | beginDelivery sender frame nowMs => exact hmap _ hdelivery (beginDelivery_loosened h sender frame nowMs)
  | acknowledge peer messageId policy => exact hmap _ hdelivery (acknowledge_loosened h peer messageId policy)
  | tick nowMs =>
    have htick := tick_loosened h nowMs
    exact ⟨fun _ => ⟨htick.state, congrArg (fun events => Reply.delivery (.ok events)) htick.result⟩,
      fun hrefused => by cases hrefused⟩
  | drainEvents =>
    refine ⟨fun _ => ?_, fun hrefused => by cases hrefused⟩
    obtain ⟨hpolicy, hlimits⟩ := h
    exact agrees_of (.of rfl hpolicy hlimits)

/-- Every run of a new broker, without its refused calls, is a run of a new broker with any policy that permits at least
as much and any limits at least as high, call by call with the same replies, and leaves the same registry, deliveries
and lifecycle events. -/
theorem run_loosened {policy : P} {policy' : Q} {limits limits' : Limits} {capabilities : Capabilities}
    {history : List (Op × Reply)} {state : Broker P} (hpolicy : PermitsMore policy policy')
    (hlimits : limits.Within limits') (hrun : Run exec (.empty policy limits capabilities) history state) :
    ∃ state' : Broker Q, Run exec (.empty policy' limits' capabilities) (granted history) state' ∧
      Loosened state state' := by
  refine hrun.simulates (S := Loosened) (fun broker broker' op h => ?_) (.of rfl hpolicy hlimits)
  have hexec := exec_loosened h op
  simp only [Bool.not_eq_true', Bool.not_eq_false']
  exact ⟨fun hkeep => ⟨(hexec.1 hkeep).state, (hexec.1 hkeep).result⟩, hexec.2⟩

def noClaims : Limits := { Limits.default with maximumNamespaceClaims := 0 }

def claimRefused : List (Op × Reply) × Broker AllowAll :=
  run exec (.empty .mk noClaims ∅) [plainConnect, .claim (.new 1) plainNamespace, .subscribe (.new 1) plainChannel []]

theorem run_loosened_claimRefused :
    claimRefused.1.length = 3 ∧ (granted claimRefused.1).map Prod.fst =
        [plainConnect, .subscribe (.new 1) plainChannel []] ∧
      ∃ state : Broker AllowAll, Run exec (.empty .mk .default ∅) (granted claimRefused.1) state ∧
        Loosened claimRefused.2 state := by
  refine ⟨by decide +kernel, by decide +kernel, ?_⟩
  have hlimits : noClaims.Within .default := ⟨le_rfl, le_rfl, le_rfl, le_rfl, Nat.zero_le _⟩
  exact run_loosened (fun _ h => h) hlimits (run_spec _ _)

end Busd.Broker
