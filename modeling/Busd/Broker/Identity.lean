import Busd.Broker.Authorization
import Busd.Lib.Related
import Busd.Policy.Config

/-!
# Claimed identities grant nothing

What a client says about itself, its client id and its headers, is kept in its hello and shown to the policy with
every request. Under a policy that does not look at it, two brokers that differ only in what their clients claim do
the same in every call, unless a message is addressed to a client id.

* `ClaimBlind` : the policy decides alike whatever is claimed; `claimBlind_of_rules` : no rule selects by claims;
* `Disguised` : two brokers up to the claims of their peers;
* `SameViews` : the queries of the two brokers;
* `exec_disguised` : every call keeps the relation and returns the same reply;
* `claims_noninterference` : two runs.
-/

namespace Busd.Broker

open Words Machine Busd.Protocol Busd.Policy

variable {P : Type}

/-! ## Policies that do not look at claims -/

/-- The decision does not depend on the claimed client id or headers. -/
def ClaimBlind [Policy P] (policy : P) : Prop :=
  ∀ (credentials : Credentials) (clientId clientId' : Option ClientId) (headers headers' : Headers) (action : Action),
    Policy.permits policy ⟨credentials, clientId', headers', action⟩ =
      Policy.permits policy ⟨credentials, clientId, headers, action⟩

def SelectsNoClaim (rule : Rule) : Prop := rule.clientId = none ∧ rule.headers = ∅

theorem ruleMatches_claims {rule : Rule} (h : SelectsNoClaim rule) (credentials : Credentials)
    (clientId clientId' : Option ClientId) (headers headers' : Headers) (action : Action) :
    ruleMatches rule ⟨credentials, clientId', headers', action⟩ =
      ruleMatches rule ⟨credentials, clientId, headers, action⟩ := by
  unfold ruleMatches
  rw [h.1, h.2]
  rfl

theorem claimBlind_of_rules {policy : ConfigPolicy} (h : ∀ rule ∈ policy.config.rules, SelectsNoClaim rule) :
    ClaimBlind policy := by
  intro credentials clientId clientId' headers headers' action
  have hfind : policy.config.rules.find? (ruleMatches · ⟨credentials, clientId', headers', action⟩) =
      policy.config.rules.find? (ruleMatches · ⟨credentials, clientId, headers, action⟩) := by
    rw [← List.head?_filter, ← List.head?_filter]
    exact congrArg _ (List.filter_congr fun rule hrule => ruleMatches_claims (h rule hrule) _ _ _ _ _ _)
  show decide (((policy.config.rules.find? _).bind Rule.effect).getD _ = _) = _
  rw [hfind]
  rfl

/-! ## Views of the state -/

/-- The queries that are computed from the state, or answered after a check, agree. The others return parts of it. -/
structure SameViews [Policy P] (broker broker' : Broker P) : Prop where
  route : ∀ (sender : PeerId) (destination : Destination) (headers : Headers),
    (∀ clientId selection, destination ≠ .clientId clientId selection) →
      broker'.route sender destination headers = broker.route sender destination headers
  monitor : ∀ peer, broker'.monitorEventsFor peer = broker.monitorEventsFor peer
  metrics : broker'.metricsSnapshot = broker.metricsSnapshot

/-! ## Brokers up to claims -/

def SamePeer (peer peer' : Peer) : Prop :=
  ∃ clientId headers, peer' = { peer with hello := { peer.hello with clientId, headers } }

/-- The brokers differ in the claims of their peers only. -/
inductive Disguised (broker : Broker P) : Broker P → Prop
  | mk {peers : OrdMap PeerId Peer} (h : broker.peers.Related SamePeer peers) : Disguised broker { broker with peers }

structure SameOutcome {α : Type} (o o' : Broker P × α) : Prop where
  state : Disguised o.1 o'.1
  result : o'.2 = o.2

variable {α β : Type} {broker broker' : Broker P}

theorem Disguised.of (heq : broker' = { broker with peers := broker'.peers })
    (h : broker.peers.Related SamePeer broker'.peers) : Disguised broker broker' := by
  rw [heq]
  exact ⟨h⟩

theorem disguised_self (broker : Broker P) : Disguised broker broker :=
  .of rfl (OrdMap.related_self fun _ peer _ => ⟨peer.hello.clientId, peer.hello.headers, rfl⟩)

theorem sameOutcome_of (h : Disguised broker broker') {a : α} : SameOutcome (broker, a) (broker', a) := ⟨h, rfl⟩

theorem sameOutcome_orReturn (h : Disguised broker broker') {x x' : Except Error β} (hx : x' = x)
    {next next' : β → Outcome P α} (hnext : ∀ b, SameOutcome (next b) (next' b)) :
    SameOutcome (broker.orReturn x next) (broker'.orReturn x' next') := by
  subst hx
  cases x' with
  | error error => exact sameOutcome_of h
  | ok b => exact hnext b

theorem sameOutcome_ite {p : Prop} [Decidable p] {a b a' b' : Broker P × α} (h : SameOutcome a a')
    (h' : SameOutcome b b') : SameOutcome (if p then a else b) (if p then a' else b') := by
  split_ifs
  · exact h
  · exact h'

/-! ## Checks -/

theorem credentials_disguised (h : Disguised broker broker') (peer : PeerId) :
    broker'.credentials peer = broker.credentials peer := by
  obtain @⟨peers, h⟩ := h
  have hget := h.get? peer
  unfold Broker.credentials
  dsimp only
  generalize broker.peers.get? peer = o, peers.get? peer = o' at hget
  cases hget with
  | none => rfl
  | some hpeer =>
    obtain ⟨clientId, headers, rfl⟩ := hpeer
    rfl

/-! ## Calls without a policy -/

theorem unsubscribe_disguised (h : Disguised broker broker') (peer : PeerId) (channel : Channel) :
    SameOutcome (broker.unsubscribe peer channel) (broker'.unsubscribe peer channel) := by
  have hstate := h
  refine sameOutcome_orReturn hstate (credentials_disguised h peer) fun _ => ?_
  obtain ⟨h⟩ := h
  dsimp only
  cases broker.subscriptions.get? channel with
  | none => exact sameOutcome_of hstate
  | some subscribers => exact sameOutcome_of (.of rfl h)

theorem disconnectWithEvents_disguised (h : Disguised broker broker') (peer : PeerId) :
    SameOutcome (broker.disconnectWithEvents peer) (broker'.disconnectWithEvents peer) := by
  have hstate := h
  obtain @⟨peers, h⟩ := h
  unfold disconnectWithEvents removePeer
  dsimp only
  rw [h.contains]
  cases broker.peers.contains peer with
  | false => exact sameOutcome_of hstate
  | true => exact sameOutcome_of (.of rfl (h.erase peer))

theorem Disguised.recordRouting (h : Disguised broker broker') (sender : PeerId) (m : Message)
    (recipients : OrdSet PeerId) :
    Disguised (broker.recordRouting sender m recipients) (broker'.recordRouting sender m recipients) := by
  obtain ⟨h⟩ := h
  unfold Broker.recordRouting
  dsimp only
  split_ifs <;> exact .of rfl h

theorem deliverRouted_disguised (h : Disguised broker broker') (sender : PeerId) (m : Message)
    (recipients : OrdSet PeerId) (priority : UInt8) (nowMs : UInt64) :
    SameOutcome (broker.deliverRouted sender m recipients priority nowMs)
      (broker'.deliverRouted sender m recipients priority nowMs) := by
  have hrouted := h.recordRouting sender m recipients
  unfold deliverRouted
  generalize broker.recordRouting sender m recipients = b, broker'.recordRouting sender m recipients = b' at hrouted
  have hstate := hrouted
  obtain ⟨hpeers⟩ := hrouted
  refine sameOutcome_ite (sameOutcome_of hstate) ?_
  refine sameOutcome_ite (sameOutcome_of hstate) ?_
  refine sameOutcome_ite (sameOutcome_orReturn hstate rfl fun _ => ?_) (sameOutcome_of hstate)
  dsimp only
  cases checkedAdd nowMs m.deadlineMs.toUInt64 with
  | none => exact sameOutcome_of hstate
  | some deadlineMs => exact sameOutcome_of (.of rfl hpeers)

theorem completeResponse_disguised (h : Disguised broker broker') (sender : PeerId) (message : Frame) :
    SameOutcome (broker.completeResponse sender message) (broker'.completeResponse sender message) := by
  have hstate := h
  obtain ⟨h⟩ := h
  unfold completeResponse
  cases message with
  | message response =>
    dsimp only
    cases broker.deliveries.get? response.correlationId with
    | none => exact sameOutcome_of hstate
    | some pending =>
      dsimp only
      cases pending.message with
      | message request =>
        refine sameOutcome_ite (sameOutcome_of hstate) ?_
        exact sameOutcome_ite (sameOutcome_of hstate) (sameOutcome_of (.of rfl h))
      | _ => exact sameOutcome_of hstate
  | _ => exact sameOutcome_of hstate

/-! ## The clock -/

def TickState.outcome (state : TickState P) : Broker P × List DeliveryEvent × List (UInt8 × DeliveryEvent) :=
  (state.broker, state.events, state.retries)

/-- The loop of `tick` looks at the entries only. -/
theorem tickStep_disguised (nowMs : UInt64) {state state' : TickState P} (h : SameOutcome state.outcome state'.outcome)
    (id : MessageId) : SameOutcome (tickStep nowMs state id).outcome (tickStep nowMs state' id).outcome := by
  obtain ⟨broker, events, retries⟩ := state
  obtain ⟨broker', events', retries'⟩ := state'
  obtain ⟨rfl, rfl⟩ : events' = events ∧ retries' = retries := Prod.mk.inj h.result
  have hstate : Disguised broker broker' := h.state
  clear h
  have hkept := hstate
  obtain ⟨hpeers⟩ := hkept
  rw [tickStep_eq, tickStep_eq]
  dsimp only
  cases broker.deliveries.get? id with
  | none => exact sameOutcome_of hstate
  | some pending =>
    dsimp only
    cases tickResult nowMs pending with
    | keep => exact sameOutcome_of hstate
    | expire => exact sameOutcome_of (.of rfl hpeers)
    | abandon => exact sameOutcome_of (.of rfl hpeers)
    | retry updated => exact sameOutcome_of (.of rfl hpeers)

theorem tickLoop_disguised (nowMs : UInt64) (ids : List MessageId) {state state' : TickState P}
    (h : SameOutcome state.outcome state'.outcome) :
    SameOutcome (ids.foldl (tickStep nowMs) state).outcome (ids.foldl (tickStep nowMs) state').outcome := by
  induction ids generalizing state state' with
  | nil => exact h
  | cons id ids ih => exact ih (tickStep_disguised nowMs h id)

theorem tick_disguised (h : Disguised broker broker') (nowMs : UInt64) :
    SameOutcome (broker.tick nowMs) (broker'.tick nowMs) := by
  have hkeys : broker'.deliveries.keys = broker.deliveries.keys := by
    obtain ⟨-⟩ := h
    rfl
  have hloop := @tickLoop_disguised P nowMs broker.deliveries.keys ⟨broker, [], []⟩ ⟨broker', [], []⟩
    (sameOutcome_of h)
  obtain ⟨hevents, hretries⟩ := Prod.mk.inj hloop.result
  unfold tick
  rw [hkeys]
  refine ⟨hloop.state, ?_⟩
  dsimp only
  rw [hevents, hretries]

/-! ## Calls that ask the policy -/

section Blind

variable [Policy P] (hblind : ClaimBlind broker.policy)

include hblind

theorem authorize_disguised (h : Disguised broker broker') (peer : PeerId) (action : Action) :
    broker'.authorize peer action = broker.authorize peer action := by
  obtain @⟨peers, h⟩ := h
  have hget := h.get? peer
  unfold authorize
  dsimp only
  generalize broker.peers.get? peer = o, peers.get? peer = o' at hget
  cases hget with
  | none => rfl
  | @some found _ hpeer =>
    obtain ⟨clientId, headers, rfl⟩ := hpeer
    dsimp only
    rw [hblind found.credentials found.hello.clientId clientId found.hello.headers headers action]

theorem candidates_disguised (h : Disguised broker broker') (sender : PeerId) {destination : Destination}
    (hdestination : ∀ clientId selection, destination ≠ .clientId clientId selection) (headers : Headers) :
    broker'.candidates sender destination headers = broker.candidates sender destination headers := by
  have hauth := fun action => authorize_disguised hblind h sender action
  obtain @⟨peers, h⟩ := h
  cases destination with
  | clientId clientId selection => exact absurd rfl (hdestination clientId selection)
  | broker => rfl
  | «namespace» ns =>
    unfold candidates
    dsimp only
    rw [hauth]
    rfl
  | channel channel =>
    unfold candidates
    dsimp only
    rw [hauth]
  | peer peer =>
    unfold candidates
    dsimp only
    rw [hauth, h.contains]
  | broadcast =>
    unfold candidates
    dsimp only
    rw [hauth, h.keys]

theorem route_disguised (h : Disguised broker broker') (sender : PeerId) {destination : Destination}
    (hdestination : ∀ clientId selection, destination ≠ .clientId clientId selection) (headers : Headers) :
    broker'.route sender destination headers = broker.route sender destination headers := by
  unfold route
  rw [credentials_disguised h, candidates_disguised hblind h sender hdestination]

theorem sameViews_of_disguised (h : Disguised broker broker') : SameViews broker broker' where
  route sender _ headers hdestination := route_disguised hblind h sender hdestination headers
  monitor peer := by
    unfold monitorEventsFor
    rw [authorize_disguised hblind h]
    obtain ⟨-⟩ := h
    rfl
  metrics := by
    obtain @⟨peers, h⟩ := h
    unfold metricsSnapshot
    dsimp only
    rw [h.size]

/-! ## The registry -/

/-- The claims are stored, and otherwise shown to the policy only. -/
theorem connectSession_disguised (h : Disguised broker broker') (credentials : Credentials)
    {hello hello' : ClientHello}
    (hheaders : validateClaimedHeaders hello'.headers = validateClaimedHeaders hello.headers)
    (hcapabilities : hello'.capabilities = hello.capabilities) :
    SameOutcome (broker.connectSession credentials hello) (broker'.connectSession credentials hello') := by
  obtain ⟨clientId', headers', capabilities'⟩ := hello'
  obtain rfl : capabilities' = hello.capabilities := hcapabilities
  have hstate := h
  obtain @⟨peers, h⟩ := h
  refine sameOutcome_orReturn hstate hheaders fun _ => ?_
  refine sameOutcome_orReturn hstate ?_ fun _ => ?_
  · unfold authorizeHello
    dsimp only
    rw [hblind credentials hello.clientId clientId' hello.headers headers']
  dsimp only
  cases checkedAdd broker.nextPeer 1 with
  | none => exact sameOutcome_of hstate
  | some nextPeer => exact sameOutcome_of (.of rfl (h.insert _ ⟨clientId', headers', rfl⟩))

theorem claim_disguised (h : Disguised broker broker') (peer : PeerId) (ns : Namespace) :
    SameOutcome (broker.claim peer ns) (broker'.claim peer ns) := by
  have hstate := h
  refine sameOutcome_orReturn hstate (authorize_disguised hblind h peer _) fun _ => ?_
  obtain ⟨h⟩ := h
  refine sameOutcome_ite (sameOutcome_of hstate) ?_
  dsimp only
  cases broker.namespaces.get? ns with
  | some owner => exact sameOutcome_of hstate
  | none => exact sameOutcome_of (.of rfl h)

theorem subscribeWithFilters_disguised (h : Disguised broker broker') (peer : PeerId) (channel : Channel)
    (filters : List HeaderFilter) :
    SameOutcome (broker.subscribeWithFilters peer channel filters)
      (broker'.subscribeWithFilters peer channel filters) := by
  have hstate := h
  refine sameOutcome_orReturn hstate (authorize_disguised hblind h peer _) fun _ => ?_
  obtain ⟨h⟩ := h
  exact sameOutcome_ite (sameOutcome_of hstate) (sameOutcome_of (.of rfl h))

theorem registerDbusName_disguised (h : Disguised broker broker') (peer : PeerId) (name : String) :
    SameOutcome (broker.registerDbusName peer name) (broker'.registerDbusName peer name) := by
  have hstate := h
  refine sameOutcome_ite (sameOutcome_of hstate) ?_
  refine sameOutcome_orReturn hstate (authorize_disguised hblind h peer _) fun _ => ?_
  obtain ⟨h⟩ := h
  dsimp only
  cases broker.dbusNames.get? name with
  | some owner => exact sameOutcome_of hstate
  | none => exact sameOutcome_of (.of rfl h)

/-! ## Messages -/

/-- The claims could decide only who a message to a client id goes to. -/
theorem beginDelivery_disguised (h : Disguised broker broker') (sender : PeerId) {frame : Frame}
    (hframe : ∀ m, frame = .message m → ∀ clientId selection, m.destination ≠ .clientId clientId selection)
    (nowMs : UInt64) :
    SameOutcome (broker.beginDelivery sender frame nowMs) (broker'.beginDelivery sender frame nowMs) := by
  cases frame with
  | message m =>
    have hresponse := completeResponse_disguised h sender (.message m)
    have hrouted := fun recipients priority => deliverRouted_disguised h sender m recipients priority nowMs
    have hroute := route_disguised hblind h sender (hframe m rfl) m.headers
    have hstate := h
    refine sameOutcome_orReturn hstate (credentials_disguised h sender) fun _ => ?_
    refine sameOutcome_orReturn hstate rfl fun _ => ?_
    refine sameOutcome_orReturn hstate rfl fun priority => ?_
    refine sameOutcome_ite hresponse ?_
    rw [hroute]
    obtain ⟨h⟩ := h
    refine sameOutcome_ite (sameOutcome_of hstate) ?_
    cases broker.route sender m.destination m.headers with
    | ok recipients => exact hrouted _ _
    | error error =>
      cases error with
      | noRecipient => exact sameOutcome_of hstate
      | _ => exact sameOutcome_of hstate
  | _ => exact sameOutcome_of h

theorem acknowledge_disguised (h : Disguised broker broker') (peer : PeerId) (messageId : MessageId)
    (policy : AckPolicy) :
    SameOutcome (broker.acknowledge peer messageId policy) (broker'.acknowledge peer messageId policy) := by
  have hstate := h
  refine sameOutcome_orReturn hstate (authorize_disguised hblind h peer _) fun _ => ?_
  obtain ⟨h⟩ := h
  dsimp only
  cases broker.deliveries.get? messageId with
  | none => exact sameOutcome_of hstate
  | some pending =>
    dsimp only
    cases pending.message with
    | message m =>
      refine sameOutcome_ite (sameOutcome_of hstate) ?_
      cases ackOutcome m.ackPolicy with
      | none => exact sameOutcome_of (.of rfl h)
      | some outcome =>
        refine sameOutcome_ite (sameOutcome_of (.of rfl h)) ?_
        exact sameOutcome_ite (sameOutcome_of (.of rfl h)) (sameOutcome_of (.of rfl h))
    | _ => exact sameOutcome_of hstate

/-! ## Runs -/

/-- Two calls that differ in claims only, both of which pass the check for reserved names; no message is addressed to a
client id. -/
inductive Reclaimed : Op → Op → Prop
  | hello {credentials : Credentials} {clientId clientId' : Option ClientId} {headers headers' : Headers}
      {capabilities : Capabilities} (h : validateClaimedHeaders headers = .ok ())
      (h' : validateClaimedHeaders headers' = .ok ()) :
      Reclaimed (.connect credentials ⟨clientId, headers, capabilities⟩)
        (.connect credentials ⟨clientId', headers', capabilities⟩)
  | same {op : Op} (h : ∀ sender m nowMs, op = .beginDelivery sender (.message m) nowMs →
      ∀ clientId selection, m.destination ≠ .clientId clientId selection) : Reclaimed op op

theorem exec_disguised (h : Disguised broker broker') {op op' : Op} (hop : Reclaimed op op') :
    SameOutcome (exec broker op) (exec broker' op') := by
  have hmap : ∀ {β : Type} {o o' : Broker P × β} (reply : β → Reply), SameOutcome o o' →
      SameOutcome (o.map id reply) (o'.map id reply) := by
    intro β o o' reply hoo
    exact ⟨hoo.state, congrArg reply hoo.result⟩
  cases hop with
  | hello hheaders hheaders' =>
    exact hmap _ (connectSession_disguised hblind h _ (hheaders'.trans hheaders.symm) rfl)
  | same hdestination =>
    cases op with
    | connect credentials hello => exact hmap _ (connectSession_disguised hblind h credentials rfl rfl)
    | disconnect peer => exact hmap _ (disconnectWithEvents_disguised h peer)
    | claim peer ns => exact hmap _ (claim_disguised hblind h peer ns)
    | subscribe peer channel filters => exact hmap _ (subscribeWithFilters_disguised hblind h peer channel filters)
    | unsubscribe peer channel => exact hmap _ (unsubscribe_disguised h peer channel)
    | registerDbusName peer name => exact hmap _ (registerDbusName_disguised hblind h peer name)
    | beginDelivery sender frame nowMs =>
      refine hmap _ (beginDelivery_disguised hblind h sender (fun m hm => ?_) nowMs)
      exact hdestination sender m nowMs (by rw [hm])
    | acknowledge peer messageId policy => exact hmap _ (acknowledge_disguised hblind h peer messageId policy)
    | tick nowMs => exact hmap (fun events => .delivery (.ok events)) (tick_disguised h nowMs)
    | drainEvents =>
      obtain ⟨h⟩ := h
      exact sameOutcome_of (.of rfl h)

end Blind

/-- Two runs from one broker, whose calls differ only in what the clients claim: every call returns the same, and after
any number of calls the brokers differ in the stored claims only. -/
theorem claims_noninterference (start : Broker ConfigPolicy)
    (hrules : ∀ rule ∈ start.policy.config.rules, SelectsNoClaim rule) {ops ops' : List Op}
    (hops : List.Forall₂ Reclaimed ops ops') :
    (run exec start ops').1.map Prod.snd = (run exec start ops).1.map Prod.snd ∧
      ∀ n, Disguised (run exec start (ops.take n)).2 (run exec start (ops'.take n)).2 ∧
        SameViews (run exec start (ops.take n)).2 (run exec start (ops'.take n)).2 := by
  have hrun : ∀ {ops ops' : List Op}, List.Forall₂ Reclaimed ops ops' →
      (ClaimBlind (run exec start ops).2.policy ∧ Disguised (run exec start ops).2 (run exec start ops').2) ∧
        List.Forall₂ (fun e e' => Reclaimed e.1 e'.1 ∧ e'.2 = e.2) (run exec start ops).1 (run exec start ops').1 := by
    refine run_related (S := fun b b' => ClaimBlind b.policy ∧ Disguised b b') (O := fun r r' => r' = r) ?_
      ⟨claimBlind_of_rules hrules, disguised_self start⟩
    intro b b' op op' hb hop
    have hsame := exec_disguised hb.1 hb.2 hop
    rw [(exec_settings b op).1]
    exact ⟨⟨hb.1, hsame.state⟩, hsame.result⟩
  refine ⟨?_, fun n => ?_⟩
  · have hreplies := List.rel_map (fun e e' he => he.2.symm) (hrun hops).2
    rw [List.forall₂_eq_eq_eq] at hreplies
    exact hreplies.symm
  · obtain ⟨hblind, hdisguised⟩ := (hrun (List.forall₂_take n hops)).1
    exact ⟨hdisguised, sameViews_of_disguised hblind hdisguised⟩

/-- Only the user 0 may do anything. -/
def rootPolicy : ConfigPolicy where
  config := ⟨1, .deny, [{ Rule.default with effect := some .allow, uid := some 0 }]⟩
  valid := by decide +kernel

def rootHello : ClientHello where
  clientId := some ⟨"root", by decide⟩
  headers := OrdMap.ofList [("role", .text "admin")]
  capabilities := ∅

/-- Another user and the user 0, both of whom say who they are. -/
def introducedOps (hello : ClientHello) : List Op :=
  [.connect { Credentials.default with uid := 7 } hello, .connect .default hello, .claim (.new 1) plainNamespace,
    .beginDelivery (.new 1)
      (.message (plainRequest (numberedId 1) .none .none .exact (.namespace plainNamespace))) 0]

theorem claims_noninterference_introduced :
    ((run exec (Broker.empty rootPolicy .default ∅) (introducedOps rootHello)).1.map Prod.snd).head? =
        some (.connected (.error (.denied .connect))) ∧
      (run exec (Broker.empty rootPolicy .default ∅) (introducedOps rootHello)).1.map Prod.snd =
        (run exec (Broker.empty rootPolicy .default ∅) (introducedOps plainHello)).1.map Prod.snd ∧
      ∀ n, Disguised (run exec (Broker.empty rootPolicy .default ∅) ((introducedOps plainHello).take n)).2
          (run exec (Broker.empty rootPolicy .default ∅) ((introducedOps rootHello).take n)).2 ∧
        SameViews (run exec (Broker.empty rootPolicy .default ∅) ((introducedOps plainHello).take n)).2
          (run exec (Broker.empty rootPolicy .default ∅) ((introducedOps rootHello).take n)).2 := by
  refine ⟨by decide +kernel, claims_noninterference _ (fun rule hrule => ?_) ?_⟩
  · obtain rfl := List.mem_singleton.mp hrule
    exact ⟨rfl, rfl⟩
  · have hhello : ∀ credentials, Reclaimed (.connect credentials plainHello) (.connect credentials rootHello) :=
      fun _ => .hello (by decide +kernel) (by decide +kernel)
    have hclaim : Reclaimed (.claim (.new 1) plainNamespace) (.claim (.new 1) plainNamespace) :=
      .same fun _ _ _ h => by cases h
    refine .cons (hhello _) (.cons (hhello _) (.cons hclaim (.cons (.same fun _ _ _ h => ?_) .nil)))
    cases h
    exact fun _ _ h => by cases h

end Busd.Broker
