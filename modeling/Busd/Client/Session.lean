import Busd.Broker.Registrations
import Busd.Client.Exchange

/-!
# Sessions of a reconnecting client

The client keeps its claims and subscriptions as lists that grow with each call that succeeds, the broker keeps
maps in which a later subscription replaces an earlier one. The lists, read from the end, are the maps.

* `Holding` : what the broker has for a peer is what the lists say;
* `Repeatable` : the broker would take every call on record again, limits and owners apart;
* `Session` : a client, its connection and its broker, between two calls; `call_session`, `run_session` : every
  call keeps it, and so every run;
* `connect_session` : a session begins with nothing on record.
-/

namespace Busd.Client

open Words Machine Busd.Protocol Busd.Policy Busd.Broker Busd.Daemon

variable {P : Type}

/-! ## Lists of subscriptions -/

section Lists

variable {subscriptions : List Subscription} {channel channel' : Channel} {filters : List HeaderFilter}

/-- The filters of the last subscription to a channel. -/
def latest (subscriptions : List Subscription) (channel : Channel) : Option (List HeaderFilter) :=
  (subscriptions.filter fun subscription => subscription.channel = channel).getLast?.map Subscription.filters

theorem latest_snoc : latest (subscriptions ++ [⟨channel, filters⟩]) channel' =
    if channel' = channel then some filters else latest subscriptions channel' := by
  unfold latest
  rw [List.filter_append]
  split_ifs with hchannel
  · simp [hchannel]
  · simp [Ne.symm hchannel]

theorem latest_filter :
    latest (subscriptions.filter fun subscription => subscription.channel ≠ channel) channel' =
      if channel' = channel then none else latest subscriptions channel' := by
  unfold latest
  rw [List.filter_filter]
  split_ifs with hchannel
  · simp [hchannel]
  · congr 3
    funext subscription
    by_cases heq : subscription.channel = channel'
    · simp [heq, hchannel]
    · simp [heq]

theorem isSome_latest : (latest subscriptions channel).isSome = true ↔
    channel ∈ subscriptions.map Subscription.channel := by
  unfold latest
  rw [Option.isSome_map, List.getLast?_isSome, ne_eq, List.filter_eq_nil_iff, List.mem_map]
  simp

end Lists

/-! ## What the broker has for a peer -/

/-- The peer owns the namespaces of one list, and is subscribed as the other list says. -/
structure Holding (broker : Broker P) (id : PeerId) (claims : List NamespaceClaim)
    (subscriptions : List Subscription) : Prop where
  owner : ∀ ns, broker.namespaces.get? ns = some id ↔ ns ∈ claims.map NamespaceClaim.ns
  filters : ∀ channel, filtersOf broker id channel = latest subscriptions channel

section Holding

variable {broker broker' : Broker P} {id : PeerId} {claims : List NamespaceClaim} {subscriptions : List Subscription}

theorem Holding.of_same (h : Holding broker id claims subscriptions) (hsame : SameRegistrations broker broker' id) :
    Holding broker' id claims subscriptions where
  owner ns := (hsame.owner ns).trans (h.owner ns)
  filters channel := (hsame.filters channel).trans (h.filters channel)

theorem Holding.claim [Policy P] {ns : Namespace} (h : Holding broker id claims subscriptions)
    (hok : (broker.claim id ns).2 = .ok ()) :
    Holding (broker.claim id ns).1 id (claims ++ [⟨ns, ∅⟩]) subscriptions := by
  obtain ⟨hnamespaces, hfilters⟩ := claim_registrations hok
  refine ⟨fun ns' => ?_, fun channel => (hfilters channel).trans (h.filters channel)⟩
  rw [hnamespaces, List.map_append, List.mem_append, ← h.owner]
  split_ifs with hns
  · simp [hns]
  · simp [hns]

theorem Holding.subscribe [Policy P] {channel : Channel} {filters : List HeaderFilter}
    (h : Holding broker id claims subscriptions) (hok : (broker.subscribeWithFilters id channel filters).2 = .ok ()) :
    Holding (broker.subscribeWithFilters id channel filters).1 id claims (subscriptions ++ [⟨channel, filters⟩]) := by
  obtain ⟨hnamespaces, hfilters⟩ := subscribe_registrations hok
  refine ⟨fun ns => by rw [hnamespaces, h.owner], fun channel' => ?_⟩
  rw [hfilters, latest_snoc, h.filters]

theorem Holding.unsubscribe {channel : Channel} (h : Holding broker id claims subscriptions)
    (hok : (broker.unsubscribe id channel).2 = .ok ()) :
    Holding (broker.unsubscribe id channel).1 id claims
      (subscriptions.filter fun subscription => subscription.channel ≠ channel) := by
  obtain ⟨hnamespaces, hfilters⟩ := unsubscribe_registrations hok
  refine ⟨fun ns => by rw [hnamespaces, h.owner], fun channel' => ?_⟩
  rw [hfilters, latest_filter, h.filters]

/-- A control operation that the broker accepts changes its maps as it changes the lists. -/
theorem Holding.apply [Policy P] {client : ReconnectingBus} {control : Control}
    (h : Holding broker id client.claims client.subscriptions) (hok : (control.apply broker id).2 = .ok ()) :
    Holding (control.apply broker id).1 id (client.recorded control).claims
      (client.recorded control).subscriptions := by
  cases control with
  | claim ns => exact h.claim hok
  | subscribe channel filters => exact h.subscribe hok
  | unsubscribe channel => exact h.unsubscribe hok

theorem Holding.card_claims (h : Holding broker id claims subscriptions) :
    (usage broker id).namespaces = (claims.map NamespaceClaim.ns).toFinset.card :=
  namespaces_eq_card fun ns => by rw [List.mem_toFinset, h.owner]

theorem Holding.card_subscriptions (h : Holding broker id claims subscriptions) :
    (usage broker id).subscriptions = (subscriptions.map Subscription.channel).toFinset.card :=
  subscriptions_eq_card fun channel => by rw [List.mem_toFinset, h.filters, isSome_latest]

end Holding

/-! ## Sessions -/

/-- What stays when the broker restarts and the client comes back. -/
structure Setting (P : Type) where
  policy : P
  limits : Limits
  capabilities : Capabilities
  frameLimits : FrameLimits
  options : ConnectOptions
  credentials : Credentials

variable {setting : Setting P} {id : PeerId}

def Control.action : Control → Option Action
  | .claim ns => some (.claimNamespace ns)
  | .subscribe channel _ => some (.subscribe channel)
  | .unsubscribe _ => none

variable [Policy P]

/-- The control operation gets through to the broker, and the policy permits it to the client. -/
structure Admissible (setting : Setting P) (control : Control) : Prop where
  carried : Carried setting.options.frameLimits setting.frameLimits control.frame
  permitted : ∀ action, control.action = some action → Policy.permits setting.policy
    ⟨setting.credentials, setting.options.clientId, setting.options.headers, action⟩ = true

/-- The control operations that restore what is on record. -/
def ReconnectingBus.replay (client : ReconnectingBus) : List Control :=
  client.claims.map (fun claim => .claim claim.ns) ++
    client.subscriptions.map fun subscription => .subscribe subscription.channel subscription.filters

/-- What is on record can be made again. -/
structure Repeatable (setting : Setting P) (client : ReconnectingBus) : Prop where
  plain : ∀ claim ∈ client.claims, claim.headers = ∅
  distinct : (client.claims.map NamespaceClaim.ns).Nodup
  admissible : ∀ control ∈ client.replay, Admissible setting control

/-- A broker that knows the client as the peer `id`. -/
structure Registered (setting : Setting P) (id : PeerId) (broker : Broker P) : Prop where
  reached : Reached setting.policy setting.limits setting.capabilities broker
  peer : ∃ capabilities, broker.peers.get? id = some ⟨id, setting.credentials, setting.options.hello, capabilities⟩

theorem Registered.exec {broker : Broker P} (h : Registered setting id broker) {op : Op} (hop : op ≠ .disconnect id) :
    Registered setting id (exec broker op).1 := by
  obtain ⟨capabilities, hpeer⟩ := h.peer
  exact ⟨h.reached.exec op, capabilities, exec_peer h.reached.integrity hpeer hop⟩

theorem Registered.apply {broker : Broker P} (h : Registered setting id broker) (control : Control) :
    Registered setting id (control.apply broker id).1 := by
  have hop : control.op id ≠ .disconnect id := by
    cases control <;> exact fun heq => (nomatch heq)
  have hexec := h.exec hop
  rwa [Control.exec_op] at hexec

/-- What the policy decides for the client, it decides on the credentials and the `HELLO`. -/
theorem Registered.authorize_iff {broker : Broker P} (h : Registered setting id broker) {action : Action} :
    broker.authorize id action = .ok () ↔ Policy.permits setting.policy
      ⟨setting.credentials, setting.options.clientId, setting.options.headers, action⟩ = true := by
  obtain ⟨capabilities, hpeer⟩ := h.peer
  rw [authorize_eq_ok, h.reached.settings.1]
  unfold Permits
  simp [hpeer, ConnectOptions.hello]

/-- A client between two calls of a session. -/
structure Session (setting : Setting P) (id : PeerId) (client : ReconnectingBus) (link : Link (Server P)) : Prop where
  options : client.options = setting.options
  busLimits : client.bus.frameLimits = setting.options.frameLimits
  peerId : client.bus.peerId = id
  unread : link.unread = []
  limits : link.far.limits = setting.frameLimits
  pc : link.far.pc = .receiving id
  others : ∀ ops ∈ link.far.others, ∀ op ∈ ops, op.registrant ≠ some id
  registered : Registered setting id link.far.broker
  holding : Holding link.far.broker id client.claims client.subscriptions
  repeatable : Repeatable setting client

theorem mem_headD_of {α : Type} {l : List (List α)} {a : α} (h : a ∈ l.headD []) : ∃ as ∈ l, a ∈ as := by
  cases l with
  | nil => cases h
  | cons as l => exact ⟨as, List.mem_cons_self, h⟩

theorem Session.meanwhile {client : ReconnectingBus} {link : Link (Server P)} (h : Session setting id client link) :
    Registered setting id link.far.meanwhile.broker ∧
      Holding link.far.meanwhile.broker id client.claims client.subscriptions := by
  have hothers : ∀ op ∈ link.far.others.headD [], op.registrant ≠ some id := by
    intro op hmem
    obtain ⟨ops, hops, hop⟩ := mem_headD_of hmem
    exact h.others ops hops op hop
  refine (run_spec link.far.broker (link.far.others.headD [])).invariant_on
    (I := fun b => Registered setting id b ∧ Holding b id client.claims client.subscriptions)
    (A := fun op => op.registrant ≠ some id) ?_ (forall_run_inputs hothers) ⟨h.registered, h.holding⟩
  intro b op hop ⟨hregistered, hholding⟩
  exact ⟨hregistered.exec fun heq => hop (heq ▸ rfl), hholding.of_same (exec_registrations b hop)⟩

def call (state : ReconnectingBus × Link (Server P)) (control : Control) :
    (ReconnectingBus × Link (Server P)) × Option (Except Error Unit) :=
  match state.1.perform Server.wire control state.2 with
  | some (.ok client, link) => ((client, link), some (.ok ()))
  | some (.error error, link) => ((state.1, link), some (.error error))
  | none => (state, none)

/-- The thread of the connection serves the peer `id`, and waits for its next packet. -/
def Connected (id : PeerId) (state : ReconnectingBus × Link (Server P)) : Prop := state.2.far.pc = .receiving id

theorem call_eq (client : ReconnectingBus) (link : Link (Server P)) (control : Control) :
    call (client, link) control = match client.bus.perform Server.wire control link with
      | some (.ok (), link') => ((client.recorded control, link'), some (.ok ()))
      | some (.error error, link') => ((client, link'), some (.error error))
      | none => ((client, link), none) := by
  unfold call
  rw [ReconnectingBus.perform_eq]
  match hperform : client.bus.perform Server.wire control link with
  | none =>
    have hnone : (do
        client.bus.perform Server.wire control
        return client.recorded control : Call (Server P) ReconnectingBus) link = none := by
      show (client.bus.perform Server.wire control link).bind _ = none
      rw [hperform]
      rfl
    simp only [hnone]
  | some (.error error, link') => simp only [bind_of_error hperform]
  | some (.ok (), link') =>
    simp only [bind_of_ok hperform]
    rfl

/-! ### What is on record after a call -/

theorem mem_replay {client : ReconnectingBus} {control : Control} :
    control ∈ client.replay ↔ (∃ claim ∈ client.claims, control = .claim claim.ns) ∨
      ∃ subscription ∈ client.subscriptions, control = .subscribe subscription.channel subscription.filters := by
  simp [ReconnectingBus.replay, eq_comm]

theorem mem_replay_recorded {client : ReconnectingBus} {control control' : Control}
    (h : control' ∈ (client.recorded control).replay) : control' ∈ client.replay ∨ control' = control := by
  rw [mem_replay] at h ⊢
  rcases h with ⟨claim, hmem, rfl⟩ | ⟨subscription, hmem, rfl⟩
  · cases control with
    | claim ns =>
      rcases List.mem_append.mp hmem with hold | hlast
      · exact .inl (.inl ⟨claim, hold, rfl⟩)
      · rw [List.mem_singleton.mp hlast]
        exact .inr rfl
    | subscribe channel filters => exact .inl (.inl ⟨claim, hmem, rfl⟩)
    | unsubscribe channel => exact .inl (.inl ⟨claim, hmem, rfl⟩)
  · cases control with
    | claim ns => exact .inl (.inr ⟨subscription, hmem, rfl⟩)
    | subscribe channel filters =>
      rcases List.mem_append.mp hmem with hold | hlast
      · exact .inl (.inr ⟨subscription, hold, rfl⟩)
      · rw [List.mem_singleton.mp hlast]
        exact .inr rfl
    | unsubscribe channel => exact .inl (.inr ⟨subscription, List.mem_of_mem_filter hmem, rfl⟩)

theorem Repeatable.recorded {client : ReconnectingBus} {control : Control} (h : Repeatable setting client)
    (hadmissible : Admissible setting control)
    (hnew : ∀ ns, control = .claim ns → ns ∉ client.claims.map NamespaceClaim.ns) :
    Repeatable setting (client.recorded control) := by
  constructor
  case admissible =>
    intro control' hmem
    rcases mem_replay_recorded hmem with hold | rfl
    · exact h.admissible control' hold
    · exact hadmissible
  case plain =>
    intro claim hmem
    cases control with
    | claim ns =>
      rcases List.mem_append.mp hmem with hmem | hmem
      · exact h.plain claim hmem
      · rw [List.mem_singleton.mp hmem]
    | subscribe channel filters => exact h.plain claim hmem
    | unsubscribe channel => exact h.plain claim hmem
  case distinct =>
    cases control with
    | claim ns =>
      change ((client.claims ++ [NamespaceClaim.mk ns ∅]).map NamespaceClaim.ns).Nodup
      rw [List.map_append]
      refine List.nodup_append.mpr ⟨h.distinct, List.nodup_singleton _, ?_⟩
      rintro ns' hmem _ hlast rfl
      obtain rfl : ns' = ns := List.mem_singleton.mp hlast
      exact hnew ns' rfl hmem
    | subscribe channel filters => exact h.distinct
    | unsubscribe channel => exact h.distinct

section Accepted

variable {broker : Broker P} {control : Control}

theorem Registered.admissible (h : Registered setting id broker)
    (hcarried : Carried setting.options.frameLimits setting.frameLimits control.frame)
    (hok : (control.apply broker id).2 = .ok ()) : Admissible setting control := by
  refine ⟨hcarried, fun action haction => h.authorize_iff.mp ?_⟩
  cases control with
  | claim ns =>
    cases haction
    exact claim_authorized hok
  | subscribe channel filters =>
    cases haction
    exact subscribe_authorized hok
  | unsubscribe channel => cases haction

theorem Holding.not_claimed {claims : List NamespaceClaim} {subscriptions : List Subscription} {ns : Namespace}
    (h : Holding broker id claims subscriptions) (hok : (broker.claim id ns).2 = .ok ()) :
    ns ∉ claims.map NamespaceClaim.ns := by
  intro hmem
  have howner := (h.owner ns).mpr hmem
  rcases claim_cases broker id ns with ⟨error, hc⟩ | ⟨-, hfree, -⟩
  · rw [hc] at hok
    cases hok
  · rw [hfree] at howner
    cases howner

theorem Control.apply_error {error : Broker.Error} (h : (control.apply broker id).2 = .error error) :
    (control.apply broker id).1 = broker := by
  cases control with
  | claim ns =>
    rcases claim_cases broker id ns with ⟨_, hc⟩ | ⟨-, -, hc⟩
    · exact congrArg Prod.fst hc
    · simp only [Control.apply, hc] at h
      cases h
  | subscribe channel filters =>
    rcases subscribeWithFilters_cases broker id channel filters with ⟨_, hc⟩ | ⟨-, hc⟩
    · exact congrArg Prod.fst hc
    · simp only [Control.apply, hc] at h
      cases h
  | unsubscribe channel =>
    rcases unsubscribe_cases broker id channel with ⟨_, hc⟩ | ⟨_, -, hc⟩
    · exact congrArg Prod.fst hc
    · simp only [Control.apply, hc] at h
      cases h

end Accepted

theorem Session.refused {client : ReconnectingBus} {server : Server P} {control : Control} {error : Broker.Error}
    (h : Session setting id client ⟨server, []⟩) (happly : (control.apply server.meanwhile.broker id).2 = .error error) :
    Session setting id client ⟨server.after control id, []⟩ := by
  obtain ⟨hregistered, hholding⟩ := h.meanwhile
  have hbroker : (server.after control id).broker = server.meanwhile.broker := Control.apply_error happly
  exact { h with
    unread := rfl
    pc := h.pc
    others := fun ops hmem => h.others ops (List.mem_of_mem_tail hmem)
    registered := hbroker ▸ hregistered
    holding := hbroker ▸ hholding }

theorem Session.accepted {client : ReconnectingBus} {server : Server P} {control : Control}
    (h : Session setting id client ⟨server, []⟩)
    (hcarried : Carried client.bus.frameLimits server.limits control.frame)
    (happly : (control.apply server.meanwhile.broker id).2 = .ok ()) :
    Session setting id (client.recorded control) ⟨server.after control id, []⟩ := by
  obtain ⟨hregistered, hholding⟩ := h.meanwhile
  rw [h.busLimits, show server.limits = setting.frameLimits from h.limits] at hcarried
  have hrepeatable : Repeatable setting (client.recorded control) := by
    refine h.repeatable.recorded (hregistered.admissible hcarried happly) ?_
    rintro ns rfl
    exact hholding.not_claimed happly
  have hbus : (client.recorded control).bus = client.bus := by cases control <;> rfl
  have hoptions : (client.recorded control).options = client.options := by cases control <;> rfl
  exact {
    options := hoptions.trans h.options
    busLimits := by rw [hbus, h.busLimits]
    peerId := by rw [hbus, h.peerId]
    unread := rfl
    limits := h.limits
    pc := h.pc
    others := fun ops hmem => h.others ops (List.mem_of_mem_tail hmem)
    registered := hregistered.apply control
    holding := hholding.apply happly
    repeatable := hrepeatable }

/-- A call keeps the session, if it stays connected. -/
theorem call_session {client : ReconnectingBus} {link : Link (Server P)} {control : Control}
    {state : ReconnectingBus × Link (Server P)} {answer : Option (Except Error Unit)}
    (h : Session setting id client link) (hcall : call (client, link) control = (state, answer))
    (hstays : Connected id state) : Session setting id state.1 state.2 := by
  obtain ⟨server, unread⟩ := link
  obtain rfl : unread = [] := h.unread
  rw [call_eq] at hcall
  match hperform : client.bus.perform Server.wire control ⟨server, []⟩ with
  | none =>
    rw [hperform] at hcall
    cases hcall
    exact h
  | some (.error error, link') =>
    rw [hperform] at hcall
    cases hcall
    rcases perform_cases h.pc hperform hstays with ⟨reason, -, rfl⟩ | ⟨-, rfl, hresult⟩
    · exact h
    · rcases hresult with ⟨-, hok⟩ | ⟨⟨refusal, happly⟩, -⟩
      · cases hok
      · exact h.refused happly
  | some (.ok (), link') =>
    rw [hperform] at hcall
    cases hcall
    rcases perform_cases h.pc hperform hstays with ⟨reason, herror, -⟩ | ⟨hcarried, rfl, hresult⟩
    · cases herror
    · rcases hresult with ⟨happly, -⟩ | ⟨-, reason, herror⟩
      · exact h.accepted hcarried happly
      · cases herror

theorem run_session {client client' : ReconnectingBus} {link link' : Link (Server P)}
    {history : List (Control × Option (Except Error Unit))} (h : Session setting id client link)
    (hrun : RunIn call (Connected id) (client, link) history (client', link')) : Session setting id client' link' := by
  generalize hstart : (client, link) = start at hrun
  generalize hend : (client', link') = last at hrun
  induction hrun generalizing client' link' with
  | nil _ =>
    obtain ⟨rfl, rfl⟩ := Prod.mk.inj (hend.trans hstart.symm)
    exact h
  | @snoc s' s'' history control answer hrun hcall hstays ih =>
    subst hend
    have hbefore := ih rfl
    exact call_session hbefore hcall hstays

/-! ## Opening a session -/

theorem Opened.registered {server : Server P} {broker : Broker P} {session : ConnectedPeer}
    (h : Opened server setting.options setting.credentials broker session)
    (hreached : Reached setting.policy setting.limits setting.capabilities server.meanwhile.broker) :
    Registered setting session.id broker ∧ Holding broker session.id [] [] ∧
      broker.namespaces = server.meanwhile.broker.namespaces := by
  obtain ⟨-, -, nextPeer, -, rfl, rfl⟩ := connectSession_eq_ok_iff.mp h.admitted
  obtain ⟨hunowned, hunsubscribed⟩ := hreached.integrity.unregistered
  refine ⟨⟨?_, _, (OrdMap.get?_insert _ _ _ _).trans (if_pos rfl)⟩, ⟨fun ns => ?_, hunsubscribed⟩, rfl⟩
  · have hexec := hreached.exec (.connect setting.credentials setting.options.hello)
    simp only [exec, h.admitted] at hexec
    exact hexec
  · exact iff_of_false (hunowned ns) (by simp)

structure Awaiting (setting : Setting P) (server : Server P) : Prop where
  limits : server.limits = setting.frameLimits
  pc : server.pc = .awaitHello setting.credentials
  reached : Reached setting.policy setting.limits setting.capabilities server.broker

theorem Opened.session {server : Server P} {broker : Broker P} {session : ConnectedPeer}
    (h : Opened server setting.options setting.credentials broker session) (hawaiting : Awaiting setting server)
    (hothers : ∀ ops ∈ server.others, ∀ op ∈ ops, op.registrant ≠ some session.id) :
    Session setting session.id
      ⟨⟨setting.options.frameLimits, session.id, session.capabilities⟩, setting.options, [], []⟩
      ⟨{ server.meanwhile with broker, pc := .receiving session.id }, []⟩ := by
  obtain ⟨hregistered, hholding, -⟩ := h.registered (hawaiting.reached.run _)
  exact {
    options := rfl
    busLimits := rfl
    peerId := rfl
    unread := rfl
    limits := hawaiting.limits
    pc := rfl
    others := fun ops hmem => hothers ops (List.mem_of_mem_tail hmem)
    registered := hregistered
    holding := hholding
    repeatable := ⟨fun _ hmem => (nomatch hmem), List.nodup_nil, fun _ hmem => (nomatch hmem)⟩ }

theorem connect_session {server : Server P} {client : ReconnectingBus} {link : Link (Server P)}
    (hawaiting : Awaiting setting server)
    (hconnect : ReconnectingBus.connect Server.wire setting.options true ⟨server, []⟩ = some (.ok client, link))
    (hothers : ∀ ops ∈ server.others, ∀ op ∈ ops, op.registrant ≠ some client.bus.peerId) :
    (∃ broker session, Opened server setting.options setting.credentials broker session) ∧
      Session setting client.bus.peerId client link ∧ client.claims = [] := by
  obtain ⟨bus, link', hbus, hreturn⟩ := call_bind_eq_ok.mp hconnect
  cases hreturn
  obtain ⟨broker, session, hopened⟩ := opened_of_connect hawaiting.pc hbus
  rw [connect_opened hawaiting.pc hopened] at hbus
  cases hbus
  exact ⟨⟨broker, session, hopened⟩, hopened.session hawaiting hothers, rfl⟩

end Busd.Client
