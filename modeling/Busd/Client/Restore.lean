import Busd.Client.Session

/-!
# Reconnecting

`reconnect` opens a new session and makes every call on record again, claims first. `Restoring` says what holds
after some of these calls: the new peer has what they say, and the limits leave room for the rest.

* `reconnect_opened` : on a broker where nobody else has what was claimed, reconnecting restores everything;
* `reconnect_restores` : after a restart of the broker the new peer has what the old one had;
* `reconnect_overlap_iff` : while the old session is open, reconnecting works exactly when nothing was claimed.
-/

namespace Busd.Client

open Words Machine Busd.Protocol Busd.Policy Busd.Broker Busd.Daemon

variable {P : Type} [Policy P] {setting : Setting P} {id : PeerId}

/-! ## Restoring -/

/-- A call of the clock thread, or one that only reads. -/
def quiet : Op → Bool
  | .tick _ | .drainEvents => true
  | _ => false

theorem quiet_sameRegistry (broker : Broker P) {op : Op} (h : quiet op = true) :
    SameRegistry broker (exec broker op).1 := by
  cases op with
  | tick nowMs => exact tick_sameRegistry broker nowMs
  | drainEvents => exact ⟨rfl, rfl, rfl, rfl, rfl, rfl, rfl, rfl⟩
  | _ => cases h

/-- Nobody but the clock thread calls the broker. -/
def Alone (server : Server P) : Prop := ∀ ops ∈ server.others, ∀ op ∈ ops, quiet op = true

section Alone

variable {server : Server P}

omit [Policy P] in
theorem Alone.others (h : Alone server) : ∀ ops ∈ server.others, ∀ op ∈ ops, op.registrant ≠ some id := by
  intro ops hops op hop
  have hquiet := h ops hops op hop
  cases op with
  | tick nowMs => exact fun heq => (nomatch heq)
  | drainEvents => exact fun heq => (nomatch heq)
  | _ => cases hquiet

theorem Alone.meanwhile (h : Alone server) :
    SameRegistry server.broker server.meanwhile.broker ∧ Alone server.meanwhile := by
  have hquiet : ∀ op ∈ server.others.headD [], quiet op = true := by
    intro op hmem
    obtain ⟨ops, hops, hop⟩ := mem_headD_of hmem
    exact h ops hops op hop
  refine ⟨?_, fun ops hmem => h ops (List.mem_of_mem_tail hmem)⟩
  refine (run_spec server.broker (server.others.headD [])).invariant_on (I := SameRegistry server.broker)
    (A := fun op => quiet op = true) ?_ (forall_run_inputs hquiet) (.refl _)
  intro b op hop hsame
  exact hsame.trans (quiet_sameRegistry b hop)

end Alone

def claimed (controls : List Control) : List Namespace :=
  controls.filterMap fun
    | .claim ns => some ns
    | _ => none

def subscribed (controls : List Control) : List Subscription :=
  controls.filterMap fun
    | .subscribe channel filters => some ⟨channel, filters⟩
    | _ => none

theorem mem_claimed {controls : List Control} {ns : Namespace} : ns ∈ claimed controls ↔ .claim ns ∈ controls := by
  unfold claimed
  rw [List.mem_filterMap]
  refine ⟨?_, fun hmem => ⟨_, hmem, rfl⟩⟩
  rintro ⟨control, hmem, h⟩
  cases control with
  | claim ns' =>
    cases h
    exact hmem
  | _ => cases h

theorem claimed_replay (client : ReconnectingBus) : claimed client.replay = client.claims.map NamespaceClaim.ns := by
  simp [claimed, ReconnectingBus.replay]

theorem subscribed_replay (client : ReconnectingBus) : subscribed client.replay = client.subscriptions := by
  simp [subscribed, ReconnectingBus.replay]

/-- What is on record is not more than one peer may have. -/
structure WithinLimits (limits : Limits) (client : ReconnectingBus) : Prop where
  claims : (client.claims.map NamespaceClaim.ns).toFinset.card ≤ limits.maximumNamespaceClaims
  subscriptions : (client.subscriptions.map Subscription.channel).toFinset.card ≤ limits.maximumSubscriptions

/-- The broker has it all, and has checked the limits. -/
theorem Session.withinLimits {client : ReconnectingBus} {link : Link (Server P)} (h : Session setting id client link) :
    WithinLimits setting.limits client := by
  obtain ⟨history, hrun⟩ := h.registered.reached
  have husage := (run_within hrun).2.2 id
  exact ⟨h.holding.card_claims ▸ husage.namespaces, h.holding.card_subscriptions ▸ husage.subscriptions⟩

theorem card_lt_of_append {α : Type} [DecidableEq α] {done todo : List α} {a : α} (h : a ∉ done) :
    done.toFinset.card < (done ++ a :: todo).toFinset.card := by
  refine Finset.card_lt_card (Finset.ssubset_iff_of_subset ?_ |>.mpr ⟨a, by simp, by simpa using h⟩)
  intro x hx
  simp only [List.mem_toFinset, List.mem_append] at hx ⊢
  exact .inl hx

/-- A client that is being restored: what it has on record, what it has done of it, and the new session. -/
structure Restoring (setting : Setting P) (client : ReconnectingBus) (bus : Bus) (done : List Control)
    (server : Server P) : Prop where
  session : ∃ record, record.bus = bus ∧ record.claims.map NamespaceClaim.ns = claimed done ∧
    record.subscriptions = subscribed done ∧ Session setting bus.peerId record ⟨server, []⟩
  alone : Alone server
  vacant : ∀ ns ∈ claimed client.replay, ∀ owner, server.broker.namespaces.get? ns = some owner → owner = bus.peerId

section Restoring

variable {client : ReconnectingBus} {bus : Bus} {done todo : List Control} {control : Control} {server : Server P}

/-- A namespace on record is there once, so nobody has it before its turn comes. -/
theorem Restoring.claim {ns : Namespace} (h : Restoring setting client bus done server)
    (hrepeatable : Repeatable setting client) (hwithin : WithinLimits setting.limits client)
    (hreplay : client.replay = done ++ .claim ns :: todo) :
    (usage server.meanwhile.broker bus.peerId).namespaces < setting.limits.maximumNamespaceClaims ∧
      server.meanwhile.broker.namespaces.get? ns = none := by
  obtain ⟨record, -, hclaims, -, hsession⟩ := h.session
  have hholding : Holding server.meanwhile.broker bus.peerId _ _ := hsession.meanwhile.2
  have hsplit : client.claims.map NamespaceClaim.ns = claimed done ++ ns :: claimed todo := by
    rw [← claimed_replay, hreplay]
    simp [claimed]
  have hnew : ns ∉ claimed done := by
    have hdistinct := hrepeatable.distinct
    rw [hsplit] at hdistinct
    intro hdone
    exact (List.nodup_append.mp hdistinct).2.2 ns hdone ns List.mem_cons_self rfl
  constructor
  · rw [hholding.card_claims, hclaims]
    have hbound := hwithin.claims
    rw [hsplit] at hbound
    exact (card_lt_of_append hnew).trans_le hbound
  · by_contra hsome
    obtain ⟨owner, howner⟩ := Option.ne_none_iff_exists'.mp hsome
    have hin : ns ∈ claimed client.replay := by
      rw [claimed_replay, hsplit]
      exact List.mem_append_right _ List.mem_cons_self
    obtain rfl : owner = bus.peerId := by
      refine h.vacant ns hin owner ?_
      rw [← h.alone.meanwhile.1.namespaces]
      exact howner
    rw [hholding.owner, hclaims] at howner
    exact hnew howner

/-- A channel on record may be there more than once: only the first time needs room. -/
theorem Restoring.subscribe {channel : Channel} {filters : List HeaderFilter}
    (h : Restoring setting client bus done server) (hwithin : WithinLimits setting.limits client)
    (hreplay : client.replay = done ++ .subscribe channel filters :: todo) :
    (filtersOf server.meanwhile.broker bus.peerId channel).isSome = true ∨
      (usage server.meanwhile.broker bus.peerId).subscriptions < setting.limits.maximumSubscriptions := by
  obtain ⟨record, -, -, hsubscriptions, hsession⟩ := h.session
  have hholding : Holding server.meanwhile.broker bus.peerId _ _ := hsession.meanwhile.2
  have hsplit : client.subscriptions.map Subscription.channel =
      (subscribed done).map Subscription.channel ++ channel :: (subscribed todo).map Subscription.channel := by
    rw [← subscribed_replay, hreplay]
    simp [subscribed]
  rw [hholding.filters, isSome_latest, hholding.card_subscriptions, hsubscriptions]
  refine or_iff_not_imp_left.mpr fun hnew => ?_
  have hbound := hwithin.subscriptions
  rw [hsplit] at hbound
  exact (card_lt_of_append hnew).trans_le hbound

theorem Restoring.accepts (h : Restoring setting client bus done server) (hrepeatable : Repeatable setting client)
    (hwithin : WithinLimits setting.limits client) (hreplay : client.replay = done ++ control :: todo) :
    (control.apply server.meanwhile.broker bus.peerId).2 = .ok () := by
  obtain ⟨record, -, -, -, hsession⟩ := h.session
  have hregistered : Registered setting bus.peerId server.meanwhile.broker := hsession.meanwhile.1
  obtain ⟨-, hlimits, -⟩ := hregistered.reached.settings
  have hmem : control ∈ client.replay := by
    rw [hreplay]
    exact List.mem_append_right _ List.mem_cons_self
  have hpermitted := (hrepeatable.admissible control hmem).permitted
  cases control with
  | claim ns =>
    obtain ⟨hroom, hfree⟩ := h.claim hrepeatable hwithin hreplay
    rw [← hlimits] at hroom
    exact congrArg Prod.snd (claim_of (hregistered.authorize_iff.mpr (hpermitted _ rfl)) hroom hfree)
  | subscribe channel filters =>
    have hroom := h.subscribe hwithin hreplay
    rw [← hlimits] at hroom
    exact congrArg Prod.snd (subscribe_of (hregistered.authorize_iff.mpr (hpermitted _ rfl)) hroom)
  | unsubscribe channel =>
    rcases mem_replay.mp hmem with ⟨_, _, heq⟩ | ⟨_, _, heq⟩
    · cases heq
    · cases heq

theorem recorded_lists {record : ReconnectingBus} (hcontrol : control.action ≠ none)
    (hclaims : record.claims.map NamespaceClaim.ns = claimed done)
    (hsubscriptions : record.subscriptions = subscribed done) :
    (record.recorded control).claims.map NamespaceClaim.ns = claimed (done ++ [control]) ∧
      (record.recorded control).subscriptions = subscribed (done ++ [control]) := by
  cases control with
  | claim ns => simp [ReconnectingBus.recorded, claimed, subscribed, hclaims, hsubscriptions]
  | subscribe channel filters => simp [ReconnectingBus.recorded, claimed, subscribed, hclaims, hsubscriptions]
  | unsubscribe channel => exact absurd rfl hcontrol

/-- No control operation of a peer gives a namespace to another one. -/
theorem Control.apply_owner {broker : Broker P} (hok : (control.apply broker id).2 = .ok ()) {ns : Namespace}
    {owner : PeerId} (h : (control.apply broker id).1.namespaces.get? ns = some owner) :
    owner = id ∨ broker.namespaces.get? ns = some owner := by
  cases control with
  | claim ns' =>
    simp only [Control.apply, (claim_registrations hok).1] at h
    split_ifs at h
    · cases h
      exact .inl rfl
    · exact .inr h
  | subscribe channel filters =>
    simp only [Control.apply, (subscribe_registrations hok).1] at h
    exact .inr h
  | unsubscribe channel =>
    simp only [Control.apply, (unsubscribe_registrations hok).1] at h
    exact .inr h

theorem Restoring.step (h : Restoring setting client bus done server) (hrepeatable : Repeatable setting client)
    (hwithin : WithinLimits setting.limits client) (hreplay : client.replay = done ++ control :: todo) :
    bus.perform Server.wire control ⟨server, []⟩ = some (.ok (), ⟨server.after control bus.peerId, []⟩) ∧
      Restoring setting client bus (done ++ [control]) (server.after control bus.peerId) := by
  have hok := h.accepts hrepeatable hwithin hreplay
  obtain ⟨record, rfl, hclaims, hsubscriptions, hsession⟩ := h.session
  have hmem : control ∈ client.replay := by
    rw [hreplay]
    exact List.mem_append_right _ List.mem_cons_self
  have hcarried : Carried record.bus.frameLimits server.limits control.frame := by
    rw [hsession.busLimits, show server.limits = setting.frameLimits from hsession.limits]
    exact (hrepeatable.admissible control hmem).carried
  have hperform := perform_accepted hsession.pc hcarried hok
  refine ⟨hperform, ?_, h.alone.meanwhile.2, ?_⟩
  · have hcontrol : control.action ≠ none := by
      rcases mem_replay.mp hmem with ⟨_, _, rfl⟩ | ⟨_, _, rfl⟩
      · exact fun heq => (nomatch heq)
      · exact fun heq => (nomatch heq)
    obtain ⟨hclaims', hsubscriptions'⟩ := recorded_lists hcontrol hclaims hsubscriptions
    refine ⟨record.recorded control, ?_, hclaims', hsubscriptions', hsession.accepted hcarried hok⟩
    cases control <;> rfl
  · intro ns hns owner howner
    rcases Control.apply_owner hok howner with hmine | hold
    · exact hmine
    · rw [h.alone.meanwhile.1.namespaces] at hold
      exact h.vacant ns hns owner hold

theorem Restoring.run (h : Restoring setting client bus done server) (hrepeatable : Repeatable setting client)
    (hwithin : WithinLimits setting.limits client) {later : List Control}
    (hreplay : client.replay = done ++ todo ++ later) :
    ∃ server', todo.forM (bus.perform Server.wire) ⟨server, []⟩ = some (.ok (), ⟨server', []⟩) ∧
      Restoring setting client bus (done ++ todo) server' := by
  induction todo generalizing done server with
  | nil => exact ⟨server, rfl, by rwa [List.append_nil]⟩
  | cons control todo ih =>
    have hnext : client.replay = done ++ control :: (todo ++ later) := by rw [hreplay]; simp
    obtain ⟨hperform, hrestoring⟩ := h.step hrepeatable hwithin hnext
    obtain ⟨server', hforM, hlast⟩ := ih hrestoring (by rw [hreplay]; simp)
    refine ⟨server', ?_, by simpa using hlast⟩
    show (bus.perform Server.wire control >>= fun _ => todo.forM (bus.perform Server.wire)) _ = _
    rw [bind_of_ok hperform, hforM]

end Restoring

/-! ## `reconnect` -/

theorem forM_claims (bus : Bus) {claims : List NamespaceClaim} (hplain : ∀ claim ∈ claims, claim.headers = ∅) :
    claims.forM (fun claim => bus.claimWithHeaders Server.wire claim.ns claim.headers) =
      (claims.map fun claim => Control.claim claim.ns).forM (bus.perform (Server.wire (P := P))) := by
  induction claims with
  | nil => rfl
  | cons claim claims ih =>
    show (bus.claimWithHeaders Server.wire claim.ns claim.headers >>= _) = _
    rw [hplain claim List.mem_cons_self, ih fun claim' hmem => hplain claim' (List.mem_cons_of_mem _ hmem)]
    rfl

theorem forM_subscriptions (bus : Bus) (subscriptions : List Subscription) :
    subscriptions.forM (fun subscription => bus.subscribe Server.wire subscription.channel subscription.filters) =
      (subscriptions.map fun subscription => Control.subscribe subscription.channel subscription.filters).forM
        (bus.perform (Server.wire (P := P))) := by
  induction subscriptions with
  | nil => rfl
  | cons subscription subscriptions ih =>
    show (bus.subscribe Server.wire subscription.channel subscription.filters >>= _) = _
    rw [ih]
    rfl

/-- A broker in the same setting that has identities left opens a session again. -/
theorem Opened.again {server server' : Server P} {broker : Broker P} {session : ConnectedPeer}
    (h : Opened server setting.options setting.credentials broker session) (hawaiting : Awaiting setting server)
    (hawaiting' : Awaiting setting server') (hnext : server'.meanwhile.broker.nextPeer.toNat + 1 < 2 ^ 64) :
    ∃ broker' session', Opened server' setting.options setting.credentials broker' session' := by
  have hreached : Reached setting.policy setting.limits setting.capabilities server.meanwhile.broker :=
    hawaiting.reached.run _
  have hreached' : Reached setting.policy setting.limits setting.capabilities server'.meanwhile.broker :=
    hawaiting'.reached.run _
  obtain ⟨hpolicy, -, hcapabilities⟩ := hreached.settings
  obtain ⟨hpolicy', -, hcapabilities'⟩ := hreached'.settings
  have hlimits : server'.limits = server.limits := hawaiting'.limits.trans hawaiting.limits.symm
  obtain ⟨hheaders, hpermits, nextPeer, -, -, rfl⟩ := connectSession_eq_ok_iff.mp h.admitted
  refine ⟨_, _, hlimits ▸ h.hello, connectSession_eq_ok_iff.mpr ⟨hheaders, ?_, _, if_pos hnext, rfl, rfl⟩, ?_⟩
  · rw [hpolicy', ← hpolicy]
    exact hpermits
  · have hwelcome := h.welcome
    rw [hcapabilities, ← hlimits] at hwelcome
    rw [hcapabilities']
    refine hwelcome.welcome fun hzero => ?_
    have hpositive := hreached'.integrity.next
    rw [show server'.meanwhile.broker.nextPeer = 0 from hzero] at hpositive
    exact absurd hpositive (by decide)

/-- Everything on record is restored, if its namespaces are free. -/
theorem reconnect_opened {client : ReconnectingBus} {server : Server P} {broker : Broker P} {session : ConnectedPeer}
    (hawaiting : Awaiting setting server) (hopened : Opened server setting.options setting.credentials broker session)
    (halone : Alone server) (hoptions : client.options = setting.options) (hrepeatable : Repeatable setting client)
    (hwithin : WithinLimits setting.limits client)
    (hvacant : ∀ ns ∈ client.claims.map NamespaceClaim.ns, server.broker.namespaces.get? ns = none) :
    ∃ restored link, client.reconnect Server.wire true ⟨server, []⟩ = some (.ok restored, link) ∧
      Holding link.far.broker restored.bus.peerId client.claims client.subscriptions := by
  have hconnect := connect_opened hawaiting.pc hopened
  generalize hbus : Bus.mk setting.options.frameLimits session.id session.capabilities = bus at hconnect
  have hsession := hopened.session hawaiting halone.others
  obtain ⟨-, -, hnamespaces⟩ := hopened.registered (hawaiting.reached.run _)
  have hstart : Restoring setting client bus [] { server.meanwhile with broker, pc := .receiving session.id } := by
    subst hbus
    refine ⟨⟨_, rfl, rfl, rfl, hsession⟩, halone.meanwhile.2, fun ns hns owner howner => ?_⟩
    rw [hnamespaces, halone.meanwhile.1.namespaces, hvacant ns (claimed_replay client ▸ hns)] at howner
    cases howner
  have hreplay : client.replay = [] ++ client.claims.map (fun claim => .claim claim.ns) ++
      client.subscriptions.map fun subscription => .subscribe subscription.channel subscription.filters := rfl
  obtain ⟨server₁, hclaims, hhalf⟩ := hstart.run hrepeatable hwithin hreplay
  obtain ⟨server₂, hsubscriptions, hlast⟩ := hhalf.run hrepeatable hwithin (hreplay.trans (List.append_nil _).symm)
  rw [← hreplay] at hlast
  refine ⟨{ client with bus }, ⟨server₂, []⟩, ?_, ?_⟩
  · unfold ReconnectingBus.reconnect
    rw [hoptions, bind_of_ok hconnect, forM_claims bus hrepeatable.plain, bind_of_ok hclaims, forM_subscriptions,
      bind_of_ok hsubscriptions]
    rfl
  · obtain ⟨record, -, hrecord, hrecord', hend⟩ := hlast.session
    rw [claimed_replay] at hrecord
    rw [subscribed_replay] at hrecord'
    refine ⟨fun ns => ?_, fun channel => ?_⟩
    · rw [← hrecord]
      exact hend.holding.owner ns
    · rw [← hrecord']
      exact hend.holding.filters channel

/-! ## After a restart -/

/-- A broker that has just started, and a client that connects to it. -/
def Setting.restarted (setting : Setting P) (others : List (List Op)) : Server P :=
  ⟨setting.frameLimits, Broker.empty setting.policy setting.limits setting.capabilities,
    .awaitHello setting.credentials, others⟩

theorem Setting.awaiting_restarted (setting : Setting P) (others : List (List Op)) :
    Awaiting setting (setting.restarted others) :=
  ⟨rfl, rfl, [], Run.nil _⟩

/-- When the broker has restarted, reconnecting succeeds, and the new peer owns the namespaces that the old one
owned and has the subscriptions that the old one had. -/
theorem reconnect_restores {setting : Setting P} {server : Server P} {opened client : ReconnectingBus}
    {start link : Link (Server P)} {history : List (Control × Option (Except Error Unit))} {others : List (List Op)}
    (hawaiting : Awaiting setting server)
    (hconnect : ReconnectingBus.connect Server.wire setting.options true ⟨server, []⟩ = some (.ok opened, start))
    (hothers : ∀ ops ∈ server.others, ∀ op ∈ ops, op.registrant ≠ some opened.bus.peerId)
    (hrun : RunIn call (Connected opened.bus.peerId) (opened, start) history (client, link))
    (halone : Alone (setting.restarted others)) :
    ∃ restored link', client.reconnect Server.wire true ⟨setting.restarted others, []⟩ = some (.ok restored, link') ∧
      (∀ ns, link'.far.broker.namespaceOwner ns = some restored.bus.peerId ↔
        link.far.broker.namespaceOwner ns = some client.bus.peerId) ∧
      ∀ channel, filtersOf link'.far.broker restored.bus.peerId channel =
        filtersOf link.far.broker client.bus.peerId channel := by
  obtain ⟨⟨_, _, hopened⟩, hstart, -⟩ := connect_session hawaiting hconnect hothers
  have hsession := run_session hstart hrun
  have hnext : (setting.restarted others).meanwhile.broker.nextPeer = 1 := halone.meanwhile.1.nextPeer
  obtain ⟨_, _, hagain⟩ := hopened.again hawaiting (setting.awaiting_restarted others) (by rw [hnext]; decide)
  obtain ⟨restored, link', hreconnect, hholding⟩ := reconnect_opened (setting.awaiting_restarted others) hagain halone
    hsession.options hsession.repeatable hsession.withinLimits fun _ _ => rfl
  have hold := hsession.holding
  rw [← hsession.peerId] at hold
  refine ⟨restored, link', hreconnect, fun ns => ?_, fun channel => ?_⟩
  · exact (hholding.owner ns).trans (hold.owner ns).symm
  · exact (hholding.filters channel).trans (hold.filters channel).symm

def plainSetting : Setting AllowAll := ⟨.mk, .default, ∅, .default, .default, .default⟩

def plainSession : ReconnectingBus × Link (Server AllowAll) :=
  (⟨⟨.default, .new 1, ∅⟩, .default, [], []⟩,
    ⟨⟨.default, (exec (Broker.empty .mk .default ∅) plainConnect).1, .receiving (.new 1), []⟩, []⟩)

theorem plainSession_connect : ReconnectingBus.connect Server.wire plainSetting.options true
    ⟨plainSetting.restarted [], []⟩ = some (.ok plainSession.1, plainSession.2) := by
  decide +kernel

/-- The client claims a namespace in it, and then subscribes to a channel. -/
def afterClaim : ReconnectingBus × Link (Server AllowAll) := (call plainSession (.claim plainNamespace)).1

def afterBoth : ReconnectingBus × Link (Server AllowAll) := (call afterClaim (.subscribe plainChannel [])).1

theorem reconnect_restores_both :
    afterBoth.2.far.broker.namespaceOwner plainNamespace = some (.new 1) ∧
      ∃ restored link', afterBoth.1.reconnect Server.wire true ⟨plainSetting.restarted [[.tick 5]], []⟩ =
          some (.ok restored, link') ∧
        (∀ ns, link'.far.broker.namespaceOwner ns = some restored.bus.peerId ↔
          afterBoth.2.far.broker.namespaceOwner ns = some afterBoth.1.bus.peerId) ∧
        ∀ channel, filtersOf link'.far.broker restored.bus.peerId channel =
          filtersOf afterBoth.2.far.broker afterBoth.1.bus.peerId channel := by
  have hclaim : call plainSession (.claim plainNamespace) = (afterClaim, some (.ok ())) :=
    Prod.ext rfl (by decide +kernel)
  have hsubscribe : call afterClaim (.subscribe plainChannel []) = (afterBoth, some (.ok ())) :=
    Prod.ext rfl (by decide +kernel)
  have hrun : RunIn call (Connected (.new 1)) plainSession _ afterBoth :=
    .snoc (.snoc (.nil rfl) hclaim (by unfold Connected; decide +kernel)) hsubscribe
      (by unfold Connected; decide +kernel)
  exact ⟨by decide +kernel, reconnect_restores (plainSetting.awaiting_restarted []) plainSession_connect
    (fun _ hmem => (nomatch hmem)) hrun (by unfold Alone; decide +kernel)⟩

/-! ## While the old session is open -/

/-- The same broker, and a client that connects to it again. -/
def Setting.reopened (setting : Setting P) (broker : Broker P) (others : List (List Op)) : Server P :=
  ⟨setting.frameLimits, broker, .awaitHello setting.credentials, others⟩

theorem call_ok {client : ReconnectingBus} {link : Link (Server P)} {control : Control}
    {state : ReconnectingBus × Link (Server P)} (h : call (client, link) control = (state, some (.ok ()))) :
    state.1 = client.recorded control := by
  rw [call_eq] at h
  match hperform : client.bus.perform Server.wire control link with
  | none =>
    rw [hperform] at h
    cases h
  | some (.error error, link') =>
    rw [hperform] at h
    cases h
  | some (.ok (), link') =>
    rw [hperform] at h
    cases h
    rfl

theorem run_claimed {Q : ReconnectingBus × Link (Server P) → Prop} {start last : ReconnectingBus × Link (Server P)}
    {history : List (Control × Option (Except Error Unit))} (hrun : RunIn call Q start history last)
    (hsuccess : ∀ e ∈ history, e.2 = some (.ok ())) :
    last.1.claims.map NamespaceClaim.ns =
      start.1.claims.map NamespaceClaim.ns ++ claimed (history.map Prod.fst) := by
  induction hrun with
  | nil _ => exact (List.append_nil _).symm
  | @snoc s' s'' history control answer _ hcall _ ih =>
    obtain rfl : answer = some (.ok ()) := hsuccess (control, answer) (List.mem_append_right _ List.mem_cons_self)
    have hbefore := ih fun e hmem => hsuccess e (List.mem_append_left _ hmem)
    rw [call_ok hcall, List.map_append]
    cases control with
    | claim ns => simp [ReconnectingBus.recorded, claimed, hbefore]
    | subscribe channel filters => simpa [ReconnectingBus.recorded, claimed] using hbefore
    | unsubscribe channel => simpa [ReconnectingBus.recorded, claimed] using hbefore

theorem perform_owned {bus : Bus} {server : Server P} {ns : Namespace} {owner : PeerId}
    (hpc : server.pc = .receiving bus.peerId)
    (hcarried : Carried bus.frameLimits server.limits (Control.claim ns).frame)
    (howner : server.meanwhile.broker.namespaces.get? ns = some owner) {link : Link (Server P)} :
    bus.perform Server.wire (.claim ns) ⟨server, []⟩ ≠ some (.ok (), link) := by
  intro hperform
  rcases claim_cases server.meanwhile.broker bus.peerId ns with ⟨error, hc⟩ | ⟨-, hfree, -⟩
  · have herror : ((Control.claim ns).apply server.meanwhile.broker bus.peerId).2 = .error error :=
      congrArg Prod.snd hc
    obtain ⟨reason, pc, hrefused⟩ := perform_refused hpc hcarried herror
    rw [hrefused] at hperform
    cases hperform
  · rw [howner] at hfree
    cases hfree

/-- A namespace that somebody else owns is not restored. -/
theorem reconnect_owned {client : ReconnectingBus} {server : Server P} {claim : NamespaceClaim}
    {claims : List NamespaceClaim} {owner : PeerId} (hawaiting : Awaiting setting server) (halone : Alone server)
    (hoptions : client.options = setting.options) (hrepeatable : Repeatable setting client)
    (hclaims : client.claims = claim :: claims) (howner : server.broker.namespaces.get? claim.ns = some owner)
    {restored : ReconnectingBus} {link : Link (Server P)} :
    client.reconnect Server.wire true ⟨server, []⟩ ≠ some (.ok restored, link) := by
  intro hreconnect
  obtain ⟨bus, link₁, hconnect, hrest⟩ := call_bind_eq_ok.mp hreconnect
  rw [hoptions] at hconnect
  obtain ⟨broker, session, hopened⟩ := opened_of_connect hawaiting.pc hconnect
  rw [connect_opened hawaiting.pc hopened] at hconnect
  cases hconnect
  obtain ⟨_, link₂, hforM, -⟩ := call_bind_eq_ok.mp hrest
  rw [forM_claims _ hrepeatable.plain, hclaims] at hforM
  obtain ⟨_, link₃, hperform, -⟩ := call_bind_eq_ok.mp hforM
  -- the first claim reaches a broker in which the namespace still has its owner
  generalize hserver : ({ server.meanwhile with broker, pc := .receiving session.id } : Server P) = opened at hperform
  generalize hbus : Bus.mk setting.options.frameLimits session.id session.capabilities = bus at hperform
  have hpc : opened.pc = .receiving bus.peerId := by rw [← hserver, ← hbus]
  have hmem : Control.claim claim.ns ∈ client.replay :=
    mem_replay.mpr (.inl ⟨claim, hclaims ▸ List.mem_cons_self, rfl⟩)
  have hlimits : opened.limits = setting.frameLimits := by
    rw [← hserver]
    exact hawaiting.limits
  have hcarried : Carried bus.frameLimits opened.limits (Control.claim claim.ns).frame := by
    rw [← hbus, hlimits]
    exact (hrepeatable.admissible _ hmem).carried
  have hstill : opened.meanwhile.broker.namespaces.get? claim.ns = some owner := by
    have hquiet : Alone opened := by
      rw [← hserver]
      exact halone.meanwhile.2
    rw [hquiet.meanwhile.1.namespaces, ← hserver]
    have hnamespaces := (hopened.registered (hawaiting.reached.run _)).2.2
    rw [← halone.meanwhile.1.namespaces, ← hnamespaces] at howner
    exact howner
  exact perform_owned hpc hcarried hstill hperform

/-- While the old session is still open, reconnecting gives the new peer what the old one has claimed exactly
when it has claimed nothing. -/
theorem reconnect_overlap_iff {setting : Setting P} {server : Server P} {opened client : ReconnectingBus}
    {start link : Link (Server P)} {history : List (Control × Option (Except Error Unit))} {others : List (List Op)}
    (hawaiting : Awaiting setting server)
    (hconnect : ReconnectingBus.connect Server.wire setting.options true ⟨server, []⟩ = some (.ok opened, start))
    (hothers : ∀ ops ∈ server.others, ∀ op ∈ ops, op.registrant ≠ some opened.bus.peerId)
    (hrun : RunIn call (Connected opened.bus.peerId) (opened, start) history (client, link))
    (hsuccess : ∀ e ∈ history, e.2 = some (.ok ()))
    (halone : Alone (setting.reopened link.far.broker others))
    (hnext : link.far.broker.nextPeer.toNat + 1 < 2 ^ 64) :
    (∃ restored link', client.reconnect Server.wire true ⟨setting.reopened link.far.broker others, []⟩ =
          some (.ok restored, link') ∧
        ∀ ns, link.far.broker.namespaceOwner ns = some client.bus.peerId →
          link'.far.broker.namespaceOwner ns = some restored.bus.peerId) ↔
      ∀ e ∈ history, ∀ ns, e.1 ≠ .claim ns := by
  obtain ⟨⟨_, _, hopened⟩, hstart, hnone⟩ := connect_session hawaiting hconnect hothers
  have hsession := run_session hstart hrun
  have hreopened : Awaiting setting (setting.reopened link.far.broker others) := ⟨rfl, rfl, hsession.registered.reached⟩
  have hclaimed : ∀ ns, ns ∈ client.claims.map NamespaceClaim.ns ↔ ∃ e ∈ history, e.1 = .claim ns := by
    intro ns
    rw [run_claimed hrun hsuccess, hnone, List.map_nil, List.nil_append, mem_claimed, List.mem_map]
  constructor
  · rintro ⟨restored, link', hreconnect, -⟩ e he ns heq
    have hmem := (hclaimed ns).mpr ⟨e, he, heq⟩
    cases hclaims : client.claims with
    | nil =>
      rw [hclaims] at hmem
      cases hmem
    | cons claim claims =>
      have howner := (hsession.holding.owner claim.ns).mpr (by rw [hclaims]; exact List.mem_cons_self)
      exact reconnect_owned hreopened halone hsession.options hsession.repeatable hclaims howner hreconnect
  · intro hnever
    have hempty : ∀ ns, ns ∉ client.claims.map NamespaceClaim.ns := by
      intro ns hmem
      obtain ⟨e, he, heq⟩ := (hclaimed ns).mp hmem
      exact hnever e he ns heq
    have hidentity : (setting.reopened link.far.broker others).meanwhile.broker.nextPeer = link.far.broker.nextPeer :=
      halone.meanwhile.1.nextPeer
    obtain ⟨_, _, hagain⟩ := hopened.again hawaiting hreopened (by rw [hidentity]; exact hnext)
    obtain ⟨restored, link', hreconnect, -⟩ := reconnect_opened hreopened hagain halone hsession.options
      hsession.repeatable hsession.withinLimits fun ns hmem => absurd hmem (hempty ns)
    refine ⟨restored, link', hreconnect, fun ns howner => ?_⟩
    rw [hsession.peerId] at howner
    exact absurd ((hsession.holding.owner ns).mp howner) (hempty ns)

/-- The client claims a namespace, subscribes and reconnects: the namespace still belongs to its old session. -/
theorem overlap_rejected :
    (call plainSession (.claim plainNamespace)).2 = some (.ok ()) ∧
      (call afterClaim (.subscribe plainChannel [])).2 = some (.ok ()) ∧
      afterBoth.2.far.pc = .receiving (.new 1) ∧
      (afterBoth.1.reconnect Server.wire true ⟨plainSetting.reopened afterBoth.2.far.broker [], []⟩).map
          (fun r => r.1.map fun restored => restored.bus.peerId) =
        some (.error (.rejected .invalidState "namespace bus://worker is already owned by :1")) := by
  decide +kernel

def afterSubscribe : ReconnectingBus × Link (Server AllowAll) := (call plainSession (.subscribe plainChannel [])).1

theorem reconnect_overlap_iff_subscribe :
    ∃ restored link', afterSubscribe.1.reconnect Server.wire true
          ⟨plainSetting.reopened afterSubscribe.2.far.broker [], []⟩ = some (.ok restored, link') ∧
        ∀ ns, afterSubscribe.2.far.broker.namespaceOwner ns = some afterSubscribe.1.bus.peerId →
          link'.far.broker.namespaceOwner ns = some restored.bus.peerId := by
  have hsubscribe : call plainSession (.subscribe plainChannel []) = (afterSubscribe, some (.ok ())) :=
    Prod.ext rfl (by decide +kernel)
  have hconnected : Connected (.new 1) plainSession := rfl
  have hrun : RunIn call (Connected (.new 1)) plainSession ([] ++ [(.subscribe plainChannel [], some (.ok ()))])
      afterSubscribe :=
    .snoc (.nil hconnected) hsubscribe (by unfold Connected; decide +kernel)
  exact (reconnect_overlap_iff (plainSetting.awaiting_restarted []) plainSession_connect
    (fun _ hmem => (nomatch hmem)) hrun (by simp) (by unfold Alone; decide +kernel) (by decide +kernel)).mpr (by simp)

end Busd.Client
