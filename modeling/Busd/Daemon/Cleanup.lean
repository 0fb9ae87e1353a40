import Busd.Daemon.Serve
import Mathlib.Logic.Function.Basic

/-!
# Whether a session leaves nothing behind

A `serve_peer` call enters its peer into the broker, then into the session map, and takes it out of both again
when the session ends. Between the two entries it returns early if the `WELCOME` cannot be sent or the
connection cannot be cloned, and the peer stays in the broker.

* `Stage` : how far a call has got, in terms of the two maps;
* `Tidy` : both maps hold exactly the peers of the calls at the right stage;
* `Move` : what one step of a call does to its stage and to the maps;
* `session_cleanup_iff` : the runs in which every call cleans up.
-/

namespace Busd.Daemon

open Words Machine Busd.Protocol Busd.Policy Busd.Broker

/-! ## Stages -/

/-- How far a `serve_peer` call has got with the shared state. -/
inductive Stage where
  /-- no identity was assigned -/
  | outside
  /-- the peer is in the broker only -/
  | connected (id : PeerId)
  /-- the peer is in the broker and in the session map -/
  | registered (id : PeerId)
  /-- the peer had an identity, and the call is done with both maps -/
  | gone (id : PeerId)
  deriving DecidableEq

def Stage.assigned : Stage → Option PeerId
  | .outside => none
  | .connected id | .registered id | .gone id => some id

def Stage.inBroker : Stage → Option PeerId
  | .outside | .gone _ => none
  | .connected id | .registered id => some id

def Stage.inSessions : Stage → Option PeerId
  | .outside | .connected _ | .gone _ => none
  | .registered id => some id

theorem Stage.assigned_of_inBroker {stage : Stage} {id : PeerId} (h : stage.inBroker = some id) :
    stage.assigned = some id := by
  cases stage with
  | outside => cases h
  | gone _ => cases h
  | connected _ => exact h
  | registered _ => exact h

theorem Stage.inBroker_of_inSessions {stage : Stage} {id : PeerId} (h : stage.inSessions = some id) :
    stage.inBroker = some id := by
  cases stage with
  | registered _ => exact h
  | _ => cases h

def Pc.stage : Pc → Stage
  | .start | .awaitHello _ | .connecting _ _ | .rejecting _ _ | .returned none _ => .outside
  | .welcoming session => .connected session.id
  | .registering id | .disconnecting id _ => .connected id
  | .receiving id | .handling id _ | .replying id _ | .dispatching id _ | .refusing id _ _
  | .unregistering id _ => .registered id
  | .flushing id _ _ | .returned (some id) _ => .gone id

variable {P : Type} {broker broker' : Broker P} {sessions sessions' : OrdMap PeerId Connection}
  {stages : Connection → Stage} {connection : Connection} {stage' : Stage}

/-- Both maps hold exactly the peers of the calls at the right stage, and every call has its own identity. -/
structure Tidy (broker : Broker P) (sessions : OrdMap PeerId Connection) (stages : Connection → Stage) : Prop where
  fresh : ∀ c id, (stages c).assigned = some id → id.get < broker.nextPeer
  distinct : ∀ c c' id, (stages c).assigned = some id → (stages c').assigned = some id → c' = c
  peers : ∀ id, broker.peers.contains id = true ↔ ∃ c, (stages c).inBroker = some id
  sessions : ∀ id, sessions.contains id = true ↔ ∃ c, (stages c).inSessions = some id

/-! ## Moves -/

/-- What one step of a call may do to its stage and to the two maps. -/
inductive Move [Policy P] (connection : Connection) (broker : Broker P) (sessions : OrdMap PeerId Connection) :
    Stage → Broker P → OrdMap PeerId Connection → Stage → Prop
  | stays {broker' : Broker P} {stage : Stage} (h : SamePeers broker broker') :
      Move connection broker sessions stage broker' sessions stage
  | connects {credentials : Credentials} {hello : ClientHello} {capabilities : Capabilities} {nextPeer : UInt64}
      (h : broker.nextPeer < nextPeer) :
      Move connection broker sessions .outside (broker.admitPeer credentials hello capabilities nextPeer) sessions
        (.connected (.new broker.nextPeer))
  | registers (id : PeerId) :
      Move connection broker sessions (.connected id) broker (sessions.insert id connection) (.registered id)
  | unregisters (id : PeerId) :
      Move connection broker sessions (.registered id) broker (sessions.erase id) (.connected id)
  | disconnects (id : PeerId) :
      Move connection broker sessions (.connected id) (exec broker (.disconnect id)).1 sessions (.gone id)

theorem exists_update {g : Stage → Option PeerId} {id : PeerId} :
    (∃ c, g (Function.update stages connection stage' c) = some id) ↔
      g stage' = some id ∨ ∃ c, c ≠ connection ∧ g (stages c) = some id := by
  refine ⟨fun ⟨c, hc⟩ => ?_, fun h => ?_⟩
  · by_cases heq : c = connection
    · rw [heq, Function.update_self] at hc
      exact .inl hc
    · rw [Function.update_of_ne heq] at hc
      exact .inr ⟨c, heq, hc⟩
  · rcases h with h | ⟨c, hne, hc⟩
    · exact ⟨connection, by rwa [Function.update_self]⟩
    · exact ⟨c, by rwa [Function.update_of_ne hne]⟩

theorem exists_stage (stages : Connection → Stage) (connection : Connection) {g : Stage → Option PeerId}
    {id : PeerId} :
    (∃ c, g (stages c) = some id) ↔
      g (stages connection) = some id ∨ ∃ c, c ≠ connection ∧ g (stages c) = some id := by
  have h : (∃ c, g (Function.update stages connection (stages connection) c) = some id) ↔ _ := exists_update
  rwa [Function.update_eq_self] at h

theorem exists_removed {g : Stage → Option PeerId} {id id' : PeerId}
    (hother : ∀ c, c ≠ connection → g (stages c) ≠ some id) :
    (id' ≠ id ∧ (some id = some id' ∨ ∃ c, c ≠ connection ∧ g (stages c) = some id')) ↔
      none = some id' ∨ ∃ c, c ≠ connection ∧ g (stages c) = some id' := by
  refine ⟨fun ⟨hne, hmem⟩ => .inr ?_, fun hmem => ?_⟩
  · rcases hmem with heq | hmem
    · exact absurd (Option.some.inj heq).symm hne
    · exact hmem
  · rcases hmem with heq | ⟨c, hc, hmem⟩
    · cases heq
    · refine ⟨fun heq => hother c hc ?_, .inr ⟨c, hc, hmem⟩⟩
      rw [← heq, hmem]

theorem update_assigned (stages : Connection → Stage) (connection : Connection) (stage' : Stage)
    (h : stage'.assigned = (stages connection).assigned) (c : Connection) :
    (Function.update stages connection stage' c).assigned = (stages c).assigned := by
  by_cases heq : c = connection
  · rw [heq, Function.update_self, h]
  · rw [Function.update_of_ne heq]

theorem Tidy.other (h : Tidy broker sessions stages) {id : PeerId}
    (hown : (stages connection).assigned = some id) {c : Connection} (hc : c ≠ connection) :
    (stages c).assigned ≠ some id :=
  fun hother => hc (h.distinct connection c id hown hother)

/-- A call that gets the next identity keeps the identities distinct and below the next one. -/
theorem assigned_connect {nextPeer next : UInt64} (hfresh : ∀ c id, (stages c).assigned = some id → id.get < nextPeer)
    (hdistinct : ∀ c c' id, (stages c).assigned = some id → (stages c').assigned = some id → c' = c)
    (hnext : nextPeer < next) :
    (∀ c id, (Function.update stages connection (.connected (.new nextPeer)) c).assigned = some id → id.get < next) ∧
      ∀ c c' id, (Function.update stages connection (.connected (.new nextPeer)) c).assigned = some id →
        (Function.update stages connection (.connected (.new nextPeer)) c').assigned = some id → c' = c := by
  -- the new identity is above all that were assigned
  have hnew : ∀ c, (stages c).assigned ≠ some (.new nextPeer) := fun c hc => lt_irrefl _ (hfresh c _ hc)
  refine ⟨fun c id hc => ?_, fun c c' id hc hc' => ?_⟩
  · by_cases heq : c = connection
    · rw [heq, Function.update_self] at hc
      cases hc
      exact hnext
    · rw [Function.update_of_ne heq] at hc
      exact (hfresh c id hc).trans hnext
  · by_cases heq : c = connection
    · by_cases heq' : c' = connection
      · rw [heq, heq']
      · rw [heq, Function.update_self] at hc
        rw [Function.update_of_ne heq'] at hc'
        cases hc
        exact absurd hc' (hnew c')
    · rw [Function.update_of_ne heq] at hc
      by_cases heq' : c' = connection
      · rw [heq', Function.update_self] at hc'
        cases hc'
        exact absurd hc (hnew c)
      · rw [Function.update_of_ne heq'] at hc'
        exact hdistinct c c' id hc hc'

theorem Tidy.connect (h : Tidy broker sessions stages) (hstage : stages connection = .outside)
    {credentials : Credentials} {hello : ClientHello} {capabilities : Capabilities} {nextPeer : UInt64}
    (hnext : broker.nextPeer < nextPeer) :
    Tidy (broker.admitPeer credentials hello capabilities nextPeer) sessions
      (Function.update stages connection (.connected (.new broker.nextPeer))) := by
  obtain ⟨hfresh, hdistinct⟩ := assigned_connect h.fresh h.distinct hnext
  refine ⟨hfresh, hdistinct, fun id => ?_, fun id => ?_⟩
  · have hold : (∃ c, (stages c).inBroker = some id) ↔ _ := exists_stage stages connection
    rw [contains_admitPeer, h.peers, hold, exists_update, hstage]
    simp [Stage.inBroker, eq_comm]
  · have hold : (∃ c, (stages c).inSessions = some id) ↔ _ := exists_stage stages connection
    rw [h.sessions, hold, exists_update, hstage]
    simp [Stage.inSessions]

variable [Policy P]

/-- A move keeps the maps in step with the calls. -/
theorem Tidy.move (h : Tidy broker sessions stages)
    (hmove : Move connection broker sessions (stages connection) broker' sessions' stage') :
    Tidy broker' sessions' (Function.update stages connection stage') := by
  have hbroker : ∀ id, (∃ c, (stages c).inBroker = some id) ↔
      (stages connection).inBroker = some id ∨ ∃ c, c ≠ connection ∧ (stages c).inBroker = some id :=
    fun id => exists_stage stages connection
  have hsessions : ∀ id, (∃ c, (stages c).inSessions = some id) ↔
      (stages connection).inSessions = some id ∨ ∃ c, c ≠ connection ∧ (stages c).inSessions = some id :=
    fun id => exists_stage stages connection
  -- what only this call has, no other call has
  have hother : ∀ id, (stages connection).assigned = some id →
      ∀ c, c ≠ connection → (stages c).inBroker ≠ some id :=
    fun id hown c hc hc' => h.other hown hc (Stage.assigned_of_inBroker hc')
  generalize hstage : stages connection = stage at hmove
  cases hmove with
  | stays hsame =>
    rw [← hstage, Function.update_eq_self]
    exact ⟨hsame.nextPeer ▸ h.fresh, h.distinct, hsame.peers ▸ h.peers, h.sessions⟩
  | connects hnext => exact h.connect hstage hnext
  | registers id =>
    have hassigned := update_assigned stages connection (.registered id) (by rw [hstage]; rfl)
    refine ⟨?_, ?_, fun id' => ?_, fun id' => ?_⟩
    · simpa only [hassigned] using h.fresh
    · simpa only [hassigned] using h.distinct
    · rw [h.peers, hbroker, exists_update, hstage]
      rfl
    · rw [OrdMap.contains_insert, h.sessions, hsessions, exists_update, hstage]
      simp [Stage.inSessions, eq_comm]
  | unregisters id =>
    have hassigned := update_assigned stages connection (.connected id) (by rw [hstage]; rfl)
    refine ⟨?_, ?_, fun id' => ?_, fun id' => ?_⟩
    · simpa only [hassigned] using h.fresh
    · simpa only [hassigned] using h.distinct
    · rw [h.peers, hbroker, exists_update, hstage]
      rfl
    · rw [OrdMap.contains_erase, h.sessions, hsessions, exists_update, hstage]
      exact exists_removed fun c hc hc' => hother id (by rw [hstage]; rfl) c hc (Stage.inBroker_of_inSessions hc')
  | disconnects id =>
    have hassigned := update_assigned stages connection (.gone id) (by rw [hstage]; rfl)
    refine ⟨?_, ?_, fun id' => ?_, fun id' => ?_⟩
    · simpa only [hassigned, (disconnect_nextPeer broker id).1] using h.fresh
    · simpa only [hassigned] using h.distinct
    · rw [contains_disconnect, h.peers, hbroker, exists_update, hstage]
      exact exists_removed (hother id (by rw [hstage]; rfl))
    · rw [h.sessions, hsessions, exists_update, hstage]
      rfl

/-! ## Steps of a call -/

/-- The handshake goes on: the `WELCOME` encodes and is sent, the connection is cloned. -/
def GoesOn (limits : FrameLimits) (io : Io) : Pc → Prop
  | .welcoming session => io.sent = true ∧
      ∃ packet, (Frame.welcome session.id session.capabilities).encodeWithLimits limits = .ok packet
  | .registering _ => io.cloned = true
  | _ => True

theorem sendFrame_map {limits : FrameLimits} {frame : Frame} {sent : Bool} :
    ((sendFrame limits frame sent).map fun _ => ()) = .ok () ↔
      sent = true ∧ ∃ packet, frame.encodeWithLimits limits = .ok packet := by
  unfold sendFrame
  cases frame.encodeWithLimits limits with
  | error error => exact ⟨fun h => (nomatch h), fun ⟨_, _, h⟩ => (nomatch h)⟩
  | ok packet =>
    cases sent with
    | true => exact ⟨fun _ => ⟨rfl, packet, rfl⟩, fun _ => rfl⟩
    | false => exact ⟨fun h => (nomatch h), fun h => (nomatch h.1)⟩

variable {state : State P}

theorem handleFrame_stays (state : State P) (id : PeerId) (nowMs : UInt64) (frame : Frame) :
    SamePeers state.broker (handleFrame state id nowMs frame).broker ∧
      (handleFrame state id nowMs frame).sessions = state.sessions ∧
      (handleFrame state id nowMs frame).pc.stage = .registered id := by
  have hself : SamePeers state.broker state.broker := ⟨rfl, rfl, rfl⟩
  have hexec : ∀ op, (∀ credentials hello, op ≠ .connect credentials hello) → (∀ peer, op ≠ .disconnect peer) →
      SamePeers state.broker (exec state.broker op).1 :=
    fun op hconnect hdisconnect => exec_samePeers state.broker hconnect hdisconnect
  cases frame with
  | claim ns headers =>
    simp only [handleFrame]
    split_ifs with hempty
    · exact ⟨hexec (.claim id ns) (fun _ _ h => by cases h) (fun _ h => by cases h), rfl, rfl⟩
    · exact ⟨hself, rfl, rfl⟩
  | subscribe channel filters =>
    exact ⟨hexec (.subscribe id channel filters) (fun _ _ h => by cases h) (fun _ h => by cases h), rfl, rfl⟩
  | unsubscribe channel =>
    exact ⟨hexec (.unsubscribe id channel) (fun _ _ h => by cases h) (fun _ h => by cases h), rfl, rfl⟩
  | message m =>
    refine ⟨hexec (.beginDelivery id (.message m) nowMs) (fun _ _ h => by cases h) (fun _ h => by cases h), rfl, ?_⟩
    simp only [handleFrame, moved_pc]
    split
    · rfl
    · rfl
  | acknowledge messageId policy =>
    refine ⟨hexec (.acknowledge id messageId policy) (fun _ _ h => by cases h) (fun _ h => by cases h), rfl, ?_⟩
    simp only [handleFrame, moved_pc]
    split
    · rfl
    · rfl
  | _ => exact ⟨hself, rfl, rfl⟩

theorem connecting_move (state : State P) (connection : Connection) (io : Io) (credentials : Credentials)
    (hello : ClientHello) :
    Move connection state.broker state.sessions .outside
      (servePeer state connection io (.connecting credentials hello)).broker
      (servePeer state connection io (.connecting credentials hello)).sessions
      (servePeer state connection io (.connecting credentials hello)).pc.stage := by
  simp only [servePeer, moved_pc, moved_sessions]
  rcases connectSession_cases state.broker credentials hello with ⟨error, h⟩ | ⟨capabilities, nextPeer, hnext, h⟩
  · rw [h]
    exact .stays ⟨rfl, rfl, rfl⟩
  · rw [h]
    exact .connects (lt_of_checkedAdd (by decide) hnext)

/-- A step of a call that does not break off the handshake is a move. -/
theorem servePeer_move (state : State P) (connection : Connection) (io : Io) (pc : Pc)
    (hgo : GoesOn state.limits io pc) :
    Move connection state.broker state.sessions pc.stage (servePeer state connection io pc).broker
      (servePeer state connection io pc).sessions (servePeer state connection io pc).pc.stage := by
  -- most steps touch neither map
  have hstays : ∀ moved : Moved P, moved.broker = state.broker → moved.sessions = state.sessions →
      moved.pc.stage = pc.stage → Move connection state.broker state.sessions pc.stage moved.broker moved.sessions
        moved.pc.stage := by
    intro moved hbroker hsessions hstage
    rw [hbroker, hsessions, hstage]
    exact .stays ⟨rfl, rfl, rfl⟩
  cases pc with
  | start =>
    simp only [servePeer]
    cases io.credentials with
    | none => exact hstays _ rfl rfl rfl
    | some credentials => exact hstays _ rfl rfl rfl
  | awaitHello credentials =>
    simp only [servePeer]
    cases io.received with
    | packet packet =>
      refine hstays _ rfl rfl ?_
      simp only [moved_pc, firstFrame]
      split
      · rfl
      · rfl
      · rfl
    | _ => exact hstays _ rfl rfl rfl
  | connecting credentials hello => exact connecting_move state connection io credentials hello
  | rejecting code message => exact hstays _ (sends_broker ..) (sends_sessions ..) (by simp [servePeer, Pc.stage])
  | welcoming session =>
    refine hstays _ (sends_broker ..) (sends_sessions ..) ?_
    simp only [servePeer, sends_pc, sendFrame_map.mpr hgo]
    rfl
  | registering id =>
    have hcloned : io.cloned = true := hgo
    simp only [servePeer, hcloned, if_true]
    exact .registers id
  | receiving id =>
    refine hstays _ rfl rfl ?_
    simp only [servePeer, moved_pc]
    cases io.received with
    | packet packet =>
      simp only [nextFrame]
      split
      · rfl
      · rfl
    | _ => rfl
  | handling id frame =>
    obtain ⟨hsame, hsessions, hstage⟩ := handleFrame_stays state id io.nowMs frame
    simp only [servePeer]
    rw [hsessions, hstage]
    exact .stays hsame
  | replying id frame =>
    refine hstays _ (sends_broker ..) (sends_sessions ..) ?_
    simp only [servePeer, sends_pc]
    split
    · rfl
    · rfl
  | dispatching id events =>
    cases events with
    | nil => exact hstays _ rfl rfl rfl
    | cons event events =>
      refine hstays _ rfl rfl ?_
      simp only [servePeer, dispatches_pc]
      split
      · rfl
      · rfl
  | refusing id code message => exact hstays _ (sends_broker ..) (sends_sessions ..) (by simp [servePeer, Pc.stage])
  | unregistering id result => exact .unregisters id
  | disconnecting id result =>
    have hstage : (servePeer state connection io (.disconnecting id result)).pc.stage = .gone id := by
      simp only [servePeer, moved_pc]
      split
      · rfl
      · rfl
    rw [hstage]
    exact .disconnects id
  | flushing id events result =>
    cases events with
    | nil => exact hstays _ rfl rfl rfl
    | cons event events =>
      refine hstays _ rfl rfl ?_
      simp only [servePeer, dispatches_pc]
      split
      · rfl
      · rfl
  | returned assigned result => exact hstays _ rfl rfl rfl

/-- A call that breaks off the handshake returns with its peer in the broker. -/
theorem servePeer_abandons (connection : Connection) {io : Io} {pc : Pc} (hstop : ¬ GoesOn state.limits io pc) :
    ∃ id failure, pc.stage = .connected id ∧
      (servePeer state connection io pc).broker = state.broker ∧
      (servePeer state connection io pc).pc = .returned (some id) (.error failure) := by
  cases pc with
  | welcoming session =>
    have hfailed := mt sendFrame_map.mp hstop
    cases hsend : (sendFrame state.limits (.welcome session.id session.capabilities) io.sent).map fun _ => () with
    | ok done => exact absurd hsend hfailed
    | error failure =>
      refine ⟨session.id, failure, rfl, sends_broker .., ?_⟩
      simp only [servePeer, sends_pc, hsend]
  | registering id =>
    have hcloned : ¬ io.cloned = true := hstop
    have hmoved : servePeer state connection io (.registering id) =
        state.moved (.returned (some id) (.error .io)) := by
      simp only [servePeer, if_neg hcloned]
    rw [hmoved]
    exact ⟨id, .io, rfl, rfl, rfl⟩
  | _ => exact absurd trivial hstop

/-! ## Whole runs -/

/-- The stages of all calls; a connection that was not accepted has none. -/
def State.stageOf (state : State P) (connection : Connection) : Stage :=
  (state.threads[connection]?).elim .outside Pc.stage

/-- No call of this turn breaks off its handshake. -/
def HandshakeGoesOn (state : State P) (turn : Turn) : Prop :=
  ∀ (connection : Connection) io pc, turn = .serve connection io → state.threads[connection]? = some pc →
    GoesOn state.limits io pc

/-- A call that has returned has left neither map with its peer, and every peer in the broker belongs to a call
that has not returned. -/
structure Clean (state : State P) : Prop where
  returned : ∀ (connection : Connection) id result,
    state.threads[connection]? = some (.returned (some id) result) →
      state.broker.peers.contains id = false ∧ state.sessions.contains id = false
  running : ∀ id, state.broker.peers.contains id = true →
    ∃ (connection : Connection) (pc : Pc), state.threads[connection]? = some pc ∧ pc.stage.assigned = some id ∧
      ∀ assigned result, pc ≠ .returned assigned result

omit [Policy P] in
theorem stageOf_eq {pc : Pc} (h : state.threads[connection]? = some pc) : state.stageOf connection = pc.stage := by
  unfold State.stageOf
  rw [h]
  rfl

theorem stageOf_serve {io : Io} {pc : Pc} (h : state.threads[connection]? = some pc) :
    (step state (.serve connection io)).1.stageOf =
      Function.update state.stageOf connection (servePeer state connection io pc).pc.stage := by
  obtain ⟨hlt, -⟩ := List.getElem?_eq_some_iff.mp h
  funext c
  simp only [step, h, State.stageOf]
  by_cases heq : c = connection
  · rw [heq, Function.update_self, List.getElem?_set_self hlt]
    rfl
  · rw [Function.update_of_ne heq, List.getElem?_set_ne (Ne.symm heq)]
    rfl

theorem stageOf_accept (state : State P) : (step state .accept).1.stageOf = state.stageOf := by
  funext c
  simp only [step, State.stageOf]
  rcases lt_trichotomy c state.threads.length with hlt | heq | hgt
  · rw [List.getElem?_append_left hlt]
  · rw [heq, List.getElem?_concat_length, List.getElem?_eq_none (le_refl _)]
    rfl
  · rw [List.getElem?_eq_none (by simpa using Nat.succ_le_of_lt hgt), List.getElem?_eq_none hgt.le]

/-- One step keeps the maps in step with the calls, unless a handshake is broken off. -/
theorem step_tidy (h : Tidy state.broker state.sessions state.stageOf) {turn : Turn}
    (hgo : HandshakeGoesOn state turn) :
    Tidy (step state turn).1.broker (step state turn).1.sessions (step state turn).1.stageOf := by
  cases turn with
  | accept =>
    rw [stageOf_accept]
    exact h
  | serve connection io =>
    cases hpc : state.threads[connection]? with
    | none =>
      simp only [step, hpc]
      exact h
    | some pc =>
      rw [stageOf_serve hpc]
      have hmove := servePeer_move state connection io pc (hgo connection io pc rfl hpc)
      rw [← stageOf_eq hpc] at hmove
      simp only [step, hpc]
      exact h.move hmove
  | tick nowMs =>
    simp only [step]
    split_ifs with hidle
    · have hsame := (tick_sameRegistry state.broker nowMs).samePeers
      exact ⟨hsame.nextPeer ▸ h.fresh, h.distinct, hsame.peers ▸ h.peers, h.sessions⟩
    · exact h
  | dispatch io =>
    simp only [step]
    cases state.scheduler with
    | nil => exact h
    | cons event events => exact h

omit [Policy P] in
theorem clean_of_tidy (h : Tidy state.broker state.sessions state.stageOf) : Clean state := by
  refine ⟨fun connection id result hpc => ?_, fun id hid => ?_⟩
  · have hstage : state.stageOf connection = .gone id := stageOf_eq hpc
    have hnone : ∀ c, (state.stageOf c).inBroker ≠ some id := by
      intro c hc
      have hcalls := h.distinct connection c id (by rw [hstage]; rfl) (Stage.assigned_of_inBroker hc)
      rw [hcalls, hstage] at hc
      cases hc
    refine ⟨Bool.eq_false_iff.mpr fun hid => ?_, Bool.eq_false_iff.mpr fun hid => ?_⟩
    · obtain ⟨c, hc⟩ := (h.peers id).mp hid
      exact hnone c hc
    · obtain ⟨c, hc⟩ := (h.sessions id).mp hid
      exact hnone c (Stage.inBroker_of_inSessions hc)
  · obtain ⟨c, hc⟩ := (h.peers id).mp hid
    cases hpc : state.threads[c]? with
    | none =>
      unfold State.stageOf at hc
      rw [hpc] at hc
      cases hc
    | some pc =>
      rw [stageOf_eq hpc] at hc
      refine ⟨c, pc, hpc, Stage.assigned_of_inBroker hc, fun assigned result heq => ?_⟩
      subst heq
      cases assigned with
      | none => cases hc
      | some _ => cases hc

/-- A handshake that is broken off leaves a peer in the broker. -/
theorem handshakeGoesOn_of_clean (h : Tidy state.broker state.sessions state.stageOf) {turn : Turn}
    (hclean : Clean (step state turn).1) : HandshakeGoesOn state turn := by
  intro connection io pc hturn hpc
  subst hturn
  by_contra hstop
  obtain ⟨id, failure, hstage, hbroker, hreturned⟩ := servePeer_abandons connection hstop
  have hpeer : state.broker.peers.contains id = true := by
    refine (h.peers id).mpr ⟨connection, ?_⟩
    rw [stageOf_eq hpc, hstage]
    rfl
  obtain ⟨hlt, -⟩ := List.getElem?_eq_some_iff.mp hpc
  have hgone := (hclean.returned connection id (.error failure) (by
    simp only [step, hpc]
    rw [List.getElem?_set_self hlt, hreturned])).1
  simp only [step, hpc, hbroker, hpeer] at hgone
  cases hgone

/-- In a run of the daemon, a call that returns has always taken its peer out of both maps, and every peer in the
broker belongs to a running call, exactly when no call breaks off its handshake. -/
theorem session_cleanup_iff {policy : P} {limits : Limits} {capabilities : Capabilities} {frameLimits : FrameLimits}
    {turns : List (Turn × Output)}
    (hrun : Run step (State.initial (Broker.empty policy limits capabilities) frameLimits) turns state) :
    Every step (State.initial (Broker.empty policy limits capabilities) frameLimits)
        (fun s turn => Clean (step s turn).1) turns ↔
      Every step (State.initial (Broker.empty policy limits capabilities) frameLimits) HandshakeGoesOn turns := by
  have hstart : Tidy (State.initial (Broker.empty policy limits capabilities) frameLimits).broker
      (State.initial (Broker.empty policy limits capabilities) frameLimits).sessions
      (State.initial (Broker.empty policy limits capabilities) frameLimits).stageOf := by
    refine ⟨fun _ _ h => ?_, fun _ _ _ h => ?_, fun id => ⟨fun h => ?_, fun ⟨_, h⟩ => ?_⟩,
      fun id => ⟨fun h => ?_, fun ⟨_, h⟩ => ?_⟩⟩
    all_goals cases h
  refine (hrun.every_iff (I := fun s => Tidy s.broker s.sessions s.stageOf) ?_ ?_ hstart).1
  · exact fun s turn hI => ⟨handshakeGoesOn_of_clean hI, fun hgo => clean_of_tidy (step_tidy hI hgo)⟩
  · exact fun s turn hI hclean => step_tidy hI (handshakeGoesOn_of_clean hI hclean)

/-! ## A client that is gone before its `WELCOME` -/

/-- A fresh daemon that allows everything. -/
def openDaemon : State AllowAll := State.initial (Broker.empty .mk .default ∅) .default

/-- The `WELCOME` of the first client cannot be sent. -/
def lostWelcome : List (Turn × Output) × State AllowAll :=
  run step openDaemon [.accept, .serve 0 calmIo, arrives 0 (.hello none ∅ ∅), .serve 0 calmIo,
    .serve 0 { calmIo with sent := false }]

/-- Its call returns, and its peer stays in the broker. -/
theorem lostWelcome_leaks :
    Run step openDaemon lostWelcome.1 lostWelcome.2 ∧
      lostWelcome.2.threads = [.returned (some (.new 1)) (.error .io)] ∧
      lostWelcome.2.broker.peers.contains (.new 1) = true :=
  ⟨run_spec _ _, by decide +kernel, by decide +kernel⟩

/-- A client that joins and leaves again. -/
def wholeSession : List Turn :=
  .accept :: joins 0 ++ [.serve 0 calmIo, .serve 0 calmIo, .serve 0 calmIo, .serve 0 calmIo]

/-- Its call cleans up. -/
theorem session_cleanup_iff_wholeSession :
    (run step openDaemon wholeSession).2.threads = [.returned (some (.new 1)) (.ok ())] ∧
      Every step openDaemon (fun s turn => Clean (step s turn).1) (run step openDaemon wholeSession).1 := by
  refine ⟨by decide +kernel, (session_cleanup_iff (run_spec _ _)).mpr ?_⟩
  have hserve : ∀ (s : State AllowAll) (io : Io) (pc : Pc), s.threads[0]? = some pc → GoesOn s.limits io pc →
      HandshakeGoesOn s (.serve 0 io) := by
    intro s io pc hpc hgo connection io' pc' hturn hpc'
    cases hturn
    cases hpc.symm.trans hpc'
    exact hgo
  have hwelcome : GoesOn .default calmIo (.welcoming ⟨.new 1, ∅⟩) :=
    ⟨rfl, packetOf (.welcome (.new 1) ∅), by decide +kernel⟩
  refine every_run_cons (fun _ _ _ h => by cases h) ?_
  refine every_run_cons (hserve _ _ .start (by decide +kernel) trivial) ?_
  refine every_run_cons (hserve _ _ (.awaitHello .default) (by decide +kernel) trivial) ?_
  refine every_run_cons (hserve _ _ (.connecting .default plainHello) (by decide +kernel) trivial) ?_
  refine every_run_cons (hserve _ _ (.welcoming ⟨.new 1, ∅⟩) (by decide +kernel) hwelcome) ?_
  refine every_run_cons (hserve _ _ (.registering (.new 1)) (by decide +kernel) rfl) ?_
  refine every_run_cons (hserve _ _ (.receiving (.new 1)) (by decide +kernel) trivial) ?_
  refine every_run_cons (hserve _ _ (.unregistering (.new 1) (.ok ())) (by decide +kernel) trivial) ?_
  refine every_run_cons (hserve _ _ (.disconnecting (.new 1) (.ok ())) (by decide +kernel) trivial) ?_
  exact every_run_cons (hserve _ _ (.flushing (.new 1) [] (.ok ())) (by decide +kernel) trivial) (every_nil _)

end Busd.Daemon
