import Busd.Daemon.Cleanup
import Busd.Daemon.Isolation

/-!
# The handshake window

A peer is in the broker from `connect_session` on, and in the session map only after its `WELCOME` was sent. A message
that selects it in between is dispatched to nobody.

* `Listed` : the session map holds the connections of the calls that have registered, in every run;
* `Lossless` : a turn sends the message it dispatches to every recipient in a session, and drops none for them; which
  failures of a recipient's own connection excuse the daemon is a parameter;
* `handshake_window_iff` : the runs whose turns are all lossless, whatever the excuses.
-/

namespace Busd.Daemon

open Words Machine Busd.Protocol Busd.Policy Busd.Broker

variable {P : Type} {state : State P} {connection : Connection} {nextPeer : UInt64}
  {sessions sessions' : OrdMap PeerId Connection} {stages : Connection → Stage} {stage' : Stage}

/-! ## The session map -/

/-- The session map holds the connections of the registered calls, and every call has its own identity. -/
structure Listed (nextPeer : UInt64) (sessions : OrdMap PeerId Connection) (stages : Connection → Stage) : Prop where
  fresh : ∀ c id, (stages c).assigned = some id → id.get < nextPeer
  distinct : ∀ c c' id, (stages c).assigned = some id → (stages c').assigned = some id → c' = c
  sessions : ∀ id c, sessions.get? id = some c ↔ stages c = .registered id

theorem Listed.unlisted (h : Listed nextPeer sessions stages)
    (hassigned : stage'.assigned = (stages connection).assigned)
    (hbefore : ∀ id, stages connection ≠ .registered id) (hafter : ∀ id, stage' ≠ .registered id) :
    Listed nextPeer sessions (Function.update stages connection stage') := by
  have hsame := update_assigned stages connection stage' hassigned
  refine ⟨?_, ?_, fun id c => ?_⟩
  · simpa only [hsame] using h.fresh
  · simpa only [hsame] using h.distinct
  · rw [h.sessions]
    by_cases heq : c = connection
    · rw [heq, Function.update_self]
      exact ⟨fun hc => absurd hc (hbefore id), fun hc => absurd hc (hafter id)⟩
    · rw [Function.update_of_ne heq]

theorem Listed.connect (h : Listed nextPeer sessions stages) (hstage : stages connection = .outside)
    {next : UInt64} (hnext : nextPeer < next) :
    Listed next sessions (Function.update stages connection (.connected (.new nextPeer))) := by
  obtain ⟨hfresh, hdistinct⟩ := assigned_connect h.fresh h.distinct hnext
  refine ⟨hfresh, hdistinct, fun id c => ?_⟩
  rw [h.sessions]
  by_cases heq : c = connection
  · rw [heq, Function.update_self, hstage]
    exact ⟨fun hc => (nomatch hc), fun hc => (nomatch hc)⟩
  · rw [Function.update_of_ne heq]

theorem Listed.register (h : Listed nextPeer sessions stages) {id : PeerId} (hstage : stages connection = .connected id) :
    Listed nextPeer (sessions.insert id connection) (Function.update stages connection (.registered id)) := by
  have hsame := update_assigned stages connection (.registered id) (by rw [hstage]; rfl)
  refine ⟨by simpa only [hsame] using h.fresh, by simpa only [hsame] using h.distinct, fun id' c => ?_⟩
  rw [OrdMap.get?_insert]
  by_cases heq : c = connection
  · rw [heq, Function.update_self, Stage.registered.injEq]
    split_ifs with hid
    · simp [hid]
    · rw [h.sessions, hstage]
      exact ⟨fun hc => (nomatch hc), fun hc => absurd hc.symm hid⟩
  · rw [Function.update_of_ne heq]
    split_ifs with hid
    · refine ⟨fun hc => absurd (Option.some.inj hc).symm heq, fun hc => absurd ?_ heq⟩
      -- nobody else has this identity
      exact h.distinct connection c id (by rw [hstage]; rfl) (by rw [hc, hid]; rfl)
    · exact h.sessions id' c

theorem Listed.unregister (h : Listed nextPeer sessions stages) {id : PeerId}
    (hstage : stages connection = .registered id) :
    Listed nextPeer (sessions.erase id) (Function.update stages connection (.connected id)) := by
  have hsame := update_assigned stages connection (.connected id) (by rw [hstage]; rfl)
  refine ⟨by simpa only [hsame] using h.fresh, by simpa only [hsame] using h.distinct, fun id' c => ?_⟩
  rw [OrdMap.get?_erase]
  by_cases heq : c = connection
  · rw [heq, Function.update_self]
    split_ifs with hid
    · exact ⟨fun hc => (nomatch hc), fun hc => (nomatch hc)⟩
    · rw [h.sessions, hstage, Stage.registered.injEq]
      exact ⟨fun hc => absurd hc.symm hid, fun hc => (nomatch hc)⟩
  · rw [Function.update_of_ne heq]
    split_ifs with hid
    · refine ⟨fun hc => (nomatch hc), fun hc => absurd ?_ heq⟩
      exact h.distinct connection c id (by rw [hstage]; rfl) (by rw [hc, hid]; rfl)
    · exact h.sessions id' c

def State.Listed (state : State P) : Prop :=
  Daemon.Listed state.broker.nextPeer state.sessions state.stageOf

section Steps

variable [Policy P]

theorem Listed.move {broker broker' : Broker P} (h : Listed broker.nextPeer sessions stages)
    (hmove : Move connection broker sessions (stages connection) broker' sessions' stage') :
    Listed broker'.nextPeer sessions' (Function.update stages connection stage') := by
  generalize hstage : stages connection = stage at hmove
  cases hmove with
  | stays hsame =>
    rw [← hstage, Function.update_eq_self, hsame.nextPeer]
    exact h
  | connects hnext => exact h.connect hstage hnext
  | registers id => exact h.register hstage
  | unregisters id => exact h.unregister hstage
  | disconnects id =>
    rw [(disconnect_nextPeer broker id).1]
    refine h.unlisted (by rw [hstage]; rfl) (fun id' hid => ?_) fun id' hid => (nomatch hid)
    rw [hstage] at hid
    cases hid

theorem servePeer_abandons_sessions (connection : Connection) {io : Io} {pc : Pc}
    (hstop : ¬ GoesOn state.limits io pc) : (servePeer state connection io pc).sessions = state.sessions := by
  cases pc with
  | welcoming session => exact sends_sessions ..
  | registering id =>
    have hcloned : ¬ io.cloned = true := hstop
    simp only [servePeer, if_neg hcloned, moved_sessions]
  | _ => exact absurd trivial hstop

theorem step_listed (state : State P) (turn : Turn) (h : state.Listed) : (step state turn).1.Listed := by
  cases turn with
  | accept =>
    unfold State.Listed
    rw [stageOf_accept]
    exact h
  | serve connection io =>
    cases hpc : state.threads[connection]? with
    | none =>
      simp only [step, hpc]
      exact h
    | some pc =>
      unfold State.Listed
      rw [stageOf_serve hpc]
      simp only [step, hpc]
      by_cases hgo : GoesOn state.limits io pc
      · have hmove := servePeer_move state connection io pc hgo
        rw [← stageOf_eq hpc] at hmove
        exact Listed.move h hmove
      · -- a call that breaks off its handshake has not registered
        obtain ⟨id, failure, hstage, hbroker, hreturned⟩ := servePeer_abandons connection hgo
        rw [hbroker, hreturned, servePeer_abandons_sessions connection hgo]
        have hbefore : state.stageOf connection = .connected id := by rw [stageOf_eq hpc, hstage]
        refine Daemon.Listed.unlisted h (by rw [hbefore]; rfl) (fun id' hid => ?_) fun id' hid => ?_
        · rw [hbefore] at hid
          cases hid
        · cases hid
  | tick nowMs =>
    simp only [step]
    split_ifs with hidle
    · unfold State.Listed
      rw [(tick_sameRegistry state.broker nowMs).nextPeer]
      exact h
    · exact h
  | dispatch io =>
    simp only [step]
    cases state.scheduler with
    | nil => exact h
    | cons event events => exact h

end Steps

theorem initial_listed (broker : Broker P) (limits : FrameLimits) : (State.initial broker limits).Listed := by
  refine ⟨fun _ _ h => ?_, fun _ _ _ h => ?_, fun id c => ⟨fun h => ?_, fun h => ?_⟩⟩
  all_goals cases h

/-! ## Sessions -/

/-- The peer of a call whose session has begun and is not being ended. -/
def Pc.session : Pc → Option PeerId
  | .welcoming session => some session.id
  | .registering id | .receiving id | .handling id _ | .replying id _ | .dispatching id _ => some id
  | _ => none

/-- The call is between `connect_session` and the insertion into the session map. -/
def Pc.inWindow : Pc → Bool
  | .welcoming _ | .registering _ => true
  | _ => false

/-- The session of the peer goes on, on this connection. -/
def Live (state : State P) (id : PeerId) (connection : Connection) : Prop :=
  ∃ pc, state.threads[connection]? = some pc ∧ pc.session = some id

/-- The same, past the handshake window. -/
def PastWindow (state : State P) (id : PeerId) (connection : Connection) : Prop :=
  ∃ pc, state.threads[connection]? = some pc ∧ pc.session = some id ∧ pc.inWindow = false

theorem Pc.stage_of_session {pc : Pc} {id : PeerId} (h : pc.session = some id) :
    pc.stage = if pc.inWindow then .connected id else .registered id := by
  cases pc with
  | welcoming session =>
    cases h
    rfl
  | registering _ =>
    cases h
    rfl
  | receiving _ =>
    cases h
    rfl
  | handling _ _ =>
    cases h
    rfl
  | replying _ _ =>
    cases h
    rfl
  | dispatching _ _ =>
    cases h
    rfl
  | _ => cases h

/-- Of the sessions that go on, the session map holds those past the window. -/
theorem State.Listed.pastWindow_iff (h : state.Listed) {id : PeerId} (hlive : Live state id connection) :
    PastWindow state id connection ↔ state.sessions.get? id = some connection := by
  obtain ⟨pc, hpc, hsession⟩ := hlive
  have hstage := stageOf_eq hpc
  rw [Pc.stage_of_session hsession] at hstage
  rw [h.sessions, hstage]
  refine ⟨fun ⟨pc', hpc', _, hpast⟩ => ?_, fun hregistered => ⟨pc, hpc, hsession, ?_⟩⟩
  · cases hpc.symm.trans hpc'
    rw [hpast]
    rfl
  · cases hwindow : pc.inWindow with
    | false => rfl
    | true =>
      rw [hwindow] at hregistered
      cases hregistered

/-- The session map knows a connection under the peer whose session it carries. -/
theorem State.Listed.eq_of_live (h : state.Listed) {id id' : PeerId} (hlive : Live state id connection)
    (hget : state.sessions.get? id' = some connection) : id' = id := by
  obtain ⟨pc, hpc, hsession⟩ := hlive
  have hregistered := (h.sessions id' connection).mp hget
  rw [stageOf_eq hpc, Pc.stage_of_session hsession] at hregistered
  cases hwindow : pc.inWindow with
  | true =>
    rw [hwindow] at hregistered
    cases hregistered
  | false =>
    rw [hwindow] at hregistered
    exact (Stage.registered.inj hregistered).symm

/-! ## One turn -/

variable [Policy P]

/-- The message that the turn dispatches is sent on the connection of every recipient whose session goes on and that
is not excused by its own connection, and no message for a session that goes on is dropped. -/
def Lossless (counts : DispatchIo → PeerId → Prop) (state : State P) (turn : Turn) : Prop :=
  ∀ d, state.next turn = some d →
    (∀ sender recipients frame, d.event = .deliver sender recipients frame →
      ∀ id ∈ recipients, ∀ connection, Live state id connection → counts d.io id →
        ∃ packet, (dispatched d.event).2.encodeWithLimits state.limits = .ok packet ∧
          (connection, packet) ∈ (step state turn).2.packets) ∧
    ∀ sender recipients frame, .deliver sender recipients frame ∈ state.dropped d →
      ∀ id ∈ recipients, ∀ connection, ¬ Live state id connection

/-- No recipient of the message that the turn dispatches is in the handshake window; its connection can be cloned and
takes the packet, the message encodes and no other recipient is in the way; and if the dispatch fails, no message is
waiting for a session that goes on. -/
def Undisturbed (counts : DispatchIo → PeerId → Prop) (state : State P) (turn : Turn) : Prop :=
  ∀ d, state.next turn = some d →
    (∀ sender recipients frame, d.event = .deliver sender recipients frame →
      ∀ id ∈ recipients, ∀ connection, Live state id connection → counts d.io id →
        PastWindow state id connection ∧ reachable d.io id = true ∧
          (∃ packet, (dispatched d.event).2.encodeWithLimits state.limits = .ok packet) ∧
          ¬ Blocked state.sessions d.event d.io id) ∧
    (Fails state.sessions state.limits d.event d.io →
      ∀ sender recipients frame, .deliver sender recipients frame ∈ d.rest →
        ∀ id ∈ recipients, ∀ connection, ¬ Live state id connection)

theorem step_packets {turn : Turn} {d : Dispatch} (h : state.next turn = some d) :
    (step state turn).2.packets = (dispatchEvent state.sessions state.limits d.event d.io).1 := by
  cases turn with
  | accept => cases h
  | tick nowMs => cases h
  | serve connection io =>
    obtain ⟨pc, hpc, hnext⟩ := Option.bind_eq_some_iff.mp h
    simp only [step, hpc]
    cases pc with
    | dispatching id events =>
      cases events with
      | nil => cases hnext
      | cons event rest =>
        cases hnext
        rfl
    | flushing id events result =>
      cases events with
      | nil => cases hnext
      | cons event rest =>
        cases hnext
        rfl
    | _ => cases hnext
  | dispatch io =>
    simp only [step, State.next] at h ⊢
    cases hscheduler : state.scheduler with
    | nil =>
      rw [hscheduler] at h
      cases h
    | cons event rest =>
      rw [hscheduler] at h
      cases h
      rfl

theorem dispatched_recipients (sender : PeerId) (recipients : List PeerId) (frame : Frame) :
    (dispatched (.deliver sender recipients frame)).1 = recipients := by
  cases frame with
  | _ => rfl

omit [Policy P] in
theorem mem_dropped {d : Dispatch} {event : DeliveryEvent} :
    event ∈ state.dropped d ↔ Fails state.sessions state.limits d.event d.io ∧ event ∈ d.rest := by
  unfold State.dropped
  cases hround : (dispatchEvent state.sessions state.limits d.event d.io).2 with
  | ok => exact ⟨fun h => absurd h List.not_mem_nil, fun h => absurd h.1 (dispatchEvent_ok_iff.mp hround)⟩
  | error failure =>
    refine ⟨fun h => ⟨?_, h⟩, And.right⟩
    by_contra hfails
    rw [dispatchEvent_ok_iff.mpr hfails] at hround
    cases hround

/-- A turn is lossless exactly if nobody it sends to is in the window and nothing else is in the way. -/
theorem lossless_iff (counts : DispatchIo → PeerId → Prop) (hlisted : state.Listed) (turn : Turn) :
    Lossless counts state turn ↔ Undisturbed counts state turn := by
  unfold Lossless Undisturbed
  refine forall₂_congr fun d hnext => and_congr ?_ ?_
  · refine forall₄_congr fun sender recipients frame hevent => forall₂_congr fun id hid =>
      forall₃_congr fun c hlive _ => ?_
    have hrecipient : id ∈ (dispatched d.event).1 := by
      rw [hevent, dispatched_recipients]
      exact hid
    rw [step_packets hnext, hlisted.pastWindow_iff hlive]
    refine ⟨fun ⟨packet, hencode, hmem⟩ => ?_, fun ⟨hget, hreach, ⟨packet, hencode⟩, hclear⟩ => ⟨packet, hencode, ?_⟩⟩
    · obtain ⟨-, id', hget, hdue, hclear⟩ := mem_dispatchEvent.mp hmem
      have heq := hlisted.eq_of_live hlive hget
      rw [heq] at hget hdue hclear
      exact ⟨hget, hdue.reachable, ⟨packet, hencode⟩, hclear⟩
    · have hdue : Due state.sessions state.limits d.event d.io id :=
        ⟨⟨packet, hencode⟩, hrecipient, OrdMap.contains_iff.mpr ⟨c, hget⟩, hreach⟩
      exact mem_dispatchEvent.mpr ⟨hencode, id, hget, hdue, hclear⟩
  · simp only [mem_dropped]
    exact ⟨fun h hfails sender recipients frame hmem => h sender recipients frame ⟨hfails, hmem⟩,
      fun h sender recipients frame hmem => h hmem.1 sender recipients frame hmem.2⟩

/-! ## Whole runs -/

/-- In a run of the daemon every message is sent to every recipient whose session goes on, exactly when none is
dispatched while such a recipient is in the handshake window and none is held up by the failure of another delivery.
This is so whichever failures of the recipient's own connection are excused, be it none at all. Every event that the
broker returns is dispatched once, dropped once or still on its way. -/
theorem handshake_window_iff {policy : P} {limits : Limits} {capabilities : Capabilities} {frameLimits : FrameLimits}
    {turns : List (Turn × Output)}
    (hrun : Run step (State.initial (Broker.empty policy limits capabilities) frameLimits) turns state) :
    (∀ counts,
      (Every step (State.initial (Broker.empty policy limits capabilities) frameLimits) (Lossless counts) turns ↔
        Every step (State.initial (Broker.empty policy limits capabilities) frameLimits)
          (Undisturbed counts) turns)) ∧
    ∀ turn, ((step state turn).1.undispatched ++ state.leaving (state.next turn)).Perm
      (state.undispatched ++ returned (step state turn).2.call) := by
  refine ⟨fun counts => (hrun.every_iff (I := State.Listed) (Q := Lossless counts) (R := Undisturbed counts)
    ?_ ?_ ?_).1, step_conserves state⟩
  · exact fun s turn hlisted => lossless_iff counts hlisted turn
  · exact fun s turn hlisted _ => step_listed s turn hlisted
  · exact initial_listed _ _

/-! ## A message that nobody gets -/

/-- The first client is in its session, the second one in the handshake window, when the first one submits a message
to everybody else. -/
def untilMissed : List Turn :=
  [.accept, .accept] ++ joins 0 ++
    [.serve 1 calmIo, arrives 1 (.hello none ∅ ∅), .serve 1 calmIo] ++ submits 0 (.message smallRequest)

/-- The message is dispatched, and the second client goes on with its handshake. -/
def missedMessage : List (Turn × Output) × State AllowAll :=
  run step openDaemon (untilMissed ++ [.serve 0 calmIo, .serve 1 calmIo, .serve 1 calmIo])

/-- The second client is selected and its session goes on, but all that is ever sent are the two `WELCOME`s. -/
theorem missedMessage_lost :
    Run step openDaemon missedMessage.1 missedMessage.2 ∧
      (∃ call ∈ calls missedMessage.1, .deliver (.new 1) [.new 2] (.message smallRequest) ∈ call.2.events) ∧
      missedMessage.2.undispatched = [] ∧ missedMessage.2.threads[1]? = some (.receiving (.new 2)) ∧
      (missedMessage.1.flatMap fun e => e.2.packets) =
        [(0, packetOf (.welcome (.new 1) ∅)), (1, packetOf (.welcome (.new 2) ∅))] ∧
      ¬ Every step openDaemon (Lossless fun io id => reachable io id = true) missedMessage.1 := by
  refine ⟨run_spec _ _, by decide +kernel, by decide +kernel, by decide +kernel, by decide +kernel, fun hall => ?_⟩
  have hthreads : (run step openDaemon untilMissed).2.threads =
      [.dispatching (.new 1) [.deliver (.new 1) [.new 2] (.message smallRequest)], .welcoming ⟨.new 2, ∅⟩] := by
    decide +kernel
  have hcut : missedMessage.1 = (run step openDaemon untilMissed).1 ++ _ := congrArg Prod.fst (run_append _ _ _)
  have hlossless := hall _ _ _ _ _ hcut (run_spec _ _)
  obtain ⟨packet, -, hsent⟩ := (hlossless ⟨_, [], calmIo.dispatch⟩ (by simp only [State.next, hthreads]; rfl)).1
    _ _ _ rfl (.new 2) (List.mem_singleton_self _) 1 ⟨_, by rw [hthreads]; rfl, rfl⟩ rfl
  have hnothing : (step (run step openDaemon untilMissed).2 (.serve 0 calmIo)).2.packets = [] := by decide +kernel
  rw [hnothing] at hsent
  cases hsent

def selfRequest : Message := plainRequest (numberedId 1) .none .none .exact (.peer (.new 1))

def selfTurns : List Turn := .accept :: joins 0 ++ submits 0 (.message selfRequest)

omit [Policy P] in
theorem undisturbed_of_idle {counts : DispatchIo → PeerId → Prop} {turn : Turn} (h : state.next turn = none) :
    Undisturbed counts state turn := by
  intro d hd
  rw [h] at hd
  cases hd

/-- A message that a client in its session sends to itself is sent back to it; no failure is excused. -/
theorem handshake_window_iff_self :
    Every step openDaemon (Lossless fun _ _ => True) (run step openDaemon (selfTurns ++ [.serve 0 calmIo])).1 := by
  refine ((handshake_window_iff (run_spec _ _)).1 _).mpr ?_
  have hlast : Undisturbed (fun _ _ => True) (run step openDaemon selfTurns).2 (.serve 0 calmIo) := by
    have hthreads : (run step openDaemon selfTurns).2.threads =
        [.dispatching (.new 1) [.deliver (.new 1) [.new 1] (.message selfRequest)]] := by decide +kernel
    intro d hd
    simp only [State.next, hthreads] at hd
    cases hd
    refine ⟨fun sender recipients frame hevent id hid c hlive _ => ⟨?_, rfl, ?_, ?_⟩, fun _ _ _ _ hmem => by cases hmem⟩
    · obtain ⟨pc, hpc, hsession⟩ := hlive
      refine ⟨pc, hpc, hsession, ?_⟩
      rw [hthreads] at hpc
      rw [List.mem_singleton.mp (List.mem_of_getElem? hpc)]
      rfl
    · exact ⟨packetOf (.message (stamped (.new 1) selfRequest)), by decide +kernel⟩
    · rintro ⟨other, -, -, hbad | ⟨-, hbad⟩⟩
      · cases hbad
      · cases hbad
  -- nothing is dispatched before the last turn
  iterate 8 refine every_run_cons (undisturbed_of_idle (by decide +kernel)) ?_
  exact every_run_cons hlast (every_nil _)

end Busd.Daemon
