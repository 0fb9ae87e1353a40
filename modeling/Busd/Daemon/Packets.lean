import Busd.Daemon.Sessions

/-!
# Where the packets go, and in which order

A connection is written to by its own thread, which answers its frames, and by every thread that dispatches an event
for its peer.

* `isReply` : the frames that a thread answers with;
* `packets_destined` : a packet is a reply to the connection that is served, or an event that the broker returned, on
  the connection of one of its recipients;
* `obtained`, `handedOver`, `waitingOf` : the events of one thread, as it gets them from the broker, as it hands them
  over, and as they wait;
* `heard` : the packets with events that a connection gets from one thread;
* `dispatch_order` : each thread hands its events over in the order in which it got them, and each connection hears
  them in this order, none of them twice.
-/

namespace Busd.Daemon

open Words Machine Busd.Protocol Busd.Policy Busd.Broker

variable {P : Type} {state start : State P} {connection : Connection} {history : List (Turn × Output)}

/-! ## Replies -/

/-- The frames that answer a frame of the own client. -/
def isReply : Frame → Bool
  | .welcome .. | .protocolError .. | .controlResult .. | .namespaceResolved .. => true
  | _ => false

/-- A thread that is about to answer has a reply to answer with. -/
def Pc.Answers : Pc → Prop
  | .replying _ frame => isReply frame = true
  | _ => True

theorem isReply_controlReply (operation : ControlOperation) (result : Except Broker.Error Unit) :
    isReply (controlReply operation result) = true := by
  cases result with
  | ok => rfl
  | error error => rfl

variable [Policy P]

theorem handleFrame_answers (state : State P) (id : PeerId) (nowMs : UInt64) (frame : Frame) :
    (handleFrame state id nowMs frame).pc.Answers := by
  cases frame with
  | claim ns headers =>
    simp only [handleFrame]
    split_ifs
    · exact isReply_controlReply _ _
    · trivial
  | subscribe channel filters => exact isReply_controlReply _ _
  | unsubscribe channel => exact isReply_controlReply _ _
  | resolveNamespace ns => rfl
  | message m =>
    simp only [handleFrame, moved_pc]
    cases (state.broker.beginDelivery id (.message m) nowMs).2 with
    | ok events => trivial
    | error error => rfl
  | acknowledge messageId policy =>
    simp only [handleFrame, moved_pc]
    cases (state.broker.acknowledge id messageId policy).2 with
    | ok events => trivial
    | error error => rfl
  | _ => trivial

/-- Only the handling of a frame leads to an answer. -/
theorem servePeer_answers (state : State P) (connection : Connection) (io : Io) (pc : Pc) :
    (servePeer state connection io pc).pc.Answers := by
  cases pc with
  | start =>
    simp only [servePeer]
    cases io.credentials with
    | none => trivial
    | some credentials => trivial
  | awaitHello credentials =>
    simp only [servePeer]
    cases io.received with
    | packet packet =>
      simp only [moved_pc, firstFrame]
      split <;> trivial
    | _ => trivial
  | connecting credentials hello =>
    simp only [servePeer, moved_pc]
    split <;> trivial
  | rejecting code message =>
    simp only [servePeer, sends_pc]
    trivial
  | welcoming session =>
    simp only [servePeer, sends_pc]
    split <;> trivial
  | registering id =>
    simp only [servePeer]
    split_ifs <;> trivial
  | receiving id =>
    simp only [servePeer, moved_pc]
    cases io.received with
    | packet packet =>
      simp only [nextFrame]
      split <;> trivial
    | _ => trivial
  | handling id frame => exact handleFrame_answers state id io.nowMs frame
  | replying id frame =>
    simp only [servePeer, sends_pc]
    split <;> trivial
  | dispatching id events =>
    cases events with
    | nil => trivial
    | cons event events =>
      simp only [servePeer, dispatches_pc]
      split <;> trivial
  | refusing id code message =>
    simp only [servePeer, sends_pc]
    trivial
  | unregistering id result => trivial
  | disconnecting id result =>
    simp only [servePeer, moved_pc]
    split <;> trivial
  | flushing id events result =>
    cases events with
    | nil => trivial
    | cons event events =>
      simp only [servePeer, dispatches_pc]
      split <;> trivial
  | returned assigned result => trivial

/-- The packet is an answer of the daemon, under its own limits or, where it rejects, under the default ones. -/
def IsAnswer (limits : FrameLimits) (packet : List UInt8) : Prop :=
  ∃ frame, isReply frame = true ∧
    (frame.encodeWithLimits limits = .ok packet ∨ frame.encodeWithLimits .default = .ok packet)

omit [Policy P] in
theorem mem_sends {limits : FrameLimits} {frame : Frame} {sent : Bool} {next : Except Failure Unit → Pc}
    {c : Connection} {packet : List UInt8} (h : (c, packet) ∈ (state.sends connection limits frame sent next).packets) :
    c = connection ∧ frame.encodeWithLimits limits = .ok packet := by
  unfold State.sends sendFrame at h
  cases hencode : frame.encodeWithLimits limits with
  | error error =>
    rw [hencode] at h
    cases h
  | ok bytes =>
    rw [hencode] at h
    cases sent with
    | false => cases h
    | true =>
      cases List.mem_singleton.mp h
      exact ⟨rfl, rfl⟩

theorem handleFrame_packets (state : State P) (id : PeerId) (nowMs : UInt64) (frame : Frame) :
    (handleFrame state id nowMs frame).packets = [] := by
  cases frame with
  | claim ns headers =>
    simp only [handleFrame]
    split_ifs <;> rfl
  | _ => rfl

/-- A thread that dispatches nothing writes to its own connection only, and only answers. -/
theorem servePeer_packets {io : Io} {pc : Pc} (hpc : pc.Answers) (hidle : pc.next io.dispatch = none)
    {c : Connection} {packet : List UInt8} (h : (c, packet) ∈ (servePeer state connection io pc).packets) :
    c = connection ∧ IsAnswer state.limits packet := by
  cases pc with
  | start =>
    simp only [servePeer] at h
    cases hread : io.credentials with
    | none =>
      rw [hread] at h
      cases h
    | some credentials =>
      rw [hread] at h
      cases h
  | awaitHello credentials =>
    simp only [servePeer] at h
    cases hreceived : io.received with
    | _ =>
      rw [hreceived] at h
      cases h
  | rejecting code message =>
    obtain ⟨hc, hencode⟩ := mem_sends h
    exact ⟨hc, _, rfl, .inr hencode⟩
  | welcoming session =>
    obtain ⟨hc, hencode⟩ := mem_sends h
    exact ⟨hc, _, rfl, .inl hencode⟩
  | registering id =>
    simp only [servePeer] at h
    split_ifs at h
    · cases h
    · cases h
  | handling id frame =>
    simp only [servePeer, handleFrame_packets] at h
    cases h
  | replying id frame =>
    obtain ⟨hc, hencode⟩ := mem_sends h
    exact ⟨hc, frame, hpc, .inl hencode⟩
  | refusing id code message =>
    obtain ⟨hc, hencode⟩ := mem_sends h
    exact ⟨hc, _, rfl, .inr hencode⟩
  | dispatching id events =>
    cases events with
    | nil => cases h
    | cons event events => cases hidle
  | flushing id events result =>
    cases events with
    | nil => cases h
    | cons event events => cases hidle
  | _ => cases h

/-! ## Destinations -/

theorem step_limits (state : State P) (turn : Turn) : (step state turn).1.limits = state.limits := by
  cases turn with
  | accept => rfl
  | serve connection io =>
    simp only [step]
    split <;> rfl
  | tick nowMs =>
    simp only [step]
    split_ifs <;> rfl
  | dispatch io =>
    simp only [step]
    split <;> rfl

def State.Answers (state : State P) : Prop :=
  ∀ (c : Connection) pc, state.threads[c]? = some pc → pc.Answers

theorem step_answers (state : State P) (turn : Turn) (h : state.Answers) : (step state turn).1.Answers := by
  intro c pc hpc
  cases turn with
  | accept =>
    rcases threads_accept state c with hsame | ⟨-, hnew⟩
    · exact h c pc (hsame ▸ hpc)
    · obtain rfl := Option.some.inj (hnew.symm.trans hpc)
      trivial
  | serve connection io =>
    cases hthread : state.threads[connection]? with
    | none =>
      simp only [step, hthread] at hpc
      exact h c pc hpc
    | some pc' =>
      rw [threads_serve hthread] at hpc
      split_ifs at hpc with heq
      · rw [← Option.some.inj hpc]
        exact servePeer_answers state connection io pc'
      · exact h c pc hpc
  | tick nowMs =>
    simp only [step] at hpc
    split_ifs at hpc
    · exact h c pc hpc
    · exact h c pc hpc
  | dispatch io =>
    simp only [step] at hpc
    split at hpc
    · exact h c pc hpc
    · exact h c pc hpc

theorem run_answers {broker : Broker P} {limits : FrameLimits}
    (hrun : Run step (State.initial broker limits) history state) : state.Answers :=
  hrun.invariant step_answers fun c pc hpc => by cases hpc

theorem run_limits {broker : Broker P} {limits : FrameLimits}
    (hrun : Run step (State.initial broker limits) history state) : state.limits = limits := by
  refine hrun.invariant (I := fun s => s.limits = limits) (fun s turn h => ?_) rfl
  rw [step_limits, h]

/-- What the packets of a turn are, given the history before it. -/
inductive Destined (limits : FrameLimits) (history : List (Turn × Output)) : Turn → Connection → List UInt8 → Prop
  /-- the answer to the connection that is served -/
  | answer (connection : Connection) (io : Io) (packet : List UInt8) (hanswer : IsAnswer limits packet) :
      Destined limits history (.serve connection io) connection packet
  /-- an event that the broker returned, for the peer of the connection -/
  | event (turn : Turn) (connection : Connection) (packet : List UInt8) (event : DeliveryEvent) (id : PeerId)
      (hreturned : ∃ call ∈ calls history, event ∈ call.2.events) (hidentity : identities history connection = [id])
      (hrecipient : id ∈ (dispatched event).1) (hencodes : (dispatched event).2.encodeWithLimits limits = .ok packet) :
      Destined limits history turn connection packet

theorem mem_undispatched_of_next {turn : Turn} {d : Dispatch} (h : state.next turn = some d) :
    d.event ∈ state.undispatched := by
  refine (step_conserves state turn).mem_iff.mp ?_ |> List.mem_append.mp |>.resolve_right ?_
  · refine List.mem_append_right _ ?_
    rw [h]
    exact List.mem_cons_self
  · -- a turn that dispatches makes no call
    have hcall : (step state turn).2.call = none := by
      cases turn with
      | accept => cases h
      | tick nowMs => cases h
      | serve connection io =>
        obtain ⟨pc, hpc, hnext⟩ := Option.bind_eq_some_iff.mp h
        simp only [step, hpc]
        cases pc with
        | dispatching id events =>
          cases events with
          | nil => cases hnext
          | cons event rest => rfl
        | flushing id events result =>
          cases events with
          | nil => cases hnext
          | cons event rest => rfl
        | _ => cases hnext
      | dispatch io =>
        simp only [step]
        split <;> rfl
    rw [hcall]
    exact List.not_mem_nil

theorem run_destined {policy : P} {limits : Limits} {capabilities : Capabilities} {frameLimits : FrameLimits}
    {before after : List (Turn × Output)} {turn : Turn} {output : Output}
    (hrun : Run step (State.initial (Broker.empty policy limits capabilities) frameLimits)
      (before ++ (turn, output) :: after) state)
    {c : Connection} {packet : List UInt8} (hmem : (c, packet) ∈ output.packets) :
    Destined frameLimits before turn c packet := by
  obtain ⟨s, hbefore, houtput⟩ := hrun.step_at
  have hlimits := run_limits hbefore
  have hbound := run_bound rfl hbefore
  have hlisted := run_listed hbefore
  rw [houtput] at hmem
  cases hnext : s.next turn with
  | some d =>
    rw [step_packets hnext] at hmem
    obtain ⟨hencode, id, hget, hdue, -⟩ := mem_dispatchEvent.mp hmem
    have hstage := (hlisted.sessions id c).mp hget
    refine .event turn c packet d.event id (run_events hbefore d.event (mem_undispatched_of_next hnext)) ?_
      hdue.recipient (hlimits ▸ hencode)
    rw [← hbound.identity, hstage]
    rfl
  | none =>
    cases turn with
    | accept => cases hmem
    | serve connection io =>
      cases hpc : s.threads[connection]? with
      | none =>
        simp only [step, hpc] at hmem
        cases hmem
      | some pc =>
        simp only [step, hpc] at hmem
        simp only [State.next, hpc, Option.bind_some] at hnext
        obtain ⟨rfl, hanswer⟩ := servePeer_packets (run_answers hbefore connection pc hpc) hnext hmem
        exact .answer c io packet (hlimits ▸ hanswer)
    | tick nowMs =>
      simp only [step] at hmem
      split_ifs at hmem
      · cases hmem
      · cases hmem
    | dispatch io =>
      simp only [State.next] at hnext
      split at hnext
      · next hscheduler =>
        simp only [step, hscheduler] at hmem
        cases hmem
      · cases hnext

/-- In every run of a new daemon, under any interleaving of its threads, a packet is an answer to the connection that
is served, or it carries an event that the broker returned, and goes to the connection of one of its recipients. -/
theorem packets_destined {policy : P} {limits : Limits} {capabilities : Capabilities} {frameLimits : FrameLimits}
    (hrun : Run step (State.initial (Broker.empty policy limits capabilities) frameLimits) history state) :
    ∀ before turn output after, history = before ++ (turn, output) :: after →
      ∀ c packet, (c, packet) ∈ output.packets → Destined frameLimits before turn c packet := by
  intro before turn output after heq c packet hmem
  rw [heq] at hrun
  exact run_destined hrun hmem

/-- Two clients join, and the first one broadcasts two requests. -/
def twoBroadcasts : List (Turn × Output) × State AllowAll :=
  run step openDaemon ([.accept, .accept] ++ joins 0 ++ joins 1 ++
    submits 0 (.message (plainRequest (numberedId 1) .none .none .firstSuccess .broadcast)) ++
    [.serve 0 calmIo, .serve 0 calmIo] ++
    submits 0 (.message (plainRequest (numberedId 2) .none .none .firstSuccess .broadcast)) ++ [.serve 0 calmIo])

theorem packets_destined_twoBroadcasts :
    (twoBroadcasts.1.flatMap fun e => e.2.packets.map Prod.fst) = [0, 1, 1, 1] ∧
      ∀ before turn output after, twoBroadcasts.1 = before ++ (turn, output) :: after →
        ∀ c packet, (c, packet) ∈ output.packets → Destined .default before turn c packet :=
  ⟨by decide +kernel, packets_destined (run_spec _ _)⟩

/-! ## The events of one thread -/

/-- The events that the broker returned to this thread, in order. -/
def obtained (thread : Option Connection) (history : List (Turn × Output)) : List DeliveryEvent :=
  history.flatMap fun e => if e.1.thread = thread then returned e.2.call else []

/-- The events that leave with a turn of this thread: dispatched, or dropped because the one before them failed. -/
def handsOver (thread : Option Connection) (state : State P) (turn : Turn) : List DeliveryEvent :=
  if turn.thread = thread then state.leaving (state.next turn) else []

def handedOver (thread : Option Connection) (start : State P) (history : List (Turn × Output)) : List DeliveryEvent :=
  written step (handsOver thread) start history

/-- The events that this thread has still to dispatch. -/
def State.waitingOf (state : State P) : Option Connection → List DeliveryEvent
  | none => state.scheduler
  | some connection => (state.threads[connection]?).elim [] Pc.events

theorem obtained_snoc (thread : Option Connection) (history : List (Turn × Output)) (turn : Turn) (output : Output) :
    obtained thread (history ++ [(turn, output)]) =
      obtained thread history ++ if turn.thread = thread then returned output.call else [] := by
  unfold obtained
  rw [List.flatMap_append, List.flatMap_singleton]

omit [Policy P] in
/-- A dispatch that goes on leaves the rest to be dispatched; one that fails takes it along. -/
theorem dispatches_order (state : State P) (d : Dispatch) {next : Except Failure Unit → Pc}
    (hok : (next (.ok ())).events = d.rest) (herror : ∀ failure, (next (.error failure)).events = []) :
    d.event :: d.rest = state.leaving (some d) ++ (state.dispatches d.event d.io next).pc.events := by
  rw [dispatches_pc]
  show _ = (d.event :: state.dropped d) ++ _
  unfold State.dropped
  cases (dispatchEvent state.sessions state.limits d.event d.io).2 with
  | ok =>
    rw [hok]
    rfl
  | error failure =>
    rw [herror]
    exact (List.append_nil _).symm

/-- What a thread has to dispatch and what it gets, it hands over or has still to dispatch, in this order. -/
theorem servePeer_order (state : State P) (connection : Connection) (io : Io) (pc : Pc) :
    pc.events ++ returned (servePeer state connection io pc).call =
      state.leaving (pc.next io.dispatch) ++ (servePeer state connection io pc).pc.events := by
  have hconserves := servePeer_conserves state connection io pc
  -- where the broker returns nothing and nothing leaves, nothing waits afterwards
  have hnothing : pc.events = [] → pc.next io.dispatch = none →
      returned (servePeer state connection io pc).call = [] →
      pc.events ++ returned (servePeer state connection io pc).call =
        state.leaving (pc.next io.dispatch) ++ (servePeer state connection io pc).pc.events := by
    intro hevents hnext hcall
    rw [hevents, hnext, hcall] at hconserves ⊢
    have hafter := hconserves.eq_nil
    exact (List.append_eq_nil_iff.mp hafter).1.symm
  cases pc with
  | start =>
    refine hnothing rfl rfl ?_
    simp only [servePeer]
    cases io.credentials with
    | none => rfl
    | some credentials => rfl
  | awaitHello credentials =>
    refine hnothing rfl rfl ?_
    simp only [servePeer]
    cases io.received with
    | _ => rfl
  | rejecting code message =>
    refine hnothing rfl rfl ?_
    simp only [servePeer, sends_call]
    rfl
  | welcoming session =>
    refine hnothing rfl rfl ?_
    simp only [servePeer, sends_call]
    rfl
  | registering id =>
    refine hnothing rfl rfl ?_
    simp only [servePeer]
    split_ifs <;> rfl
  | handling id frame => exact (handleFrame_events state id io.nowMs frame).symm
  | replying id frame =>
    refine hnothing rfl rfl ?_
    simp only [servePeer, sends_call]
    rfl
  | dispatching id events =>
    cases events with
    | nil => rfl
    | cons event rest =>
      refine (List.append_nil _).trans (dispatches_order state ⟨event, rest, io.dispatch⟩ ?_ fun failure => ?_)
      · rfl
      · rfl
  | refusing id code message =>
    refine hnothing rfl rfl ?_
    simp only [servePeer, sends_call]
    rfl
  | disconnecting id result =>
    simp only [servePeer, moved_pc]
    cases (state.broker.disconnectWithEvents id).2 with
    | ok events => rfl
    | error error => rfl
  | flushing id events result =>
    cases events with
    | nil => rfl
    | cons event rest =>
      refine (List.append_nil _).trans (dispatches_order state ⟨event, rest, io.dispatch⟩ ?_ fun failure => ?_)
      · rfl
      · rfl
  | _ => exact hnothing rfl rfl rfl

theorem waitingOf_serve {io : Io} {pc : Pc} (h : state.threads[connection]? = some pc) (c : Connection) :
    (step state (.serve connection io)).1.waitingOf (some c) =
      if c = connection then (servePeer state connection io pc).pc.events else state.waitingOf (some c) := by
  simp only [State.waitingOf, threads_serve h]
  split_ifs <;> rfl

theorem step_order (state : State P) (turn : Turn) (thread : Option Connection) :
    state.waitingOf thread ++ (if turn.thread = thread then returned (step state turn).2.call else []) =
      handsOver thread state turn ++ (step state turn).1.waitingOf thread := by
  -- a turn that leaves the events of the thread alone
  have hother : turn.thread ≠ thread → (step state turn).1.waitingOf thread = state.waitingOf thread →
      state.waitingOf thread ++ (if turn.thread = thread then returned (step state turn).2.call else []) =
        handsOver thread state turn ++ (step state turn).1.waitingOf thread := by
    intro hne hsame
    rw [if_neg hne, handsOver, if_neg hne, hsame]
    exact List.append_nil _
  cases turn with
  | accept =>
    cases thread with
    | none => exact List.append_nil _
    | some c =>
      refine hother (fun h => by cases h) ?_
      rcases threads_accept state c with hsame | ⟨hnone, hnew⟩
      · simp only [State.waitingOf, hsame]
      · simp only [State.waitingOf, hnone, hnew]
        rfl
  | serve connection io =>
    cases hpc : state.threads[connection]? with
    | none =>
      have hsame : step state (.serve connection io) = (state, ⟨[], none⟩) := by simp only [step, hpc]
      rw [hsame, handsOver, State.next, hpc]
      split_ifs
      · exact List.append_nil _
      · exact List.append_nil _
    | some pc =>
      cases thread with
      | none =>
        refine hother (fun h => by cases h) ?_
        simp only [step, hpc, State.waitingOf]
      | some c =>
        by_cases heq : c = connection
        · subst heq
          have hthread : (Turn.serve c io).thread = some c := rfl
          rw [waitingOf_serve hpc, if_pos rfl, if_pos hthread, handsOver, if_pos hthread]
          simp only [State.waitingOf, State.next, step, hpc]
          exact servePeer_order state c io pc
        · refine hother (fun h => heq (Option.some.inj h).symm) ?_
          rw [waitingOf_serve hpc, if_neg heq]
  | tick nowMs =>
    cases thread with
    | some c =>
      refine hother (fun h => by cases h) ?_
      simp only [step]
      split_ifs <;> rfl
    | none =>
      have hthread : (Turn.tick nowMs).thread = none := rfl
      rw [if_pos hthread, handsOver, if_pos hthread]
      simp only [step]
      split_ifs with hidle
      · rw [List.isEmpty_iff] at hidle
        simp only [State.waitingOf, hidle]
        rfl
      · exact List.append_nil _
  | dispatch io =>
    cases thread with
    | some c =>
      refine hother (fun h => by cases h) ?_
      simp only [step]
      split <;> rfl
    | none =>
      have hthread : (Turn.dispatch io).thread = none := rfl
      rw [if_pos hthread, handsOver, if_pos hthread]
      simp only [State.waitingOf, State.next, step]
      cases hscheduler : state.scheduler with
      | nil =>
        simp only [hscheduler]
        rfl
      | cons event rest =>
        simp only [State.leaving, Option.elim_some, State.dropped]
        cases (dispatchEvent state.sessions state.limits event io).2 with
        | ok => exact List.append_nil _
        | error failure => rfl

theorem run_order {policy : P} {limits : Limits} {capabilities : Capabilities} {frameLimits : FrameLimits}
    (hrun : Run step (State.initial (Broker.empty policy limits capabilities) frameLimits) history state)
    (thread : Option Connection) :
    obtained thread history =
      handedOver thread (State.initial (Broker.empty policy limits capabilities) frameLimits) history ++
        state.waitingOf thread := by
  induction hrun with
  | nil =>
    cases thread with
    | none => rfl
    | some c => rfl
  | @snoc s s' history turn output hrun hstep ih =>
    have hturn := step_order s turn thread
    rw [hstep] at hturn
    rw [obtained_snoc, ih, List.append_assoc, hturn, ← List.append_assoc]
    unfold handedOver
    rw [hrun.written_snoc]

/-! ## What a connection hears -/

def eventPacket (limits : FrameLimits) (event : DeliveryEvent) : Option (List UInt8) :=
  ((dispatched event).2.encodeWithLimits limits).toOption

def packetsTo (connection : Connection) (packets : List (Connection × List UInt8)) : List (List UInt8) :=
  (packets.filter fun e => e.1 = connection).map Prod.snd

/-- The packets with an event that a turn of this thread sends to the connection. -/
def hears (connection : Connection) (thread : Option Connection) (state : State P) (turn : Turn) : List (List UInt8) :=
  if turn.thread = thread ∧ (state.next turn).isSome then packetsTo connection (step state turn).2.packets else []

/-- The packets with events that the connection got from this thread, in order. -/
def heard (connection : Connection) (thread : Option Connection) (start : State P)
    (history : List (Turn × Output)) : List (List UInt8) :=
  written step (hears connection thread) start history

theorem packetsTo_sublist {l l' : List (Connection × List UInt8)} (h : l.Sublist l') :
    (packetsTo connection l).Sublist (packetsTo connection l') :=
  (h.filter _).map _

theorem sendAll_sublist (packet : List UInt8) (sent : PeerId → Sent) (outputs : List (PeerId × Connection)) :
    (sendAll packet sent outputs).1.Sublist (outputs.map fun e => (e.2, packet)) := by
  induction outputs with
  | nil => exact List.Sublist.refl _
  | cons output rest ih =>
    unfold sendAll
    cases sent output.1 with
    | delivered => exact ih.cons_cons _
    | closed => exact ih.cons _
    | failed => exact List.nil_sublist _

/-- One peer to a connection: the packet for it stands at most once among those to be sent. -/
theorem packetsTo_outputs (sessions : OrdMap PeerId Connection) (event : DeliveryEvent) (packet : List UInt8)
    (hone : ∀ id id', sessions.get? id = some connection → sessions.get? id' = some connection → id' = id) :
    (packetsTo connection ((outputsOf sessions event).map fun e => (e.2, packet))).Sublist [packet] := by
  have hall : (outputsOf sessions event).Pairwise fun a b => a.1 < b.1 := outputsOf_sorted
  have hsorted := hall.filter fun e => e.2 = connection
  have hget : ∀ e ∈ (outputsOf sessions event).filter (fun e => e.2 = connection),
      sessions.get? e.1 = some connection := by
    intro e he
    obtain ⟨hmem, hconnection⟩ := List.mem_filter.mp he
    rw [← of_decide_eq_true hconnection]
    exact (mem_outputsOf.mp hmem).1
  have hmap : packetsTo connection ((outputsOf sessions event).map fun e => (e.2, packet)) =
      ((outputsOf sessions event).filter fun e => e.2 = connection).map fun _ => packet := by
    unfold packetsTo
    rw [List.filter_map, List.map_map]
    rfl
  rw [hmap]
  generalize (outputsOf sessions event).filter (fun e => e.2 = connection) = l at hsorted hget
  match l with
  | [] => exact List.nil_sublist _
  | [e] => exact List.Sublist.refl _
  | e :: e' :: rest =>
    have hlt : e.1 < e'.1 := List.rel_of_pairwise_cons hsorted List.mem_cons_self
    have heq : e'.1 = e.1 :=
      hone _ _ (hget e List.mem_cons_self) (hget e' (List.mem_cons_of_mem _ List.mem_cons_self))
    rw [heq] at hlt
    exact absurd hlt (lt_irrefl _)

theorem packetsTo_dispatchEvent (sessions : OrdMap PeerId Connection) (limits : FrameLimits) (event : DeliveryEvent)
    (io : DispatchIo)
    (hone : ∀ id id', sessions.get? id = some connection → sessions.get? id' = some connection → id' = id) :
    (packetsTo connection (dispatchEvent sessions limits event io).1).Sublist (eventPacket limits event).toList := by
  rw [dispatchEvent_eq]
  unfold eventPacket
  cases (dispatched event).2.encodeWithLimits limits with
  | error error => exact List.nil_sublist _
  | ok packet =>
    have hsublist := (packetsTo_sublist (sendAll_sublist packet io.sent (outputsOf sessions event))).trans
      (packetsTo_outputs sessions event packet hone)
    simp only []
    split_ifs
    · exact hsublist
    · exact List.nil_sublist _

theorem step_hears (turn : Turn) (thread : Option Connection)
    (hone : ∀ id id', state.sessions.get? id = some connection → state.sessions.get? id' = some connection → id' = id) :
    (hears connection thread state turn).Sublist
      ((handsOver thread state turn).filterMap (eventPacket state.limits)) := by
  unfold hears handsOver
  by_cases hthread : turn.thread = thread
  · rw [if_pos hthread]
    cases hnext : state.next turn with
    | none =>
      rw [if_neg fun h => by cases h.2]
      exact List.nil_sublist _
    | some d =>
      rw [if_pos ⟨hthread, rfl⟩, step_packets hnext]
      refine (packetsTo_dispatchEvent state.sessions state.limits d.event d.io hone).trans ?_
      show List.Sublist _ (List.filterMap _ ([d.event] ++ state.dropped d))
      rw [List.filterMap_append, show List.filterMap (eventPacket state.limits) [d.event] =
        (eventPacket state.limits d.event).toList by cases h : eventPacket state.limits d.event <;> simp [h]]
      exact List.sublist_append_left _ _
  · rw [if_neg fun h => hthread h.1]
    exact List.nil_sublist _

theorem run_hears {policy : P} {limits : Limits} {capabilities : Capabilities} {frameLimits : FrameLimits}
    (hrun : Run step (State.initial (Broker.empty policy limits capabilities) frameLimits) history state)
    (connection : Connection) (thread : Option Connection) :
    (heard connection thread (State.initial (Broker.empty policy limits capabilities) frameLimits) history).Sublist
      ((handedOver thread (State.initial (Broker.empty policy limits capabilities) frameLimits) history).filterMap
        (eventPacket frameLimits)) := by
  induction hrun with
  | nil => exact List.nil_sublist _
  | @snoc s s' history turn output hrun hstep ih =>
    unfold heard handedOver at ih ⊢
    rw [hrun.written_snoc, hrun.written_snoc, List.filterMap_append]
    refine ih.append (run_limits hrun ▸ step_hears turn thread fun id id' hid hid' => ?_)
    have hlisted := run_listed hrun
    rw [hlisted.sessions] at hid hid'
    rw [hid] at hid'
    exact (Stage.registered.inj hid').symm

/-- In every run of a new daemon, under any interleaving of its threads: the events that the broker returned to one
thread leave it in the order in which it returned them, and those still to dispatch are the last of them; and a
connection hears the events of one thread in this order, each of them at most once. -/
theorem dispatch_order {policy : P} {limits : Limits} {capabilities : Capabilities} {frameLimits : FrameLimits}
    (hrun : Run step (State.initial (Broker.empty policy limits capabilities) frameLimits) history state)
    (thread : Option Connection) :
    obtained thread history =
        handedOver thread (State.initial (Broker.empty policy limits capabilities) frameLimits) history ++
          state.waitingOf thread ∧
      ∀ c, (heard c thread (State.initial (Broker.empty policy limits capabilities) frameLimits) history).Sublist
        ((obtained thread history).filterMap (eventPacket frameLimits)) := by
  refine ⟨run_order hrun thread, fun c => ?_⟩
  rw [run_order hrun thread, List.filterMap_append]
  exact (run_hears hrun c thread).trans (List.sublist_append_left _ _)

theorem dispatch_order_twoBroadcasts :
    (heard 1 (some 0) openDaemon twoBroadcasts.1).length = 2 ∧
      (heard 1 (some 0) openDaemon twoBroadcasts.1).Sublist
        ((obtained (some 0) twoBroadcasts.1).filterMap (eventPacket .default)) :=
  ⟨by decide +kernel, (dispatch_order (run_spec _ _) (some 0)).2 1⟩

end Busd.Daemon
