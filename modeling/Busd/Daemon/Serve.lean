import Busd.Broker.Steps
import Busd.Daemon.Dispatch
import Busd.Protocol.Decode

/-!
# The daemon as a machine

Every accepted connection has a thread that runs `serve_peer`; one more thread runs the clock. `Pc` is what a
`serve_peer` call has still to do, cut at every lock and at every packet from or to its own client, so that any
interleaving of threads is a run of `step`. Dispatching one event is one step, though it encodes the frame, clones the
connections and makes all the sends: it looks once at what the threads share, the session map under its lock. The
answers of the operating system are part of the input.

* `servePeer` : one step of a `serve_peer` call, `handleFrame` included;
* `step` : one step of the daemon;
* `run_calls` : the broker of a daemon sees a run of its own machine;
* `step_conserves` : every event the broker has returned is dispatched or dropped once, or still waits;
* `run_events` : what the daemon dispatches was returned by a call of the broker.
-/

namespace Busd.Daemon

open Words Machine Busd.Protocol Busd.Policy Busd.Broker

/-! ## Threads -/

/-- What `receive_packet` returns; a reset connection is an error that only the session loop forgives. -/
inductive Received where
  | packet (bytes : List UInt8)
  | closed
  | reset
  | failed
  deriving DecidableEq

/-- The answers of the operating system to one step of `serve_peer`. -/
structure Io where
  /-- `peer_credentials`, completed by `credentials_from_peer` -/
  credentials : Option Credentials
  received : Received
  /-- whether `send_packet` on the thread's own connection succeeds -/
  sent : Bool
  /-- whether `try_clone` of the thread's own connection succeeds -/
  cloned : Bool
  dispatch : DispatchIo
  nowMs : UInt64

/-- What a `serve_peer` call does next. -/
inductive Pc where
  | start
  | awaitHello (credentials : Credentials)
  | connecting (credentials : Credentials) (hello : ClientHello)
  | rejecting (code : ProtocolErrorCode) (message : String)
  | welcoming (session : ConnectedPeer)
  | registering (id : PeerId)
  -- `dispatch_session`
  | receiving (id : PeerId)
  | handling (id : PeerId) (frame : Frame)
  | replying (id : PeerId) (frame : Frame)
  | dispatching (id : PeerId) (events : List DeliveryEvent)
  | refusing (id : PeerId) (code : ProtocolErrorCode) (message : String)
  -- the tail of `serve_peer`, with the result of `dispatch_session`
  | unregistering (id : PeerId) (result : Except Failure Unit)
  | disconnecting (id : PeerId) (result : Except Failure Unit)
  | flushing (id : PeerId) (events : List DeliveryEvent) (result : Except Failure Unit)
  | returned (assigned : Option PeerId) (result : Except Failure Unit)
  deriving DecidableEq

/-- The shared state of the daemon, and what each of its threads does next. -/
structure State (P : Type) where
  limits : FrameLimits
  broker : Broker P
  sessions : OrdMap PeerId Connection
  /-- the `serve_peer` calls, by the number of their connection -/
  threads : List Pc
  /-- the events of the last tick that the clock thread has still to dispatch -/
  scheduler : List DeliveryEvent

variable {P : Type}

def State.initial (broker : Broker P) (limits : FrameLimits) : State P :=
  ⟨limits, broker, ∅, [], []⟩

/-- What one step of a `serve_peer` call leaves behind. -/
structure Moved (P : Type) where
  broker : Broker P
  sessions : OrdMap PeerId Connection
  pc : Pc
  packets : List (Connection × List UInt8)
  call : Option (Op × Reply)

def State.moved (state : State P) (pc : Pc) : Moved P := ⟨state.broker, state.sessions, pc, [], none⟩

/-! ## `serve_peer` -/

/-- Encoding a frame and sending it to the own peer: the packet that was sent. -/
def sendFrame (limits : FrameLimits) (frame : Frame) (sent : Bool) : Except Failure (List UInt8) :=
  match frame.encodeWithLimits limits with
  | .error error => .error (.codec error)
  | .ok packet => if sent then .ok packet else .error .io

def State.sends (state : State P) (connection : Connection) (limits : FrameLimits) (frame : Frame) (sent : Bool)
    (next : Except Failure Unit → Pc) : Moved P :=
  match sendFrame limits frame sent with
  | .ok packet => { state.moved (next (.ok ())) with packets := [(connection, packet)] }
  | .error failure => state.moved (next (.error failure))

def State.dispatches (state : State P) (event : DeliveryEvent) (io : DispatchIo)
    (next : Except Failure Unit → Pc) : Moved P :=
  let result := dispatchEvent state.sessions state.limits event io
  { state.moved (next result.2) with packets := result.1 }

def firstFrame (limits : FrameLimits) (credentials : Credentials) (packet : List UInt8) : Pc :=
  match Frame.decodeWithLimits packet limits with
  | .ok (.hello clientId headers capabilities) => .connecting credentials ⟨clientId, headers, capabilities⟩
  | .ok _ => .rejecting .invalidState "HELLO must be the first frame"
  | .error error => .rejecting (codecErrorCode error) (codecErrorText error)

def nextFrame (limits : FrameLimits) (id : PeerId) : Received → Pc
  | .packet packet =>
    match Frame.decodeWithLimits packet limits with
    | .ok frame => .handling id frame
    | .error error => .refusing id (codecErrorCode error) (codecErrorText error)
  | .closed | .reset => .unregistering id (.ok ())
  | .failed => .unregistering id (.error .io)

section Turns

variable [Policy P]

/-- The arms of `dispatch_session` for a decoded frame. -/
def handleFrame (state : State P) (id : PeerId) (nowMs : UInt64) : Frame → Moved P
  | .claim ns headers =>
    if headers.isEmpty then
      let outcome := state.broker.claim id ns
      { state.moved (.replying id (controlReply .claim outcome.2)) with
        broker := outcome.1, call := some (.claim id ns, .completed outcome.2) }
    else state.moved (.refusing id .invalidState "claim metadata is not supported in this phase")
  | .subscribe channel filters =>
    let outcome := state.broker.subscribeWithFilters id channel filters
    { state.moved (.replying id (controlReply .subscribe outcome.2)) with
      broker := outcome.1, call := some (.subscribe id channel filters, .completed outcome.2) }
  | .unsubscribe channel =>
    let outcome := state.broker.unsubscribe id channel
    { state.moved (.replying id (controlReply .unsubscribe outcome.2)) with
      broker := outcome.1, call := some (.unsubscribe id channel, .completed outcome.2) }
  | .resolveNamespace ns =>
    state.moved (.replying id (.namespaceResolved ns (state.broker.namespaceOwner ns)))
  | .message m =>
    let outcome := state.broker.beginDelivery id (.message m) nowMs
    let next := match outcome.2 with
      | .ok events => .dispatching id events
      | .error error => .replying id (.protocolError (brokerErrorCode error) (errorText error))
    { state.moved next with
      broker := outcome.1, call := some (.beginDelivery id (.message m) nowMs, .delivery outcome.2) }
  | .acknowledge messageId policy =>
    let outcome := state.broker.acknowledge id messageId policy
    let next := match outcome.2 with
      | .ok events => .dispatching id events
      | .error error => .replying id (.protocolError .invalidState (errorText error))
    { state.moved next with
      broker := outcome.1, call := some (.acknowledge id messageId policy, .delivery outcome.2) }
  | .hello .. => state.moved (.refusing id .invalidState "HELLO was already received")
  | .welcome .. | .protocolError .. | .controlResult .. | .namespaceResolved .. | .deliveryResult .. =>
    state.moved (.refusing id .invalidState "frame is not valid for a client session")

/-- One step of the `serve_peer` call on a connection. -/
def servePeer (state : State P) (connection : Connection) (io : Io) : Pc → Moved P
  | .start =>
    match io.credentials with
    | none => state.moved (.returned none (.error .io))
    | some credentials => state.moved (.awaitHello credentials)
  | .awaitHello credentials =>
    match io.received with
    | .packet packet => state.moved (firstFrame state.limits credentials packet)
    | .closed => state.moved (.returned none (.ok ()))
    | .reset | .failed => state.moved (.returned none (.error .io))
  | .connecting credentials hello =>
    let outcome := state.broker.connectSession credentials hello
    let next := match outcome.2 with
      | .ok session => .welcoming session
      | .error error => .rejecting .invalidState (errorText error)
    { state.moved next with
      broker := outcome.1, call := some (.connect credentials hello, .connected outcome.2) }
  | .rejecting code message =>
    -- `reject` encodes under the default limits, not those of the daemon
    state.sends connection .default (.protocolError code message) io.sent (.returned none)
  | .welcoming session =>
    state.sends connection state.limits (.welcome session.id session.capabilities) io.sent fun
      | .ok () => .registering session.id
      | .error failure => .returned (some session.id) (.error failure)
  | .registering id =>
    if io.cloned then
      { state.moved (.receiving id) with sessions := state.sessions.insert id connection }
    else state.moved (.returned (some id) (.error .io))
  | .receiving id => state.moved (nextFrame state.limits id io.received)
  | .handling id frame => handleFrame state id io.nowMs frame
  | .replying id frame =>
    state.sends connection state.limits frame io.sent fun
      | .ok () => .receiving id
      | .error failure => .unregistering id (.error failure)
  | .dispatching id [] => state.moved (.receiving id)
  | .dispatching id (event :: events) =>
    state.dispatches event io.dispatch fun
      | .ok () => .dispatching id events
      | .error failure => .unregistering id (.error failure)
  | .refusing id code message =>
    state.sends connection .default (.protocolError code message) io.sent (.unregistering id)
  | .unregistering id result =>
    { state.moved (.disconnecting id result) with sessions := state.sessions.erase id }
  | .disconnecting id result =>
    let outcome := state.broker.disconnectWithEvents id
    let next := match outcome.2 with
      | .ok events => .flushing id events result
      | .error error => .returned (some id) (.error (.broker error))
    { state.moved next with broker := outcome.1, call := some (.disconnect id, .delivery outcome.2) }
  | .flushing id [] result => state.moved (.returned (some id) result)
  | .flushing id (event :: events) result =>
    state.dispatches event io.dispatch fun
      | .ok () => .flushing id events result
      | .error failure => .returned (some id) (.error failure)
  | .returned assigned result => state.moved (.returned assigned result)

/-! ## The daemon -/

/-- Whose turn it is: the listener, one `serve_peer` call, or the clock thread. -/
inductive Turn where
  | accept
  | serve (connection : Connection) (io : Io)
  | tick (nowMs : UInt64)
  | dispatch (io : DispatchIo)

/-- The packets that leave the daemon in one step, and the call of the broker that was made. -/
structure Output where
  packets : List (Connection × List UInt8)
  call : Option (Op × Reply)

def step (state : State P) : Turn → State P × Output
  | .accept => ({ state with threads := state.threads ++ [.start] }, ⟨[], none⟩)
  | .serve connection io =>
    match state.threads[connection]? with
    | none => (state, ⟨[], none⟩)
    | some pc =>
      let moved := servePeer state connection io pc
      ({ state with
          broker := moved.broker
          sessions := moved.sessions
          threads := state.threads.set connection moved.pc },
        ⟨moved.packets, moved.call⟩)
  | .tick nowMs =>
    -- the clock ticks again only when the events of the last tick are dispatched
    if state.scheduler.isEmpty then
      let outcome := state.broker.tick nowMs
      ({ state with broker := outcome.1, scheduler := outcome.2 },
        ⟨[], some (.tick nowMs, .delivery (.ok outcome.2))⟩)
    else (state, ⟨[], none⟩)
  | .dispatch io =>
    match state.scheduler with
    | [] => (state, ⟨[], none⟩)
    | event :: events =>
      let result := dispatchEvent state.sessions state.limits event io
      ({ state with scheduler := match result.2 with
          | .ok () => events
          -- the result of `dispatch_delivery_events` is dropped, and with it the events left
          | .error _ => [] },
        ⟨result.1, none⟩)

end Turns

/-! ## What a step leaves alone -/

section Fields

variable (state : State P)

@[simp] theorem moved_broker (pc : Pc) : (state.moved pc).broker = state.broker := rfl
@[simp] theorem moved_sessions (pc : Pc) : (state.moved pc).sessions = state.sessions := rfl
@[simp] theorem moved_pc (pc : Pc) : (state.moved pc).pc = pc := rfl
@[simp] theorem moved_call (pc : Pc) : (state.moved pc).call = none := rfl

variable (connection : Connection) (limits : FrameLimits) (frame : Frame) (sent : Bool)
  (next : Except Failure Unit → Pc)

theorem sends_eq : ∃ packets, state.sends connection limits frame sent next =
    { state.moved (next ((sendFrame limits frame sent).map fun _ => ())) with packets } := by
  unfold State.sends
  cases sendFrame limits frame sent with
  | ok packet => exact ⟨_, rfl⟩
  | error failure => exact ⟨_, rfl⟩

@[simp] theorem sends_broker : (state.sends connection limits frame sent next).broker = state.broker := by
  obtain ⟨_, h⟩ := sends_eq state connection limits frame sent next
  rw [h, moved_broker]

@[simp] theorem sends_sessions : (state.sends connection limits frame sent next).sessions = state.sessions := by
  obtain ⟨_, h⟩ := sends_eq state connection limits frame sent next
  rw [h, moved_sessions]

@[simp] theorem sends_call : (state.sends connection limits frame sent next).call = none := by
  obtain ⟨_, h⟩ := sends_eq state connection limits frame sent next
  rw [h, moved_call]

@[simp] theorem sends_pc : (state.sends connection limits frame sent next).pc =
    next ((sendFrame limits frame sent).map fun _ => ()) := by
  obtain ⟨_, h⟩ := sends_eq state connection limits frame sent next
  rw [h, moved_pc]

variable (event : DeliveryEvent) (io : DispatchIo)

@[simp] theorem dispatches_pc : (state.dispatches event io next).pc =
    next (dispatchEvent state.sessions state.limits event io).2 := rfl

end Fields

/-! ## The calls of the broker -/

variable [Policy P]

/-- The call of the broker in one step, if any, is a step of the broker's machine. -/
def Calls (broker broker' : Broker P) (call : Option (Op × Reply)) : Prop :=
  (call = none ∧ broker' = broker) ∨ ∃ op, call = some (op, (exec broker op).2) ∧ broker' = (exec broker op).1

variable {state : State P}

theorem handleFrame_calls (state : State P) (id : PeerId) (nowMs : UInt64) (frame : Frame) :
    Calls state.broker (handleFrame state id nowMs frame).broker (handleFrame state id nowMs frame).call := by
  cases frame with
  | claim ns headers =>
    simp only [handleFrame]
    split_ifs with hempty
    · exact .inr ⟨.claim id ns, rfl, rfl⟩
    · exact .inl ⟨rfl, rfl⟩
  | subscribe channel filters => exact .inr ⟨.subscribe id channel filters, rfl, rfl⟩
  | unsubscribe channel => exact .inr ⟨.unsubscribe id channel, rfl, rfl⟩
  | message m => exact .inr ⟨.beginDelivery id (.message m) nowMs, rfl, rfl⟩
  | acknowledge messageId policy => exact .inr ⟨.acknowledge id messageId policy, rfl, rfl⟩
  | _ => exact .inl ⟨rfl, rfl⟩

theorem servePeer_calls (state : State P) (connection : Connection) (io : Io) (pc : Pc) :
    Calls state.broker (servePeer state connection io pc).broker (servePeer state connection io pc).call := by
  have hsends : ∀ limits frame next,
      Calls state.broker (state.sends connection limits frame io.sent next).broker
        (state.sends connection limits frame io.sent next).call :=
    fun _ _ _ => .inl ⟨sends_call .., sends_broker ..⟩
  cases pc with
  | start =>
    simp only [servePeer]
    cases io.credentials with
    | none => exact .inl ⟨rfl, rfl⟩
    | some credentials => exact .inl ⟨rfl, rfl⟩
  | awaitHello credentials =>
    simp only [servePeer]
    cases io.received with
    | _ => exact .inl ⟨rfl, rfl⟩
  | connecting credentials hello => exact .inr ⟨.connect credentials hello, rfl, rfl⟩
  | rejecting code message => exact hsends _ _ _
  | welcoming session => exact hsends _ _ _
  | registering id =>
    simp only [servePeer]
    split_ifs with hcloned
    · exact .inl ⟨rfl, rfl⟩
    · exact .inl ⟨rfl, rfl⟩
  | receiving id => exact .inl ⟨rfl, rfl⟩
  | handling id frame => exact handleFrame_calls state id io.nowMs frame
  | replying id frame => exact hsends _ _ _
  | dispatching id events =>
    cases events with
    | nil => exact .inl ⟨rfl, rfl⟩
    | cons event events => exact .inl ⟨rfl, rfl⟩
  | refusing id code message => exact hsends _ _ _
  | unregistering id result => exact .inl ⟨rfl, rfl⟩
  | disconnecting id result => exact .inr ⟨.disconnect id, rfl, rfl⟩
  | flushing id events result =>
    cases events with
    | nil => exact .inl ⟨rfl, rfl⟩
    | cons event events => exact .inl ⟨rfl, rfl⟩
  | returned assigned result => exact .inl ⟨rfl, rfl⟩

theorem step_calls (state : State P) (turn : Turn) :
    Calls state.broker (step state turn).1.broker (step state turn).2.call := by
  cases turn with
  | accept => exact .inl ⟨rfl, rfl⟩
  | serve connection io =>
    simp only [step]
    cases state.threads[connection]? with
    | none => exact .inl ⟨rfl, rfl⟩
    | some pc => exact servePeer_calls state connection io pc
  | tick nowMs =>
    simp only [step]
    split_ifs with hidle
    · exact .inr ⟨.tick nowMs, rfl, rfl⟩
    · exact .inl ⟨rfl, rfl⟩
  | dispatch io =>
    simp only [step]
    cases state.scheduler with
    | nil => exact .inl ⟨rfl, rfl⟩
    | cons event events => exact .inl ⟨rfl, rfl⟩

def calls (history : List (Turn × Output)) : List (Op × Reply) := history.filterMap fun e => e.2.call

theorem calls_snoc (history : List (Turn × Output)) (turn : Turn) (output : Output) :
    calls (history ++ [(turn, output)]) = calls history ++ output.call.toList := by
  unfold calls
  rw [List.filterMap_append]
  cases hcall : output.call with
  | none => simp [hcall]
  | some call => simp [hcall]

/-- The broker of a daemon goes through a run of its own machine. -/
theorem run_calls {start : State P} {history : List (Turn × Output)} (hrun : Run step start history state) :
    Run exec start.broker (calls history) state.broker := by
  induction hrun with
  | nil => exact Run.nil _
  | @snoc s s' history turn output _ hstep ih =>
    have hcalls := step_calls s turn
    rw [hstep] at hcalls
    rw [calls_snoc]
    rcases hcalls with ⟨hnone, hsame⟩ | ⟨op, hsome, hnext⟩
    · rw [hnone, hsame]
      exact (List.append_nil _).symm ▸ ih
    · rw [hsome, hnext]
      exact Run.snoc ih rfl

/-! ## The events on their way -/

def Pc.events : Pc → List DeliveryEvent
  | .dispatching _ events | .flushing _ events _ => events
  | _ => []

/-- The events that `dispatch_delivery_events` was given and has not reached yet. -/
def State.undispatched (state : State P) : List DeliveryEvent :=
  state.scheduler ++ state.threads.flatMap Pc.events

def ReturnedBy (call : Option (Op × Reply)) (event : DeliveryEvent) : Prop :=
  ∃ op reply, call = some (op, reply) ∧ event ∈ reply.events

def returned (call : Option (Op × Reply)) : List DeliveryEvent := call.elim [] fun c => c.2.events

theorem returnedBy_of_mem {call : Option (Op × Reply)} {event : DeliveryEvent} (h : event ∈ returned call) :
    ReturnedBy call event := by
  cases call with
  | none => exact absurd h List.not_mem_nil
  | some c => exact ⟨c.1, c.2, rfl, h⟩

/-- An event that is being dispatched, what comes after it, and the answers of the operating system. -/
structure Dispatch where
  event : DeliveryEvent
  rest : List DeliveryEvent
  io : DispatchIo

def Pc.next (io : DispatchIo) : Pc → Option Dispatch
  | .dispatching _ (event :: rest) | .flushing _ (event :: rest) _ => some ⟨event, rest, io⟩
  | _ => none

def State.next (state : State P) : Turn → Option Dispatch
  | .accept | .tick _ => none
  | .serve connection io => (state.threads[connection]?).bind (Pc.next io.dispatch)
  | .dispatch io =>
    match state.scheduler with
    | [] => none
    | event :: rest => some ⟨event, rest, io⟩

/-- The events that are dropped because this one fails. -/
def State.dropped (state : State P) (d : Dispatch) : List DeliveryEvent :=
  match (dispatchEvent state.sessions state.limits d.event d.io).2 with
  | .ok () => []
  | .error _ => d.rest

/-- The events that leave with a turn: the one that is dispatched, and those that are dropped. -/
def State.leaving (state : State P) (next : Option Dispatch) : List DeliveryEvent :=
  next.elim [] fun d => d.event :: state.dropped d

theorem handleFrame_events (state : State P) (id : PeerId) (nowMs : UInt64) (frame : Frame) :
    (handleFrame state id nowMs frame).pc.events = returned (handleFrame state id nowMs frame).call := by
  cases frame with
  | claim ns headers =>
    simp only [handleFrame]
    split_ifs with hempty
    · rfl
    · rfl
  | message m =>
    simp only [handleFrame, moved_pc]
    cases hresult : (state.broker.beginDelivery id (.message m) nowMs).2 with
    | ok events => rfl
    | error error => rfl
  | acknowledge messageId policy =>
    simp only [handleFrame, moved_pc]
    cases hresult : (state.broker.acknowledge id messageId policy).2 with
    | ok events => rfl
    | error error => rfl
  | _ => rfl

omit [Policy P] in
/-- A dispatch that goes on has sent its event off; one that fails drops the rest. -/
theorem dispatches_conserves (state : State P) (d : Dispatch) {next : Except Failure Unit → Pc}
    (hok : (next (.ok ())).events = d.rest) (herror : ∀ failure, (next (.error failure)).events = []) :
    ((state.dispatches d.event d.io next).pc.events ++ state.leaving (some d)).Perm (d.event :: d.rest) := by
  rw [dispatches_pc]
  show (_ ++ d.event :: state.dropped d).Perm _
  unfold State.dropped
  cases (dispatchEvent state.sessions state.limits d.event d.io).2 with
  | ok =>
    rw [hok]
    exact List.perm_append_singleton _ _
  | error failure =>
    rw [herror]
    exact .refl _

/-- What a call has to dispatch after a step and what leaves with the step, it had before or got from the broker. -/
theorem servePeer_conserves (state : State P) (connection : Connection) (io : Io) (pc : Pc) :
    ((servePeer state connection io pc).pc.events ++ state.leaving (pc.next io.dispatch)).Perm
      (pc.events ++ returned (servePeer state connection io pc).call) := by
  -- most steps have nothing to do with events
  have hnothing : ∀ moved : Moved P, moved.pc.events = [] → moved.call = none →
      (moved.pc.events ++ state.leaving none).Perm ([] ++ returned moved.call) := by
    intro moved hevents hcall
    rw [hevents, hcall]
    exact .refl _
  cases pc with
  | start =>
    simp only [servePeer]
    cases io.credentials with
    | none => exact hnothing _ rfl rfl
    | some credentials => exact hnothing _ rfl rfl
  | awaitHello credentials =>
    simp only [servePeer]
    cases io.received with
    | packet packet =>
      refine hnothing _ ?_ rfl
      simp only [moved_pc, firstFrame]
      split
      · rfl
      · rfl
      · rfl
    | _ => exact hnothing _ rfl rfl
  | connecting credentials hello =>
    simp only [servePeer, moved_pc]
    cases (state.broker.connectSession credentials hello).2 with
    | ok session => exact .refl _
    | error error => exact .refl _
  | rejecting code message => exact hnothing _ (by simp [servePeer, Pc.events]) (sends_call ..)
  | welcoming session =>
    refine hnothing _ ?_ (sends_call ..)
    simp only [servePeer, sends_pc]
    split
    · rfl
    · rfl
  | registering id =>
    simp only [servePeer]
    split_ifs with hcloned
    · exact hnothing _ rfl rfl
    · exact hnothing _ rfl rfl
  | receiving id =>
    refine hnothing _ ?_ rfl
    simp only [servePeer, moved_pc]
    cases io.received with
    | packet packet =>
      simp only [nextFrame]
      split
      · rfl
      · rfl
    | _ => rfl
  | handling id frame =>
    simp only [servePeer, handleFrame_events]
    exact List.perm_append_comm
  | replying id frame =>
    refine hnothing _ ?_ (sends_call ..)
    simp only [servePeer, sends_pc]
    split
    · rfl
    · rfl
  | dispatching id events =>
    cases events with
    | nil => exact hnothing _ rfl rfl
    | cons event rest =>
      refine (dispatches_conserves state ⟨event, rest, io.dispatch⟩ ?_ fun failure => ?_).trans
        (by rw [show returned (servePeer state connection io (.dispatching id (event :: rest))).call = [] from rfl,
          List.append_nil]; exact .refl _)
      · rfl
      · rfl
  | refusing id code message => exact hnothing _ (by simp [servePeer, Pc.events]) (sends_call ..)
  | unregistering id result => exact hnothing _ rfl rfl
  | disconnecting id result =>
    simp only [servePeer, moved_pc]
    cases (state.broker.disconnectWithEvents id).2 with
    | ok events => exact List.perm_append_comm
    | error error => exact .refl _
  | flushing id events result =>
    cases events with
    | nil => exact hnothing _ rfl rfl
    | cons event rest =>
      refine (dispatches_conserves state ⟨event, rest, io.dispatch⟩ ?_ fun failure => ?_).trans
        (by rw [show returned (servePeer state connection io (.flushing id (event :: rest) result)).call = [] from rfl,
          List.append_nil]; exact .refl _)
      · rfl
      · rfl
  | returned assigned result => exact hnothing _ rfl rfl

theorem flatMap_set_perm {α β : Type} (f : α → List β) {l : List α} {n : Nat} {a : α} (b : α)
    (h : l[n]? = some a) : ((l.set n b).flatMap f ++ f a).Perm (l.flatMap f ++ f b) := by
  induction l generalizing n with
  | nil => cases h
  | cons c l ih =>
    cases n with
    | zero =>
      cases h
      rw [List.set_cons_zero, List.flatMap_cons, List.flatMap_cons, List.append_assoc, List.append_assoc]
      exact (List.perm_append_comm_assoc _ _ _).trans ((List.perm_append_comm.append_left _).trans
        (List.perm_append_comm_assoc _ _ _))
    | succ n =>
      rw [List.set_cons_succ, List.flatMap_cons, List.flatMap_cons, List.append_assoc, List.append_assoc]
      exact (ih h).append_left _

/-- Events are neither made up nor forgotten: a turn takes them from the broker, dispatches or drops them. -/
theorem step_conserves (state : State P) (turn : Turn) :
    ((step state turn).1.undispatched ++ state.leaving (state.next turn)).Perm
      (state.undispatched ++ returned (step state turn).2.call) := by
  cases turn with
  | accept =>
    show (state.scheduler ++ (state.threads ++ [Pc.start]).flatMap Pc.events ++ []).Perm (state.undispatched ++ [])
    rw [List.flatMap_append, List.append_nil, List.append_nil]
    show (state.scheduler ++ (state.threads.flatMap Pc.events ++ [])).Perm _
    rw [List.append_nil]
    exact .refl _
  | serve connection io =>
    simp only [step, State.next]
    cases hpc : state.threads[connection]? with
    | none => exact .refl _
    | some pc =>
      have hset := flatMap_set_perm Pc.events (servePeer state connection io pc).pc hpc
      have hmoved := servePeer_conserves state connection io pc
      rw [List.perm_iff_count] at hset hmoved ⊢
      intro event
      have hset := hset event
      have hmoved := hmoved event
      simp only [State.undispatched, List.count_append, Option.bind_some] at hset hmoved ⊢
      omega
  | tick nowMs =>
    simp only [step]
    split_ifs with hidle
    · rw [List.isEmpty_iff] at hidle
      show (_ ++ state.threads.flatMap Pc.events ++ []).Perm (state.undispatched ++ _)
      rw [List.append_nil, State.undispatched, hidle]
      exact List.perm_append_comm
    · exact .refl _
  | dispatch io =>
    simp only [step, State.next]
    cases hscheduler : state.scheduler with
    | nil => exact .refl _
    | cons event rest =>
      rw [List.perm_iff_count]
      intro e
      simp only [State.undispatched, State.leaving, State.dropped, returned, hscheduler, Option.elim_some,
        Option.elim_none, List.count_append, List.count_cons, List.count_nil]
      cases (dispatchEvent state.sessions state.limits event io).2 with
      | ok =>
        simp only [List.count_nil]
        omega
      | error failure =>
        simp only [List.count_nil]
        omega

theorem step_events (state : State P) (turn : Turn) :
    ∀ event ∈ (step state turn).1.undispatched,
      event ∈ state.undispatched ∨ ReturnedBy (step state turn).2.call event := by
  intro event hmem
  have hafter := (step_conserves state turn).mem_iff.mp (List.mem_append_left _ hmem)
  rcases List.mem_append.mp hafter with hold | hnew
  · exact .inl hold
  · exact .inr (returnedBy_of_mem hnew)

/-- Everything on its way was returned by some call of the broker. -/
theorem run_events {broker : Broker P} {limits : FrameLimits} {history : List (Turn × Output)}
    (hrun : Run step (State.initial broker limits) history state) :
    ∀ event ∈ state.undispatched, ∃ call ∈ calls history, event ∈ call.2.events := by
  generalize hstart : State.initial broker limits = start at hrun
  induction hrun with
  | nil =>
    intro event hmem
    subst hstart
    cases hmem
  | @snoc s s' history turn output _ hstep ih =>
    intro event hmem
    have hevents := step_events s turn event
    rw [hstep] at hevents
    rw [calls_snoc]
    rcases hevents hmem with hold | ⟨op, reply, hcall, hnew⟩
    · obtain ⟨call, hmem, hreturned⟩ := ih event hold
      exact ⟨call, List.mem_append_left _ hmem, hreturned⟩
    · exact ⟨(op, reply), List.mem_append_right _ (by rw [hcall]; exact List.mem_singleton_self _), hnew⟩

/-! ## A concrete client -/

/-- An operating system in which every call succeeds, and nothing arrives. -/
def calmIo : Io := ⟨some .default, .closed, true, true, ⟨fun _ => true, fun _ => .delivered⟩, 0⟩

/-- The packet of a frame that encodes. -/
def packetOf (frame : Frame) : List UInt8 :=
  match frame.encodeWithLimits .default with
  | .ok packet => packet
  | .error _ => []

def arrives (connection : Connection) (frame : Frame) : Turn :=
  .serve connection { calmIo with received := .packet (packetOf frame) }

/-- A client without name or headers goes through the handshake. -/
def joins (connection : Connection) : List Turn :=
  [.serve connection calmIo, arrives connection (.hello none ∅ ∅), .serve connection calmIo,
    .serve connection calmIo, .serve connection calmIo]

/-- A client in a session submits a frame, and the daemon hands it to the broker. -/
def submits (connection : Connection) (frame : Frame) : List Turn :=
  [arrives connection frame, .serve connection calmIo]

end Busd.Daemon
