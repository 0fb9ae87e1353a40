import Busd.Client.Bus
import Busd.Protocol.Frames

/-!
# The daemon as one client sees it

The thread of the client's connection takes each packet and runs until it waits for the next one. The calls that
other threads make of the broker meanwhile are given in advance.

* `Server` : the shared broker, and what the thread of the connection does next;
* `Server.turn_step` : a turn of the thread is a step of the daemon;
* `Server.wire` : the daemon as the other end of a connection;
* `Server.serve_control`, `Server.serve_hello` : what becomes of the packets that the client sends.
-/

namespace Busd.Client

open Machine Busd.Protocol Busd.Policy Busd.Broker Busd.Daemon

variable {P : Type} [Policy P]

/-! ## The thread of a connection -/

structure Server (P : Type) where
  limits : FrameLimits
  broker : Broker P
  /-- what the `serve_peer` call of the connection does next -/
  pc : Pc
  /-- the calls that other threads make of the broker before each of the packets to come is handled -/
  others : List (List Op)
  deriving DecidableEq

def answering : Pc → Bool
  | .connecting .. | .rejecting .. | .welcoming .. | .registering .. | .handling .. | .replying ..
  | .refusing .. => true
  | _ => false

def waiting : Pc → Bool
  | .awaitHello _ | .receiving _ => true
  | _ => false

namespace Server

def turn (server : Server P) (io : Io) : Server P × List Received :=
  let moved := servePeer (State.initial server.broker server.limits) 0 io server.pc
  ({ server with broker := moved.broker, pc := moved.pc }, moved.packets.map fun sent => .packet sent.2)

def turns (io : Io) : Nat → Server P → Server P × List Received
  | 0, server => (server, [])
  | fuel + 1, server =>
    if answering server.pc then
      let moved := server.turn io
      let rest := turns io fuel moved.1
      (rest.1, moved.2 ++ rest.2)
    else (server, [])

/-- The thread takes a packet and answers it. The handshake has most turns, three after the one that takes the
packet; when the session is over the connection is closed. -/
def serve (server : Server P) (packet : List UInt8) : Server P × List Received :=
  let io := { calmIo with received := within server.limits (.packet packet) }
  let taken := server.turn io
  let answered := turns io 3 taken.1
  (answered.1, taken.2 ++ answered.2 ++ if waiting answered.1.pc then [] else [.closed])

/-- The server after the calls that other threads make before the next packet is handled. -/
def meanwhile (server : Server P) : Server P :=
  { server with broker := (run exec server.broker (server.others.headD [])).2, others := server.others.tail }

/-- The daemon as the other end of a connection. -/
def wire : Wire (Server P) := fun server packet =>
  if waiting server.pc then some (server.meanwhile.serve packet) else none

end Server

/-! ## A turn of the thread is a step of the daemon -/

/-- Frames that make the daemon dispatch nothing leave the sessions alone. -/
theorem handleFrame_alone (state : State P) (id : PeerId) (nowMs : UInt64) (frame : Frame) :
    let alone := handleFrame (State.initial state.broker state.limits) id nowMs frame
    (handleFrame state id nowMs frame).broker = alone.broker ∧ (handleFrame state id nowMs frame).pc = alone.pc ∧
      (handleFrame state id nowMs frame).packets = alone.packets := by
  cases frame with
  | claim ns headers =>
    simp only [handleFrame]
    split_ifs
    · exact ⟨rfl, rfl, rfl⟩
    · exact ⟨rfl, rfl, rfl⟩
  | _ => exact ⟨rfl, rfl, rfl⟩

omit [Policy P] in
theorem sends_alone (state : State P) (connection : Connection) (limits : FrameLimits) (frame : Frame) (sent : Bool)
    (next : Except Failure Unit → Pc) :
    let alone := (State.initial state.broker state.limits).sends 0 limits frame sent next
    (state.sends connection limits frame sent next).packets.map (fun sent => sent.2) =
      alone.packets.map fun sent => sent.2 := by
  simp only [State.sends]
  cases Daemon.sendFrame limits frame sent with
  | ok packet => rfl
  | error failure => rfl

theorem servePeer_alone (state : State P) (connection : Connection) (io : Io) {pc : Pc}
    (hpc : answering pc = true ∨ waiting pc = true) :
    let alone := servePeer (State.initial state.broker state.limits) 0 io pc
    (servePeer state connection io pc).broker = alone.broker ∧ (servePeer state connection io pc).pc = alone.pc ∧
      (servePeer state connection io pc).packets.map (fun sent => sent.2) =
        alone.packets.map fun sent => sent.2 := by
  cases pc with
  | connecting credentials hello => exact ⟨rfl, rfl, rfl⟩
  | rejecting code message => exact ⟨by simp [servePeer, State.initial], by simp [servePeer], sends_alone ..⟩
  | welcoming session => exact ⟨by simp [servePeer, State.initial], by simp [servePeer, State.initial], sends_alone ..⟩
  | registering id =>
    simp only [servePeer]
    split_ifs
    · exact ⟨rfl, rfl, rfl⟩
    · exact ⟨rfl, rfl, rfl⟩
  | awaitHello credentials =>
    simp only [servePeer]
    cases io.received <;> exact ⟨rfl, rfl, rfl⟩
  | receiving id => exact ⟨rfl, rfl, rfl⟩
  | handling id frame =>
    obtain ⟨hbroker, hpc, hpackets⟩ := handleFrame_alone state id io.nowMs frame
    exact ⟨hbroker, hpc, congrArg _ hpackets⟩
  | replying id frame => exact ⟨by simp [servePeer, State.initial], by simp [servePeer, State.initial], sends_alone ..⟩
  | refusing id code message => exact ⟨by simp [servePeer, State.initial], by simp [servePeer], sends_alone ..⟩
  | _ => rcases hpc with h | h <;> cases h

/-- Whatever else the daemon has to do, its step for a connection does what the turn of the thread does. -/
theorem Server.turn_step {state : State P} {connection : Connection} {io : Io} {pc : Pc}
    (hthread : state.threads[connection]? = some pc) (hpc : answering pc = true ∨ waiting pc = true)
    (others : List (List Op)) :
    let moved := Server.turn ⟨state.limits, state.broker, pc, others⟩ io
    (step state (.serve connection io)).1.broker = moved.1.broker ∧
      (step state (.serve connection io)).1.threads[connection]? = some moved.1.pc ∧
      (step state (.serve connection io)).2.packets.map (fun sent => Received.packet sent.2) = moved.2 := by
  obtain ⟨hbroker, hnext, hpackets⟩ := servePeer_alone state connection io hpc
  have hlt : connection < state.threads.length := (List.getElem?_eq_some_iff.mp hthread).1
  simp only [step, hthread, Server.turn]
  refine ⟨hbroker, ?_, ?_⟩
  · rw [List.getElem?_set_self hlt, hnext]
  · have hmap := congrArg (List.map Received.packet) hpackets
    rwa [List.map_map, List.map_map] at hmap

/-! ## Control operations -/

/-- What the broker does with a control operation of a peer. -/
def Control.apply (broker : Broker P) (peer : PeerId) : Control → Outcome P Unit
  | .claim ns => broker.claim peer ns
  | .subscribe channel filters => broker.subscribeWithFilters peer channel filters
  | .unsubscribe channel => broker.unsubscribe peer channel

def Control.op (peer : PeerId) : Control → Op
  | .claim ns => .claim peer ns
  | .subscribe channel filters => .subscribe peer channel filters
  | .unsubscribe channel => .unsubscribe peer channel

theorem Control.exec_op (broker : Broker P) (peer : PeerId) (control : Control) :
    exec broker (control.op peer) = (control.apply broker peer).map id .completed := by
  cases control <;> rfl

theorem handleFrame_control (state : State P) (id : PeerId) (nowMs : UInt64) (control : Control) :
    (handleFrame state id nowMs control.frame).broker = (control.apply state.broker id).1 ∧
      (handleFrame state id nowMs control.frame).pc =
        .replying id (controlReply control.operation (control.apply state.broker id).2) ∧
      (handleFrame state id nowMs control.frame).packets = [] := by
  cases control with
  | claim ns => exact ⟨rfl, rfl, rfl⟩
  | subscribe channel filters => exact ⟨rfl, rfl, rfl⟩
  | unsubscribe channel => exact ⟨rfl, rfl, rfl⟩

/-- A packet that can be decoded fits into the buffer. -/
theorem within_of_decode {limits : FrameLimits} {packet : List UInt8} {frame : Frame}
    (h : Frame.decodeWithLimits packet limits = .ok frame) : within limits (.packet packet) = .packet packet := by
  obtain ⟨body, -, hsize, -, rfl⟩ := encodeWithLimits_eq_ok.mp (decodeWithLimits_eq_ok.mp h)
  exact if_pos (by rwa [List.length_append, length_commonHeader])

namespace Server

variable {server : Server P} {id : PeerId} {packet : List UInt8}

omit [Policy P] in
@[simp] theorem initial_limits (broker : Broker P) (limits : FrameLimits) :
    (State.initial broker limits).limits = limits := rfl

theorem turns_of_not {io : Io} {fuel : Nat} (h : answering server.pc = false) : turns io fuel server = (server, []) := by
  cases fuel with
  | zero => rfl
  | succ fuel => simp [turns, h]

theorem turns_of {io : Io} {fuel : Nat} {next : Server P} {sent : List Received} (h : answering server.pc = true)
    (hturn : server.turn io = (next, sent)) :
    turns io (fuel + 1) server = ((turns io fuel next).1, sent ++ (turns io fuel next).2) := by
  simp [turns, h, hturn]

theorem turn_control {io : Io} {control : Control} (hpc : server.pc = .handling id control.frame) :
    server.turn io = ({ server with
        broker := (control.apply server.broker id).1
        pc := .replying id (controlReply control.operation (control.apply server.broker id).2) }, []) := by
  obtain ⟨hbroker, hnext, hpackets⟩ := handleFrame_control (State.initial server.broker server.limits) id io.nowMs control
  simp only [turn, hpc, servePeer, hbroker, hnext, hpackets]
  rfl

theorem turn_replying {io : Io} {reply : Frame} (hpc : server.pc = .replying id reply) (hsent : io.sent = true) :
    server.turn io = match reply.encodeWithLimits server.limits with
      | .ok packet => ({ server with pc := .receiving id }, [.packet packet])
      | .error error => ({ server with pc := .unregistering id (.error (.codec error)) }, []) := by
  simp only [turn, hpc, servePeer, State.sends, Daemon.sendFrame, hsent, initial_limits]
  cases reply.encodeWithLimits server.limits with
  | ok packet => rfl
  | error error => rfl

/-- A control operation that reaches the broker, and the reply. -/
theorem serve_control {control : Control} (hpc : server.pc = .receiving id)
    (hdecode : Frame.decodeWithLimits packet server.limits = .ok control.frame) :
    server.serve packet =
      match (controlReply control.operation (control.apply server.broker id).2).encodeWithLimits server.limits with
      | .ok reply => ({ server with broker := (control.apply server.broker id).1 }, [.packet reply])
      | .error error => ({ server with
          broker := (control.apply server.broker id).1
          pc := .unregistering id (.error (.codec error)) }, [.closed]) := by
  obtain ⟨limits, broker, pc, others⟩ := server
  obtain rfl : pc = .receiving id := hpc
  have htaken : turn ⟨limits, broker, .receiving id, others⟩ { calmIo with received := .packet packet } =
      (⟨limits, broker, .handling id control.frame, others⟩, []) := by
    simp only [turn, servePeer, nextFrame, initial_limits, hdecode]
    rfl
  simp only [serve, within_of_decode hdecode, htaken]
  rw [turns_of rfl (turn_control rfl), turns_of rfl (turn_replying rfl rfl)]
  cases (controlReply control.operation (control.apply broker id).2).encodeWithLimits limits with
  | ok reply =>
    simp only
    rw [turns_of_not (by rfl)]
    rfl
  | error error =>
    simp only
    rw [turns_of_not (by rfl)]
    rfl

/-- A packet that the daemon cannot decode, or not even receive, ends the session. -/
theorem serve_undecodable {error : CodecError} (hpc : server.pc = .receiving id)
    (hdecode : Frame.decodeWithLimits packet server.limits = .error error) :
    ∃ far received unread result, server.serve packet = (far, received :: unread) ∧
      far.pc = .unregistering id result := by
  obtain ⟨limits, broker, pc, others⟩ := server
  obtain rfl : pc = .receiving id := hpc
  have htaken : turn ⟨limits, broker, .receiving id, others⟩ { calmIo with received := .packet packet } =
      (⟨limits, broker, .refusing id (codecErrorCode error) (codecErrorText error), others⟩, []) := by
    simp only [turn, servePeer, nextFrame, initial_limits, hdecode]
    rfl
  obtain ⟨result, sent, hrefused⟩ : ∃ result sent,
      turn ⟨limits, broker, .refusing id (codecErrorCode error) (codecErrorText error), others⟩
        { calmIo with received := .packet packet } = (⟨limits, broker, .unregistering id result, others⟩, sent) := by
    simp only [turn, servePeer, sends_pc, sends_broker]
    exact ⟨_, _, rfl⟩
  by_cases hfits : packet.length ≤ limits.maximumFrameSize
  · simp only [serve, within, if_pos hfits, htaken]
    rw [turns_of rfl hrefused, turns_of_not rfl]
    cases sent with
    | nil => exact ⟨_, _, _, result, rfl, rfl⟩
    | cons received sent => exact ⟨_, _, _, result, rfl, rfl⟩
  · simp only [serve, within, if_neg hfits]
    exact ⟨_, _, _, .error .io, rfl, rfl⟩

/-! ## The handshake -/

variable {credentials : Credentials}

theorem turn_welcoming {io : Io} {session : ConnectedPeer} (hpc : server.pc = .welcoming session)
    (hsent : io.sent = true) :
    server.turn io = match (Frame.welcome session.id session.capabilities).encodeWithLimits server.limits with
      | .ok packet => ({ server with pc := .registering session.id }, [.packet packet])
      | .error error => ({ server with pc := .returned (some session.id) (.error (.codec error)) }, []) := by
  simp only [turn, hpc, servePeer, State.sends, Daemon.sendFrame, hsent, initial_limits]
  cases (Frame.welcome session.id session.capabilities).encodeWithLimits server.limits with
  | ok packet => rfl
  | error error => rfl

/-- A `HELLO` that the broker accepts, and the reply. -/
theorem serve_hello {clientId : Option ClientId} {headers : Headers} {capabilities : Capabilities} {broker' : Broker P}
    {session : ConnectedPeer} (hpc : server.pc = .awaitHello credentials)
    (hdecode : Frame.decodeWithLimits packet server.limits = .ok (.hello clientId headers capabilities))
    (hsession : server.broker.connectSession credentials ⟨clientId, headers, capabilities⟩ = (broker', .ok session)) :
    server.serve packet =
      match (Frame.welcome session.id session.capabilities).encodeWithLimits server.limits with
      | .ok reply => ({ server with broker := broker', pc := .receiving session.id }, [.packet reply])
      | .error error => ({ server with
          broker := broker'
          pc := .returned (some session.id) (.error (.codec error)) }, [.closed]) := by
  obtain ⟨limits, broker, pc, others⟩ := server
  obtain rfl : pc = .awaitHello credentials := hpc
  have htaken : turn ⟨limits, broker, .awaitHello credentials, others⟩ { calmIo with received := .packet packet } =
      (⟨limits, broker, .connecting credentials ⟨clientId, headers, capabilities⟩, others⟩, []) := by
    simp only [turn, servePeer, firstFrame, initial_limits, hdecode]
    rfl
  have hadmitted : turn ⟨limits, broker, .connecting credentials ⟨clientId, headers, capabilities⟩, others⟩
      { calmIo with received := .packet packet } = (⟨limits, broker', .welcoming session, others⟩, []) := by
    simp only [turn, servePeer, State.initial, hsession]
    rfl
  simp only [serve, within_of_decode hdecode, htaken]
  rw [turns_of rfl hadmitted, turns_of rfl (turn_welcoming rfl rfl)]
  cases (Frame.welcome session.id session.capabilities).encodeWithLimits limits with
  | ok reply => rfl
  | error error => rfl

/-- What a client gets that the daemon does not admit. -/
def rejection (code : ProtocolErrorCode) (message : String) : List Received :=
  match (Frame.protocolError code message).encodeWithLimits .default with
  | .ok packet => [.packet packet]
  | .error _ => []

theorem turns_rejecting {io : Io} {fuel : Nat} {code : ProtocolErrorCode} {message : String}
    (hpc : server.pc = .rejecting code message) (hsent : io.sent = true) :
    (turns io (fuel + 1) server).2 ++ (if waiting (turns io (fuel + 1) server).1.pc then [] else [.closed]) =
      rejection code message ++ [.closed] := by
  have hturn : ∃ result, server.turn io = ({ server with pc := .returned none result }, rejection code message) := by
    simp only [turn, hpc, servePeer, State.sends, Daemon.sendFrame, hsent, rejection]
    cases (Frame.protocolError code message).encodeWithLimits .default with
    | ok packet => exact ⟨.ok (), rfl⟩
    | error error => exact ⟨.error (.codec error), rfl⟩
  obtain ⟨result, hturn⟩ := hturn
  rw [turns_of (by rw [hpc]; rfl) hturn, turns_of_not rfl, List.append_nil]
  rfl

/-- The first packet is a `HELLO` that the broker accepts, or the client is rejected, or the packet is too long to be
received and the connection is closed. -/
theorem serve_first (hpc : server.pc = .awaitHello credentials) :
    (∃ clientId headers capabilities broker' session,
      Frame.decodeWithLimits packet server.limits = .ok (.hello clientId headers capabilities) ∧
        server.broker.connectSession credentials ⟨clientId, headers, capabilities⟩ = (broker', .ok session)) ∨
      (∃ code message, (server.serve packet).2 = rejection code message ++ [.closed]) ∨
      (server.serve packet).2 = [.closed] := by
  obtain ⟨limits, broker, pc, others⟩ := server
  obtain rfl : pc = .awaitHello credentials := hpc
  have htaken : turn ⟨limits, broker, .awaitHello credentials, others⟩ { calmIo with received := .packet packet } =
      (⟨limits, broker, firstFrame limits credentials packet, others⟩, []) := rfl
  by_cases hfits : packet.length ≤ limits.maximumFrameSize
  swap
  · simp only [serve, within, if_neg hfits]
    exact .inr (.inr rfl)
  simp only [serve, within, if_pos hfits, htaken, List.nil_append]
  generalize hfirst : firstFrame limits credentials packet = first
  unfold firstFrame at hfirst
  split at hfirst
  · next clientId headers capabilities hdecode =>
    subst hfirst
    rcases hsession : broker.connectSession credentials ⟨clientId, headers, capabilities⟩ with ⟨broker', error | session⟩
    · have hrefused : turn ⟨limits, broker, .connecting credentials ⟨clientId, headers, capabilities⟩, others⟩
          { calmIo with received := .packet packet } =
            (⟨limits, broker', .rejecting .invalidState (errorText error), others⟩, []) := by
        simp only [turn, servePeer, State.initial, hsession]
        rfl
      rw [turns_of rfl hrefused]
      exact .inr (.inl ⟨_, _, turns_rejecting rfl rfl⟩)
    · exact .inl ⟨clientId, headers, capabilities, broker', session, hdecode, hsession⟩
  · subst hfirst
    exact .inr (.inl ⟨_, _, turns_rejecting rfl rfl⟩)
  · subst hfirst
    exact .inr (.inl ⟨_, _, turns_rejecting rfl rfl⟩)

end Server

end Busd.Client
