import Busd.Client.Server

/-!
# From the client to the broker and back

The calls of a client whose connection leads to the daemon. The client and the daemon have frame limits of their
own; a frame gets through when it can be encoded under both.

* `Carried` : a frame that gets through;
* `perform_accepted`, `perform_refused` : a control operation that reaches the broker;
* `perform_cases` : every way a control operation can end, if the session goes on;
* `Opened` : the broker admits the client; `connect_opened`, `opened_of_connect` : then, and only then, `connect`
  succeeds.
-/

namespace Busd.Client

open Words Machine Codec Busd.Protocol Busd.Policy Busd.Broker Busd.Daemon

variable {P : Type} [Policy P]

/-! ## Frames that get through -/

section Frames

variable {limits limits' : FrameLimits} {frame frame' : Frame} {packet : List UInt8}

/-- The frame can be encoded under the limits of both ends, and so be sent and decoded. -/
def Carried (limits limits' : FrameLimits) (frame : Frame) : Prop :=
  ∃ packet, frame.encodeWithLimits limits = .ok packet ∧ frame.encodeWithLimits limits' = .ok packet

theorem carried_of_decode (hencode : frame.encodeWithLimits limits = .ok packet)
    (hdecode : Frame.decodeWithLimits packet limits' = .ok frame') : frame' = frame ∧ Carried limits limits' frame := by
  obtain rfl := decodeWithLimits_unique hencode hdecode
  exact ⟨rfl, packet, hencode, decodeWithLimits_eq_ok.mp hdecode⟩

theorem receivedFrame_of_encode (h : frame.encodeWithLimits limits = .ok packet) :
    receivedFrame limits (.packet packet) = .ok (some frame) := by
  have hdecode := decodeWithLimits_eq_ok.mpr h
  simp only [receivedFrame, within_of_decode hdecode, hdecode]

theorem receivedFrame_undecodable {error : CodecError} (h : Frame.decodeWithLimits packet limits = .error error) :
    ∃ failure, receivedFrame limits (.packet packet) = .error failure := by
  simp only [receivedFrame, within]
  split_ifs with hfits
  · simp only [h]
    exact ⟨_, rfl⟩
  · exact ⟨_, rfl⟩

theorem length_of_pushText {value : String} {c : List UInt8} (h : Emits (pushText value) c) : 2 ≤ c.length := by
  obtain ⟨length, -, h⟩ := emits_lift_bind.mp h
  obtain ⟨c₁, c₂, h₁, -, rfl⟩ := emits_bind.mp h
  rw [emits_tell.mp h₁, List.length_append, length_beBytes]
  omega

theorem Control.size_of_encode {control : Control} (h : control.frame.encodeWithLimits limits = .ok packet) :
    headerSize + 1 ≤ limits.maximumFrameSize := by
  obtain ⟨body, hbody, hsize, -⟩ := encodeWithLimits_eq_ok.mp h
  have hlength : 2 ≤ body.length := by
    cases control with
    | claim ns =>
      obtain ⟨c₁, c₂, hname, -, rfl⟩ := emits_bind.mp hbody
      have := length_of_pushText hname
      rw [List.length_append]
      omega
    | subscribe channel filters =>
      obtain ⟨c₁, c₂, hname, -, rfl⟩ := emits_bind.mp hbody
      have := length_of_pushText (emits_check_bind.mp hname).2
      rw [List.length_append]
      omega
    | unsubscribe channel => exact length_of_pushText (emits_check_bind.mp hbody).2
  omega

theorem controlResult_encodes (h : headerSize + 1 ≤ limits.maximumFrameSize) (operation : ControlOperation) :
    (Frame.controlResult operation).encodeWithLimits limits =
      .ok (commonHeader 8 1 ++ [controlOperationTag operation]) :=
  encodeWithLimits_eq_ok.mpr ⟨[controlOperationTag operation], emits_tell.mpr rfl, h, by simp, rfl⟩

/-- The limits that let a `WELCOME` through do so for any other peer. -/
theorem welcome_encodes {id id' : PeerId} {capabilities : Capabilities}
    (h : (Frame.welcome id capabilities).encodeWithLimits limits = .ok packet) (hid : id'.get ≠ 0) :
    ∃ packet', (Frame.welcome id' capabilities).encodeWithLimits limits = .ok packet' := by
  obtain ⟨body, hbody, hsize, hlt, -⟩ := encodeWithLimits_eq_ok.mp h
  obtain ⟨c₁, c₂, hpeer, hcapabilities, rfl⟩ := emits_bind.mp hbody
  have hc₁ : c₁ = beBytes 8 id.get.toNat := emits_tell.mp (emits_check_bind.mp hpeer).2
  have hlength : (beBytes 8 id'.get.toNat ++ c₂).length = (c₁ ++ c₂).length := by
    rw [hc₁, List.length_append, List.length_append, length_beBytes, length_beBytes]
  have hpeer' : Emits (pushPeerId id') (beBytes 8 id'.get.toNat) :=
    emits_check_bind.mpr ⟨ensure_eq_ok.mpr hid, emits_tell.mpr rfl⟩
  exact ⟨_, encodeWithLimits_eq_ok.mpr ⟨_, emits_bind.mpr ⟨_, _, hpeer', hcapabilities, rfl⟩, by omega, by omega, rfl⟩⟩

theorem Carried.welcome {id id' : PeerId} {capabilities : Capabilities}
    (h : Carried limits limits' (.welcome id capabilities)) (hid : id'.get ≠ 0) :
    Carried limits limits' (.welcome id' capabilities) := by
  obtain ⟨packet, hencode, hencode'⟩ := h
  obtain ⟨welcome, hwelcome⟩ := welcome_encodes hencode hid
  obtain ⟨welcome', hwelcome'⟩ := welcome_encodes hencode' hid
  obtain rfl := encodeWithLimits_unique hwelcome hwelcome'
  exact ⟨welcome, hwelcome, hwelcome'⟩

end Frames

/-! ## Control operations -/

section Controls

variable {bus : Bus} {server : Server P} {id : PeerId} {control : Control} {packet : List UInt8}

theorem wire_of_waiting (h : waiting server.pc = true) :
    Server.wire server packet = some (server.meanwhile.serve packet) := if_pos h

/-- A control operation whose frame the client can encode: it is sent, and the first packet is the answer. -/
theorem perform_of_serve {far : Server P} {received : Received} {unread : List Received}
    (hpc : server.pc = .receiving id) (hencode : control.frame.encodeWithLimits bus.frameLimits = .ok packet)
    (hserve : server.meanwhile.serve packet = (far, received :: unread)) :
    bus.perform Server.wire control ⟨server, []⟩ =
      some ((receivedFrame bus.frameLimits received).bind (Bus.controlAnswer control.operation), ⟨far, unread⟩) := by
  have hwire : Server.wire server packet = some (far, received :: unread) := by
    rw [wire_of_waiting (by rw [hpc]; rfl), hserve]
  have hsend : sendEncoded Server.wire bus.frameLimits control.frame ⟨server, []⟩ =
      some (.ok (), ⟨far, received :: unread⟩) :=
    sendEncoded_eq_ok.mpr ⟨packet, far, received :: unread, hencode, hwire, rfl⟩
  rw [Bus.perform_eq, Bus.sendControl, Bus.sendFrame, send_receive hsend]

def Server.after (server : Server P) (control : Control) (id : PeerId) : Server P :=
  { server.meanwhile with broker := (control.apply server.meanwhile.broker id).1 }

/-- A control operation that gets through to the broker, and the reply to it. -/
theorem serve_carried (hpc : server.pc = .receiving id)
    (hencode : control.frame.encodeWithLimits server.limits = .ok packet) :
    server.meanwhile.serve packet =
      match (controlReply control.operation (control.apply server.meanwhile.broker id).2).encodeWithLimits
        server.limits with
      | .ok reply => (server.after control id, [.packet reply])
      | .error error =>
        ({ server.after control id with pc := .unregistering id (.error (.codec error)) }, [.closed]) := by
  have hpc' : server.meanwhile.pc = .receiving id := hpc
  have hdecode : Frame.decodeWithLimits packet server.meanwhile.limits = .ok control.frame :=
    decodeWithLimits_eq_ok.mpr hencode
  exact Server.serve_control hpc' hdecode

theorem perform_accepted (hpc : server.pc = .receiving id)
    (hcarried : Carried bus.frameLimits server.limits control.frame)
    (hok : (control.apply server.meanwhile.broker id).2 = .ok ()) :
    bus.perform Server.wire control ⟨server, []⟩ = some (.ok (), ⟨server.after control id, []⟩) := by
  obtain ⟨packet, hencode, hencode'⟩ := hcarried
  have hserve := serve_carried hpc hencode'
  rw [hok, controlReply, controlResult_encodes (Control.size_of_encode hencode')] at hserve
  rw [perform_of_serve hpc hencode hserve,
    receivedFrame_of_encode (controlResult_encodes (Control.size_of_encode hencode) control.operation)]
  simp [Except.bind, Bus.controlAnswer]

theorem perform_refused {error : Broker.Error} (hpc : server.pc = .receiving id)
    (hcarried : Carried bus.frameLimits server.limits control.frame)
    (herror : (control.apply server.meanwhile.broker id).2 = .error error) :
    ∃ reason pc, bus.perform Server.wire control ⟨server, []⟩ =
      some (.error reason, ⟨{ server.after control id with pc }, []⟩) := by
  obtain ⟨packet, hencode, hencode'⟩ := hcarried
  have hserve := serve_carried hpc hencode'
  rw [herror, controlReply] at hserve
  cases hreply : (Frame.protocolError (brokerErrorCode error) (errorText error)).encodeWithLimits server.limits with
  | error failure =>
    rw [hreply] at hserve
    rw [perform_of_serve hpc hencode hserve]
    exact ⟨_, _, rfl⟩
  | ok reply =>
    rw [hreply] at hserve
    rw [perform_of_serve hpc hencode hserve]
    -- the client may not be able to decode the reason
    cases hdecode : Frame.decodeWithLimits reply bus.frameLimits with
    | error failure =>
      obtain ⟨reason, hreason⟩ := receivedFrame_undecodable hdecode
      rw [hreason]
      exact ⟨_, _, rfl⟩
    | ok frame =>
      obtain rfl := (carried_of_decode hreply hdecode).1
      rw [receivedFrame_of_encode (decodeWithLimits_eq_ok.mp hdecode)]
      exact ⟨_, _, rfl⟩

/-- Every way a control operation can end, if the session goes on: its frame is not sent, or the broker accepts
it, or the broker refuses it. -/
theorem perform_cases {result : Except Error Unit} {link : Link (Server P)} (hpc : server.pc = .receiving id)
    (hperform : bus.perform Server.wire control ⟨server, []⟩ = some (result, link))
    (hstays : link.far.pc = .receiving id) :
    (∃ reason, result = .error reason ∧ link = ⟨server, []⟩) ∨
      Carried bus.frameLimits server.limits control.frame ∧ link = ⟨server.after control id, []⟩ ∧
        ((control.apply server.meanwhile.broker id).2 = .ok () ∧ result = .ok () ∨
          (∃ error, (control.apply server.meanwhile.broker id).2 = .error error) ∧ ∃ reason, result = .error reason) := by
  cases hencode : control.frame.encodeWithLimits bus.frameLimits with
  | error failure =>
    have hsend : sendEncoded Server.wire bus.frameLimits control.frame ⟨server, []⟩ =
        some (.error (.codec failure), ⟨server, []⟩) := by
      unfold sendEncoded
      rw [hencode]
      rfl
    rw [Bus.perform_eq, Bus.sendControl, Bus.sendFrame, bind_of_error hsend] at hperform
    cases hperform
    exact .inl ⟨_, rfl, rfl⟩
  | ok packet =>
    cases hdecode : Frame.decodeWithLimits packet server.limits with
    | error failure =>
      -- the daemon ends the session
      have hpc' : server.meanwhile.pc = .receiving id := hpc
      have hdecode' : Frame.decodeWithLimits packet server.meanwhile.limits = .error failure := hdecode
      obtain ⟨far, received, unread, result, hserve, hover⟩ := Server.serve_undecodable hpc' hdecode'
      rw [perform_of_serve hpc hencode hserve] at hperform
      cases hperform
      rw [hover] at hstays
      cases hstays
    | ok frame =>
      obtain ⟨rfl, hcarried⟩ := carried_of_decode hencode hdecode
      refine .inr ⟨hcarried, ?_⟩
      cases happly : (control.apply server.meanwhile.broker id).2 with
      | ok u =>
        rw [perform_accepted hpc hcarried happly] at hperform
        cases hperform
        exact ⟨rfl, .inl ⟨rfl, rfl⟩⟩
      | error error =>
        obtain ⟨reason, pc, hrefused⟩ := @perform_refused P _ bus server id control error hpc hcarried happly
        rw [hrefused] at hperform
        cases hperform
        obtain rfl : pc = .receiving id := hstays
        refine ⟨?_, .inr ⟨⟨error, rfl⟩, reason, rfl⟩⟩
        rw [← hpc]
        rfl

end Controls

/-! ## The handshake -/

section Handshake

variable {options : ConnectOptions} {server : Server P} {credentials : Credentials} {packet : List UInt8}

def ConnectOptions.hello (options : ConnectOptions) : ClientHello :=
  ⟨options.clientId, options.headers, options.capabilities⟩

def ConnectOptions.frame (options : ConnectOptions) : Frame :=
  .hello options.clientId options.headers options.capabilities

theorem connect_of_serve {far : Server P} {received : Received} {unread : List Received}
    (hpc : server.pc = .awaitHello credentials)
    (hencode : options.frame.encodeWithLimits options.frameLimits = .ok packet)
    (hserve : server.meanwhile.serve packet = (far, received :: unread)) :
    Bus.connect Server.wire options true ⟨server, []⟩ =
      some ((receivedFrame options.frameLimits received).bind (Bus.welcomeAnswer options.frameLimits),
        ⟨far, unread⟩) := by
  have hwire : Server.wire server packet = some (far, received :: unread) := by
    rw [wire_of_waiting (by rw [hpc]; rfl), hserve]
  have hsend : sendEncoded Server.wire options.frameLimits options.frame ⟨server, []⟩ =
      some (.ok (), ⟨far, received :: unread⟩) :=
    sendEncoded_eq_ok.mpr ⟨packet, far, received :: unread, hencode, hwire, rfl⟩
  exact send_receive hsend

/-- The session that the broker opens for a client, as both ends know it. -/
structure Opened (server : Server P) (options : ConnectOptions) (credentials : Credentials) (broker : Broker P)
    (session : ConnectedPeer) : Prop where
  hello : Carried options.frameLimits server.limits options.frame
  admitted : server.meanwhile.broker.connectSession credentials options.hello = (broker, .ok session)
  welcome : Carried server.limits options.frameLimits (.welcome session.id session.capabilities)

theorem connect_opened {broker : Broker P} {session : ConnectedPeer} (hpc : server.pc = .awaitHello credentials)
    (h : Opened server options credentials broker session) :
    Bus.connect Server.wire options true ⟨server, []⟩ =
      some (.ok ⟨options.frameLimits, session.id, session.capabilities⟩,
        ⟨{ server.meanwhile with broker, pc := .receiving session.id }, []⟩) := by
  obtain ⟨packet, hencode, hencode'⟩ := h.hello
  obtain ⟨reply, hwelcome, hwelcome'⟩ := h.welcome
  have hpc' : server.meanwhile.pc = .awaitHello credentials := hpc
  have hdecode : Frame.decodeWithLimits packet server.meanwhile.limits = .ok options.frame :=
    decodeWithLimits_eq_ok.mpr hencode'
  have hserve := Server.serve_hello hpc' hdecode h.admitted
  rw [show server.meanwhile.limits = server.limits from rfl, hwelcome] at hserve
  rw [connect_of_serve hpc hencode hserve, receivedFrame_of_encode hwelcome']
  rfl

theorem connect_closed {bus : Bus} {link : Link (Server P)} (hpc : server.pc = .awaitHello credentials)
    (hencode : options.frame.encodeWithLimits options.frameLimits = .ok packet)
    (hclosed : (server.meanwhile.serve packet).2 = [.closed]) :
    Bus.connect Server.wire options true ⟨server, []⟩ ≠ some (.ok bus, link) := by
  intro h
  have hserve : server.meanwhile.serve packet = ((server.meanwhile.serve packet).1, [.closed]) := by rw [← hclosed]
  rw [connect_of_serve hpc hencode hserve] at h
  cases h

/-- Whatever the client makes of a rejection, it is no `WELCOME`. -/
theorem connect_rejected {code : ProtocolErrorCode} {message : String} {bus : Bus} {link : Link (Server P)}
    (hpc : server.pc = .awaitHello credentials)
    (hencode : options.frame.encodeWithLimits options.frameLimits = .ok packet)
    (hrejected : (server.meanwhile.serve packet).2 = Server.rejection code message ++ [.closed]) :
    Bus.connect Server.wire options true ⟨server, []⟩ ≠ some (.ok bus, link) := by
  intro h
  have hserve : server.meanwhile.serve packet =
      ((server.meanwhile.serve packet).1, Server.rejection code message ++ [.closed]) := by
    rw [← hrejected]
  unfold Server.rejection at hserve
  cases hreply : (Frame.protocolError code message).encodeWithLimits .default with
  | error failure =>
    rw [hreply] at hserve
    rw [connect_of_serve hpc hencode hserve] at h
    cases h
  | ok reply =>
    rw [hreply] at hserve
    rw [connect_of_serve hpc hencode hserve] at h
    cases hdecode : Frame.decodeWithLimits reply options.frameLimits with
    | error failure =>
      obtain ⟨reason, hreason⟩ := receivedFrame_undecodable hdecode
      rw [hreason] at h
      cases h
    | ok frame =>
      obtain rfl := (carried_of_decode hreply hdecode).1
      rw [receivedFrame_of_encode (decodeWithLimits_eq_ok.mp hdecode)] at h
      cases h

/-- A session is opened only by a broker that admits the client, and when both frames of the handshake get
through. -/
theorem opened_of_connect {bus : Bus} {link : Link (Server P)} (hpc : server.pc = .awaitHello credentials)
    (h : Bus.connect Server.wire options true ⟨server, []⟩ = some (.ok bus, link)) :
    ∃ broker session, Opened server options credentials broker session := by
  have hpc' : server.meanwhile.pc = .awaitHello credentials := hpc
  cases hencode : options.frame.encodeWithLimits options.frameLimits with
  | error failure =>
    have hsend : sendEncoded Server.wire options.frameLimits options.frame ⟨server, []⟩ =
        some (.error (.codec failure), ⟨server, []⟩) := by
      unfold sendEncoded
      rw [hencode]
      rfl
    have hconnect : Bus.connect Server.wire options true ⟨server, []⟩ = _ := bind_of_error hsend
    rw [hconnect] at h
    cases h
  | ok packet =>
    rcases @Server.serve_first P _ server.meanwhile packet credentials hpc' with
      ⟨clientId, headers, capabilities, broker, session, hdecode, hadmitted⟩ |
        ⟨code, message, hrejected⟩ | hclosed
    · obtain ⟨hsame, hcarried⟩ := carried_of_decode hencode hdecode
      cases hsame
      refine ⟨broker, session, hcarried, hadmitted, ?_⟩
      have hserve := Server.serve_hello hpc' hdecode hadmitted
      cases hwelcome : (Frame.welcome session.id session.capabilities).encodeWithLimits server.meanwhile.limits with
      | error failure =>
        rw [hwelcome] at hserve
        rw [connect_of_serve hpc hencode hserve] at h
        cases h
      | ok reply =>
        rw [hwelcome] at hserve
        rw [connect_of_serve hpc hencode hserve] at h
        cases hreply : Frame.decodeWithLimits reply options.frameLimits with
        | error failure =>
          obtain ⟨reason, hreason⟩ := receivedFrame_undecodable hreply
          rw [hreason] at h
          cases h
        | ok frame => exact (carried_of_decode hwelcome hreply).2
    · exact absurd h (connect_rejected hpc hencode hrejected)
    · exact absurd h (connect_closed hpc hencode hclosed)

end Handshake

end Busd.Client
