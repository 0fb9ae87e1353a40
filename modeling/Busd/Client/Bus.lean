import Busd.Daemon.Serve

/-!
# The client

`Bus` and `ReconnectingBus` of `bus-client`. A call reads and writes one connection: the queue of what arrived
and was not read yet, and the other end, which a sent packet moves and makes answer. A call that waits for a
packet when the queue is empty has no result.

* `Wire` : what the other end does with a packet;
* `Call` : what a call of the client returns, and how it leaves the connection;
* `Bus.sendControl`, `Bus.resolveNamespace`, `Bus.request` : the calls that wait for a reply;
* `ReconnectingBus.reconnect` : a new session in which every claim and subscription on record is made again.
-/

namespace Busd.Client

open Busd.Protocol Busd.Daemon

/-! ## Connections -/

inductive Error where
  | transport
  | codec (error : CodecError)
  | handshake (message : String)
  | rejected (code : ProtocolErrorCode) (message : String)
  | delivery (outcome : DeliveryOutcome)
  deriving DecidableEq

/-- What becomes of the other end when a packet is sent to it, and what arrives from there before the client
reads again; `none` if the packet cannot be sent. -/
abbrev Wire (σ : Type) := σ → List UInt8 → Option (σ × List Received)

/-- One connection: its other end, and what arrived from there and was not read yet. -/
structure Link (σ : Type) where
  far : σ
  unread : List Received
  deriving DecidableEq

/-- A call of the client on a connection; no result while it waits for a packet. -/
abbrev Call (σ : Type) := ExceptT Error (StateT (Link σ) Option)

section Connection

variable {σ : Type}

/-- `?` on the result of an encoding. -/
def orCodec {α : Type} : Except CodecError α → Call σ α
  | .ok a => pure a
  | .error error => throw (.codec error)

def sendPacket (wire : Wire σ) (packet : List UInt8) : Call σ Unit := fun link =>
  match wire link.far packet with
  | none => some (.error .transport, link)
  | some (far, arrived) => some (.ok (), ⟨far, link.unread ++ arrived⟩)

def sendEncoded (wire : Wire σ) (limits : FrameLimits) (frame : Frame) : Call σ Unit := do
  let packet ← orCodec (frame.encodeWithLimits limits)
  sendPacket wire packet

/-- What `receive_packet` makes of what arrived: a packet longer than its buffer is an error. -/
def within (limits : FrameLimits) : Received → Received
  | .packet packet => if packet.length ≤ limits.maximumFrameSize then .packet packet else .failed
  | received => received

/-- A packet as `receive_frame` returns it: `none` when the broker disconnected. -/
def receivedFrame (limits : FrameLimits) (received : Received) : Except Error (Option Frame) :=
  match within limits received with
  | .packet packet =>
    match Frame.decodeWithLimits packet limits with
    | .ok frame => .ok (some frame)
    | .error error => .error (.codec error)
  | .closed => .ok none
  | .reset | .failed => .error .transport

def receiveFrame (limits : FrameLimits) : Call σ (Option Frame) := fun link =>
  match link.unread with
  | [] => none
  | received :: unread => some (receivedFrame limits received, { link with unread })

/-! ### Calls one after the other -/

variable {α β : Type} {x : Call σ α} {f : α → Call σ β} {link link' : Link σ}

theorem bind_of_ok {a : α} (h : x link = some (.ok a, link')) : (x >>= f) link = f a link' := by
  show (x link).bind _ = _
  rw [h]
  rfl

theorem bind_of_error {error : Error} (h : x link = some (.error error, link')) :
    (x >>= f) link = some (.error error, link') := by
  show (x link).bind _ = _
  rw [h]
  rfl

theorem call_bind_eq_ok {b : β} {last : Link σ} :
    (x >>= f) link = some (.ok b, last) ↔
      ∃ a link', x link = some (.ok a, link') ∧ f a link' = some (.ok b, last) := by
  constructor
  · intro h
    match hx : x link with
    | none =>
      have hbind : (x link).bind _ = some (Except.ok b, last) := h
      rw [hx] at hbind
      cases hbind
    | some (.error error, link') =>
      rw [bind_of_error hx] at h
      cases h
    | some (.ok a, link') =>
      rw [bind_of_ok hx] at h
      exact ⟨a, link', rfl, h⟩
  · rintro ⟨a, link', hx, hf⟩
    rw [bind_of_ok hx, hf]

theorem orCodec_eq_ok {e : Except CodecError α} {a : α} :
    orCodec e link = some (.ok a, link') ↔ e = .ok a ∧ link' = link := by
  cases e with
  | ok a' =>
    show some (Except.ok a', link) = some (Except.ok a, link') ↔ _
    simp [eq_comm]
  | error error =>
    show some (Except.error (Error.codec error), link) = some (Except.ok a, link') ↔ _
    simp

theorem sendPacket_eq_ok {wire : Wire σ} {packet : List UInt8} :
    sendPacket wire packet link = some (.ok (), link') ↔
      ∃ far arrived, wire link.far packet = some (far, arrived) ∧ link' = ⟨far, link.unread ++ arrived⟩ := by
  unfold sendPacket
  cases wire link.far packet with
  | none => simp
  | some moved => simp [Prod.ext_iff, eq_comm]

theorem sendEncoded_eq_ok {wire : Wire σ} {limits : FrameLimits} {frame : Frame} :
    sendEncoded wire limits frame link = some (.ok (), link') ↔
      ∃ packet far arrived, frame.encodeWithLimits limits = .ok packet ∧
        wire link.far packet = some (far, arrived) ∧ link' = ⟨far, link.unread ++ arrived⟩ := by
  unfold sendEncoded
  rw [call_bind_eq_ok]
  constructor
  · rintro ⟨packet, _, hpacket, hsent⟩
    obtain ⟨hencode, rfl⟩ := orCodec_eq_ok.mp hpacket
    obtain ⟨far, arrived, hwire, rfl⟩ := sendPacket_eq_ok.mp hsent
    exact ⟨packet, far, arrived, hencode, hwire, rfl⟩
  · rintro ⟨packet, far, arrived, hencode, hwire, rfl⟩
    exact ⟨packet, link, orCodec_eq_ok.mpr ⟨hencode, rfl⟩, sendPacket_eq_ok.mpr ⟨far, arrived, hwire, rfl⟩⟩

theorem receiveFrame_cons {limits : FrameLimits} {far : σ} {received : Received} {unread : List Received} :
    receiveFrame limits ⟨far, received :: unread⟩ = some (receivedFrame limits received, ⟨far, unread⟩) := rfl

/-- A call that sends a frame and reads one, which it takes for the reply. -/
theorem send_receive {wire : Wire σ} {limits : FrameLimits} {frame : Frame} {answer : Option Frame → Except Error α}
    {far : σ} {received : Received} {unread : List Received}
    (hsend : sendEncoded wire limits frame link = some (.ok (), ⟨far, received :: unread⟩)) :
    (do
      sendEncoded wire limits frame
      let reply ← receiveFrame limits
      liftM (answer reply) : Call σ α) link =
      some ((receivedFrame limits received).bind answer, ⟨far, unread⟩) := by
  rw [bind_of_ok hsend]
  cases hframe : receivedFrame limits received with
  | error error =>
    rw [bind_of_error (show receiveFrame limits ⟨far, received :: unread⟩ = _ by rw [receiveFrame_cons, hframe])]
    rfl
  | ok frame =>
    rw [bind_of_ok (show receiveFrame limits ⟨far, received :: unread⟩ = _ by rw [receiveFrame_cons, hframe])]
    rfl

end Connection

/-! ## `Bus` -/

structure ConnectOptions where
  frameLimits : FrameLimits
  clientId : Option ClientId
  headers : Headers
  capabilities : Capabilities
  deriving DecidableEq

def ConnectOptions.default : ConnectOptions := ⟨.default, none, ∅, ∅⟩

structure Bus where
  frameLimits : FrameLimits
  peerId : PeerId
  capabilities : Capabilities
  deriving DecidableEq

namespace Bus

variable {σ : Type} (wire : Wire σ)

/-- What `connect` makes of the first frame. -/
def welcomeAnswer (limits : FrameLimits) : Option Frame → Except Error Bus
  | none => .error (.handshake "broker disconnected before WELCOME")
  | some (.welcome peerId capabilities) => .ok ⟨limits, peerId, capabilities⟩
  | some (.protocolError code message) => .error (.rejected code message)
  | some _ => .error (.handshake "broker sent a non-WELCOME handshake frame")

/-- Opens a session; `opened` tells whether the socket could be connected. -/
def connect (options : ConnectOptions) (opened : Bool) : Call σ Bus :=
  if opened then do
    sendEncoded wire options.frameLimits (.hello options.clientId options.headers options.capabilities)
    let answer ← receiveFrame options.frameLimits
    liftM (welcomeAnswer options.frameLimits answer)
  else throw .transport

variable (bus : Bus)

def sendFrame (frame : Frame) : Call σ Unit := sendEncoded wire bus.frameLimits frame

/-- What `send_control` makes of the one frame it reads. -/
def controlAnswer (operation : ControlOperation) : Option Frame → Except Error Unit
  | some (.controlResult result) =>
    if result = operation then .ok () else .error (.handshake "broker sent an unexpected control frame")
  | some (.protocolError code message) => .error (.rejected code message)
  | some _ => .error (.handshake "broker sent an unexpected control frame")
  | none => .error (.handshake "broker disconnected during a control operation")

def sendControl (frame : Frame) (operation : ControlOperation) : Call σ Unit := do
  bus.sendFrame wire frame
  let answer ← receiveFrame bus.frameLimits
  liftM (controlAnswer operation answer)

def claimWithHeaders (ns : Namespace) (headers : Headers) : Call σ Unit :=
  bus.sendControl wire (.claim ns headers) .claim

def claim (ns : Namespace) : Call σ Unit := bus.claimWithHeaders wire ns ∅

def subscribe (channel : Channel) (filters : List HeaderFilter) : Call σ Unit :=
  bus.sendControl wire (.subscribe channel filters) .subscribe

def unsubscribe (channel : Channel) : Call σ Unit := bus.sendControl wire (.unsubscribe channel) .unsubscribe

/-- What `resolve_namespace` makes of the one frame it reads. -/
def resolveAnswer (ns : Namespace) : Option Frame → Except Error (Option PeerId)
  | some (.namespaceResolved resolved owner) =>
    if resolved = ns then .ok owner else .error (.handshake "broker sent an unexpected discovery frame")
  | some (.protocolError code message) => .error (.rejected code message)
  | some _ => .error (.handshake "broker sent an unexpected discovery frame")
  | none => .error (.handshake "broker disconnected during namespace resolution")

def resolveNamespace (ns : Namespace) : Call σ (Option PeerId) := do
  bus.sendFrame wire (.resolveNamespace ns)
  let answer ← receiveFrame bus.frameLimits
  liftM (resolveAnswer ns answer)

def sendMessage (message : Frame) : Call σ Unit :=
  match message with
  | .message _ => bus.sendFrame wire message
  | _ => throw (.handshake "send_message requires a MESSAGE frame")

def sendSignal (destination : Destination) (messageId : MessageId) (headers : Headers) (payload : List UInt8) :
    Call σ Unit :=
  bus.sendMessage wire (.message
    { kind := .signal, ackPolicy := .none, ackRequirement := .none, requestPolicy := .exact, deadlineMs := 0,
      retry := .none, destination, messageId, correlationId := .absent, status := .success, headers, payload })

def sendResponse (destination : Destination) (messageId correlationId : MessageId) (status : Status)
    (headers : Headers) (payload : List UInt8) : Call σ Unit :=
  bus.sendMessage wire (.message
    { kind := .response, ackPolicy := .none, ackRequirement := .none, requestPolicy := .exact, deadlineMs := 0,
      retry := .none, destination, messageId, correlationId, status, headers, payload })

def acknowledge (messageId : MessageId) (policy : AckPolicy) : Call σ Unit :=
  bus.sendFrame wire (.acknowledge messageId policy)

/-- One round of the loop of `request`: what the call returns, or that it reads on. -/
def requestAnswer (messageId : MessageId) : Option Frame → Option (Except Error Frame)
  | some (.message m) =>
    if m.kind = .response ∧ m.correlationId = messageId then some (.ok (.message m))
    else some (.error (.handshake "broker sent an unrelated frame during request"))
  | some (.deliveryResult resultId outcome) =>
    if resultId = messageId then
      match outcome with
      | .accepted | .received | .processed => none
      | outcome => some (.error (.delivery outcome))
    else some (.error (.handshake "broker sent an unrelated frame during request"))
  | some (.protocolError code message) => some (.error (.rejected code message))
  | some _ => some (.error (.handshake "broker sent an unrelated frame during request"))
  | none => some (.error (.handshake "broker disconnected during request"))

/-- The loop of `request`, over what arrives: the result, and what it leaves unread. -/
def awaitResponse (limits : FrameLimits) (messageId : MessageId) :
    List Received → Option (Except Error Frame × List Received)
  | [] => none
  | received :: unread =>
    match receivedFrame limits received with
    | .error error => some (.error error, unread)
    | .ok frame =>
      match requestAnswer messageId frame with
      | some answer => some (answer, unread)
      | none => awaitResponse limits messageId unread

def request (message : Frame) : Call σ Frame := do
  match message with
  | .message m =>
    if m.kind = .request then
      bus.sendMessage wire message
      fun link => (awaitResponse bus.frameLimits m.messageId link.unread).map fun r => (r.1, { link with unread := r.2 })
    else throw (.handshake "request requires a REQUEST message")
  | _ => throw (.handshake "request requires a REQUEST message")

def requestMessage (destination : Destination) (messageId : MessageId) (deadlineMs : UInt32) (headers : Headers)
    (payload : List UInt8) : Call σ Frame :=
  bus.request wire (.message
    { kind := .request, ackPolicy := .none, ackRequirement := .none, requestPolicy := .exact, deadlineMs,
      retry := .none, destination, messageId, correlationId := .absent, status := .success, headers, payload })

end Bus

/-- A control operation of a session; a claim comes without metadata. -/
inductive Control where
  | claim (ns : Namespace)
  | subscribe (channel : Channel) (filters : List HeaderFilter)
  | unsubscribe (channel : Channel)
  deriving DecidableEq

def Control.frame : Control → Frame
  | .claim ns => .claim ns ∅
  | .subscribe channel filters => .subscribe channel filters
  | .unsubscribe channel => .unsubscribe channel

def Control.operation : Control → ControlOperation
  | .claim _ => .claim
  | .subscribe .. => .subscribe
  | .unsubscribe _ => .unsubscribe

namespace Bus

variable {σ : Type} {wire : Wire σ} {bus : Bus} {link link' : Link σ}

def perform (wire : Wire σ) (bus : Bus) : Control → Call σ Unit
  | .claim ns => bus.claim wire ns
  | .subscribe channel filters => bus.subscribe wire channel filters
  | .unsubscribe channel => bus.unsubscribe wire channel

theorem perform_eq (control : Control) :
    bus.perform wire control = bus.sendControl wire control.frame control.operation := by
  cases control with
  | claim ns => rfl
  | subscribe channel filters => rfl
  | unsubscribe channel => rfl

end Bus

/-! ## `ReconnectingBus` -/

structure NamespaceClaim where
  ns : Namespace
  headers : Headers
  deriving DecidableEq

structure Subscription where
  channel : Channel
  filters : List HeaderFilter
  deriving DecidableEq

structure ReconnectingBus where
  bus : Bus
  options : ConnectOptions
  claims : List NamespaceClaim
  subscriptions : List Subscription
  deriving DecidableEq

/-! A call returns the client as it is afterwards; a call that fails leaves it as it was. -/

namespace ReconnectingBus

variable {σ : Type} (wire : Wire σ)

def connect (options : ConnectOptions) (opened : Bool) : Call σ ReconnectingBus := do
  return ⟨← Bus.connect wire options opened, options, [], []⟩

variable (client : ReconnectingBus)

def claim (ns : Namespace) (headers : Headers) : Call σ ReconnectingBus := do
  client.bus.claimWithHeaders wire ns headers
  return { client with claims := client.claims ++ [⟨ns, headers⟩] }

def subscribe (channel : Channel) (filters : List HeaderFilter) : Call σ ReconnectingBus := do
  client.bus.subscribe wire channel filters
  return { client with subscriptions := client.subscriptions ++ [⟨channel, filters⟩] }

def unsubscribe (channel : Channel) : Call σ ReconnectingBus := do
  client.bus.unsubscribe wire channel
  return { client with subscriptions := client.subscriptions.filter fun subscription => subscription.channel ≠ channel }

/-- Opens a new session and restores claims and subscriptions in order. The old session is closed only when
this has succeeded. -/
def reconnect (opened : Bool) : Call σ ReconnectingBus := do
  let bus ← Bus.connect wire client.options opened
  client.claims.forM fun claim => bus.claimWithHeaders wire claim.ns claim.headers
  client.subscriptions.forM fun subscription => bus.subscribe wire subscription.channel subscription.filters
  return { client with bus }

def recorded : Control → ReconnectingBus
  | .claim ns => { client with claims := client.claims ++ [⟨ns, ∅⟩] }
  | .subscribe channel filters => { client with subscriptions := client.subscriptions ++ [⟨channel, filters⟩] }
  | .unsubscribe channel =>
    { client with subscriptions := client.subscriptions.filter fun subscription => subscription.channel ≠ channel }

def perform : Control → Call σ ReconnectingBus
  | .claim ns => client.claim wire ns ∅
  | .subscribe channel filters => client.subscribe wire channel filters
  | .unsubscribe channel => client.unsubscribe wire channel

theorem perform_eq (control : Control) :
    client.perform wire control = (do
      client.bus.perform wire control
      return client.recorded control) := by
  cases control with
  | claim ns => rfl
  | subscribe channel filters => rfl
  | unsubscribe channel => rfl

end ReconnectingBus

end Busd.Client
