import Busd.Broker.Routing
import Busd.Daemon.Serve
import Busd.Protocol.Errors
import Busd.Protocol.WellFormed

/-!
# Whether a peer gets its answer

A session ends when the daemon cannot encode what it has to tell its own peer. The texts of the errors name peers,
namespaces, messages and headers, and are bounded; so is everything else that a thread answers.

* `codecErrorText_short`, `errorText_short` : the texts of the errors that can occur;
* `Pc.Ready` : what a thread carries with it fits into an answer, kept by `servePeer_ready`;
* `answers_sent` : whatever a thread has to tell its own peer is encoded, and sent if the connection takes it.
-/

namespace Busd.Daemon

open Words Machine Codec Busd.Protocol Busd.Policy Busd.Broker

variable {P : Type} {state : State P}

/-! ## Texts -/

/-- The text fits into an error frame of 1024 bytes. -/
def shortText (text : String) : Prop := (utf8Bytes text).length ≤ 1000

instance (text : String) : Decidable (shortText text) := inferInstanceAs (Decidable (_ ≤ _))

theorem length_hexText (flags : UInt16) : (utf8Bytes (hexText flags)).length ≤ 24 := by
  have hdigits : (Nat.toDigits 16 flags.toNat).length ≤ 4 :=
    Nat.toDigits_length 16 flags.toNat 4 (by decide) flags.toNat_lt
  refine (length_utf8Bytes_le _).trans ?_
  simp only [hexText, String.length_append, String.length_ofList, List.length_append, List.length_replicate]
  have hzero : "0x".length = 2 := by decide
  omega

theorem length_byteText (byte : UInt8) : (utf8Bytes (toString byte.toNat)).length ≤ 12 :=
  length_utf8Bytes_toString 3 (by decide) (byte.toNat_lt.trans (by decide))

theorem length_peerLabel (peer : PeerId) : (utf8Bytes (peerLabel peer)).length ≤ 81 :=
  length_utf8Bytes_append_le (by decide : (utf8Bytes ":").length ≤ 1)
    (length_utf8Bytes_toString 20 (by decide) (peer.get.toNat_lt.trans (by decide)))

theorem length_messageIdText (id : MessageId) : (utf8Bytes (messageIdText id)).length ≤ 237 := by
  have hbytes : ∀ part ∈ id.asBytes.map fun byte => toString byte.toNat, (utf8Bytes part).length ≤ 12 := by
    intro part hpart
    obtain ⟨byte, -, rfl⟩ := List.mem_map.mp hpart
    exact length_byteText byte
  have hlist := length_utf8Bytes_intercalate ", " hbytes
  rw [List.length_map, id.length_eq] at hlist
  exact (length_utf8Bytes_append_le (length_utf8Bytes_append_le le_rfl hlist) le_rfl).trans (by decide)

theorem codecErrorText_short {e : CodecError} (h : e.Brief) : shortText (codecErrorText e) := by
  cases e with
  | unsupportedVersion version => exact (length_utf8Bytes_append_le le_rfl (length_byteText version)).trans (by decide)
  | unknownFrameKind kind => exact (length_utf8Bytes_append_le le_rfl (length_byteText kind)).trans (by decide)
  | reservedFlags flags => exact (length_utf8Bytes_append_le le_rfl (length_hexText flags)).trans (by decide)
  | limitExceeded name =>
    exact (length_utf8Bytes_append_le (length_utf8Bytes_append_le le_rfl h) le_rfl).trans (by decide)
  | invalidValue name => exact (length_utf8Bytes_append_le le_rfl h).trans (by decide)
  | nonCanonical name => exact (length_utf8Bytes_append_le le_rfl h).trans (by decide)
  | invalidName error => cases error <;> decide
  | _ => decide

/-- The error carries nothing long. -/
def PlainError : Broker.Error → Prop
  | .reservedHeader header => (utf8Bytes header).length ≤ 255
  | .dbusNameAlreadyOwned .. | .invalidDbusName _ => False
  | _ => True

theorem errorText_short {e : Broker.Error} (h : PlainError e) : shortText (errorText e) := by
  cases e with
  | unknownPeer peer => exact (length_utf8Bytes_append_le le_rfl (length_peerLabel peer)).trans (by decide)
  | namespaceAlreadyOwned ns owner =>
    have hns := length_utf8Bytes_append_le (le_refl (utf8Bytes "namespace ").length) (length_namespace ns)
    exact (length_utf8Bytes_append_le (length_utf8Bytes_append_le hns le_rfl) (length_peerLabel owner)).trans
      (by decide)
  | reservedHeader header =>
    exact (length_utf8Bytes_append_le (length_utf8Bytes_append_le le_rfl h) le_rfl).trans (by decide)
  | duplicateMessage id =>
    exact (length_utf8Bytes_append_le (length_utf8Bytes_append_le le_rfl (length_messageIdText id)) le_rfl).trans
      (by decide)
  | unknownDelivery id => exact (length_utf8Bytes_append_le le_rfl (length_messageIdText id)).trans (by decide)
  | unexpectedAcknowledgement id =>
    exact (length_utf8Bytes_append_le le_rfl (length_messageIdText id)).trans (by decide)
  | unexpectedResponse id => exact (length_utf8Bytes_append_le le_rfl (length_messageIdText id)).trans (by decide)
  | limitExceeded limit => cases limit <;> decide
  | dbusNameAlreadyOwned name owner => exact h.elim
  | invalidDbusName name => exact h.elim
  | denied action => exact (by decide : shortText "operation denied by policy")
  | _ => decide

/-! ## Errors of the broker -/

def FailsPlainly {α : Type} (outcome : Outcome P α) : Prop := ∀ e, outcome.2 = .error e → PlainError e

section Operations

variable {α β : Type} {broker : Broker P}

theorem failsPlainly_ok (a : α) : FailsPlainly (broker, .ok a) := fun _ h => by cases h

theorem failsPlainly_error {e : Broker.Error} (h : PlainError e) :
    FailsPlainly ((broker, .error e) : Outcome P α) := by
  intro _ he
  cases he
  exact h

theorem orReturn_failsPlainly {x : Except Broker.Error α} {next : α → Outcome P β}
    (hx : ∀ e, x = .error e → PlainError e) (hnext : ∀ a, FailsPlainly (next a)) :
    FailsPlainly (broker.orReturn x next) := by
  cases x with
  | error e => exact failsPlainly_error (hx e rfl)
  | ok a => exact hnext a

theorem credentials_plain {peer : PeerId} {e : Broker.Error} (h : broker.credentials peer = .error e) :
    PlainError e := by
  unfold credentials at h
  split at h
  · cases h
  · cases h
    trivial

section Refusals

variable [Policy P]

theorem authorize_plain {peer : PeerId} {action : Action} {e : Broker.Error}
    (h : broker.authorize peer action = .error e) : PlainError e := by
  unfold authorize at h
  split at h
  · cases h
    trivial
  · split_ifs at h
    cases h
    trivial

theorem find?_reserved_plain {headers : Headers} {p : String → Bool} {e : Broker.Error}
    (hnames : ∀ name ∈ headers.keys, (utf8Bytes name).length ≤ 255)
    (h : (match headers.keys.find? p with
      | some name => Except.error (Broker.Error.reservedHeader name)
      | none => Except.ok ()) = .error e) : PlainError e := by
  split at h
  · next name hfind =>
    cases h
    exact hnames name (List.mem_of_find?_eq_some hfind)
  · cases h

theorem messagePriority_plain {headers : Headers} {e : Broker.Error} (h : messagePriority headers = .error e) :
    PlainError e := by
  unfold messagePriority at h
  split at h
  · cases h
  · split_ifs at h
    cases h
    trivial
  · cases h
    trivial

theorem candidates_plain {sender : PeerId} {destination : Destination} {headers : Headers} {e : Broker.Error}
    (h : broker.candidates sender destination headers = .error e) : PlainError e := by
  cases destination with
  | broker =>
    cases h
    trivial
  | _ =>
    rcases error_of_bind h with hauthorize | ⟨_, -, hrest⟩
    · exact authorize_plain hauthorize
    · cases hrest

theorem route_plain {sender : PeerId} {destination : Destination} {headers : Headers} {e : Broker.Error}
    (h : broker.route sender destination headers = .error e) : PlainError e := by
  rcases error_of_bind h with hcredentials | ⟨_, -, h⟩
  · exact credentials_plain hcredentials
  rcases error_of_bind h with hcandidates | ⟨recipients, -, h⟩
  · exact candidates_plain hcandidates
  · split_ifs at h
    · cases h
    · cases h
      trivial
    · cases h

omit [Policy P] in
theorem ensureDeliveryCapacity_plain {sender : PeerId} {message : Frame} {request : Bool} {e : Broker.Error}
    (h : broker.ensureDeliveryCapacity sender message request = .error e) : PlainError e := by
  unfold ensureDeliveryCapacity at h
  dsimp only at h
  split_ifs at h
  all_goals
    cases h
    trivial

theorem connectSession_failsPlainly (broker : Broker P) (credentials : Credentials) {hello : ClientHello}
    (hnames : ∀ name ∈ hello.headers.keys, (utf8Bytes name).length ≤ 255) :
    FailsPlainly (broker.connectSession credentials hello) := by
  refine orReturn_failsPlainly (fun e => find?_reserved_plain hnames) fun _ => ?_
  refine orReturn_failsPlainly (fun e h => ?_) fun _ => ?_
  · unfold authorizeHello at h
    split_ifs at h
    cases h
    trivial
  · split
    · exact failsPlainly_error trivial
    · exact failsPlainly_ok _

theorem connectSession_session {credentials : Credentials} {hello : ClientHello} {session : ConnectedPeer}
    (h : (broker.connectSession credentials hello).2 = .ok session) :
    session.id = .new broker.nextPeer ∧
      session.capabilities = OrdSet.intersection broker.capabilities hello.capabilities := by
  generalize hconnect : broker.connectSession credentials hello = outcome at h
  rcases orReturn_cases hconnect with ⟨_, -, rfl⟩ | ⟨_, -, hconnect⟩
  · cases h
  rcases orReturn_cases hconnect with ⟨_, -, rfl⟩ | ⟨_, -, hconnect⟩
  · cases h
  split at hconnect
  · subst hconnect
    cases h
  · subst hconnect
    cases h
    exact ⟨rfl, rfl⟩

theorem claim_failsPlainly (broker : Broker P) (peer : PeerId) (ns : Namespace) :
    FailsPlainly (broker.claim peer ns) := by
  refine orReturn_failsPlainly (fun e => authorize_plain) fun _ => ?_
  split_ifs
  · exact failsPlainly_error trivial
  · split
    · exact failsPlainly_error trivial
    · exact failsPlainly_ok _

theorem subscribeWithFilters_failsPlainly (broker : Broker P) (peer : PeerId) (channel : Channel)
    (filters : List HeaderFilter) : FailsPlainly (broker.subscribeWithFilters peer channel filters) := by
  refine orReturn_failsPlainly (fun e => authorize_plain) fun _ => ?_
  split_ifs
  · exact failsPlainly_error trivial
  · exact failsPlainly_ok _

end Refusals

theorem unsubscribe_failsPlainly (broker : Broker P) (peer : PeerId) (channel : Channel) :
    FailsPlainly (broker.unsubscribe peer channel) := by
  refine orReturn_failsPlainly (fun e => credentials_plain) fun _ => ?_
  split
  · exact failsPlainly_ok _
  · exact failsPlainly_ok _

theorem acknowledge_failsPlainly [Policy P] (broker : Broker P) (peer : PeerId) (messageId : MessageId)
    (policy : AckPolicy) :
    FailsPlainly (broker.acknowledge peer messageId policy) := by
  refine orReturn_failsPlainly (fun e => authorize_plain) fun _ => ?_
  split
  · exact failsPlainly_error trivial
  · split
    · split
      · exact failsPlainly_error trivial
      · split
        · exact failsPlainly_error trivial
        · dsimp only
          split_ifs
          all_goals exact failsPlainly_ok _
    · exact failsPlainly_error trivial

theorem completeResponse_failsPlainly (broker : Broker P) (sender : PeerId) (message : Frame) :
    FailsPlainly (broker.completeResponse sender message) := by
  unfold completeResponse
  split
  · split
    · exact failsPlainly_error trivial
    · split
      · split_ifs
        · exact failsPlainly_error trivial
        · exact failsPlainly_error trivial
        · exact failsPlainly_ok _
      · exact failsPlainly_error trivial
  · exact failsPlainly_error trivial

theorem deliverRouted_failsPlainly (broker : Broker P) (sender : PeerId) (m : Message) (recipients : OrdSet PeerId)
    (priority : UInt8) (nowMs : UInt64) : FailsPlainly (broker.deliverRouted sender m recipients priority nowMs) := by
  unfold deliverRouted
  dsimp only
  split
  · exact failsPlainly_ok _
  · split
    · exact failsPlainly_ok _
    · split
      · refine orReturn_failsPlainly (fun e => ensureDeliveryCapacity_plain) fun _ => ?_
        split
        · exact failsPlainly_error trivial
        · exact failsPlainly_ok _
      · exact failsPlainly_ok _

theorem beginDelivery_failsPlainly [Policy P] (broker : Broker P) (sender : PeerId) {m : Message} (nowMs : UInt64)
    (hnames : ∀ name ∈ m.headers.keys, (utf8Bytes name).length ≤ 255) :
    FailsPlainly (broker.beginDelivery sender (.message m) nowMs) := by
  refine orReturn_failsPlainly (fun e => credentials_plain) fun _ => ?_
  refine orReturn_failsPlainly (fun e => find?_reserved_plain hnames) fun _ => ?_
  refine orReturn_failsPlainly (fun e => messagePriority_plain) fun priority => ?_
  split_ifs
  · exact completeResponse_failsPlainly broker sender _
  · exact failsPlainly_error trivial
  · split
    · exact deliverRouted_failsPlainly broker sender m _ priority nowMs
    · exact failsPlainly_ok _
    · next e _ hroute => exact failsPlainly_error (route_plain hroute)

end Operations

/-! ## What a thread carries with it -/

/-- The frame can be encoded under any limits that allow frames of 1024 bytes. -/
def SmallFrame (limits : FrameLimits) (frame : Frame) : Prop :=
  frame.WellFormed limits ∧ headerSize + frame.bodySize ≤ 1024

/-- What the thread knows is enough for its answers to be encoded. -/
def Pc.Ready (limits : FrameLimits) : Pc → Prop
  | .connecting _ hello => ∀ name ∈ hello.headers.keys, (utf8Bytes name).length ≤ 255
  | .handling _ frame => frame.WellFormed limits
  | .rejecting _ message | .refusing _ _ message => shortText message
  | .welcoming session => session.id.get ≠ 0 ∧ session.capabilities = ∅
  | .replying _ frame => SmallFrame limits frame
  | _ => True

theorem smallFrame_protocolError {limits : FrameLimits} (code : ProtocolErrorCode) {message : String}
    (h : shortText message) : SmallFrame limits (.protocolError code message) := by
  unfold shortText at h
  refine ⟨h.trans_lt (by decide), ?_⟩
  simp only [Frame.bodySize, textSize, headerSize]
  omega

theorem smallFrame_controlReply {limits : FrameLimits} (operation : ControlOperation)
    {outcome : Outcome P Unit} (h : FailsPlainly outcome) :
    SmallFrame limits (controlReply operation outcome.2) := by
  cases hresult : outcome.2 with
  | ok _ => exact ⟨trivial, by simp only [controlReply, Frame.bodySize, headerSize]; omega⟩
  | error e => exact smallFrame_protocolError _ (errorText_short (h e hresult))

theorem smallFrame_namespaceResolved {limits : FrameLimits} (h : Integrity state.broker) (ns : Namespace) :
    SmallFrame limits (.namespaceResolved ns (state.broker.namespaceOwner ns)) := by
  refine ⟨fun owner howner => ?_, ?_⟩
  · obtain ⟨peer, hpeer⟩ := OrdMap.contains_iff.mp (h.namespace ns owner howner)
    have hpos := (h.peer owner peer hpeer).2.1
    intro hzero
    rw [hzero] at hpos
    exact absurd hpos (by decide)
  · have hns := length_namespace ns
    cases state.broker.namespaceOwner ns with
    | none =>
      simp only [Frame.bodySize, textSize, optionSize, headerSize]
      omega
    | some owner =>
      simp only [Frame.bodySize, textSize, optionSize, headerSize]
      omega

theorem wellFormed_of_decode {limits : FrameLimits} {packet : List UInt8} {frame : Frame}
    (h : Frame.decodeWithLimits packet limits = .ok frame) : frame.WellFormed limits :=
  ((exists_encodeWithLimits frame limits).mp ⟨packet, decodeWithLimits_eq_ok.mp h⟩).1

theorem names_of_headersFit {limits : FrameLimits} {headers : Headers} (h : HeadersFit limits headers) :
    ∀ name ∈ headers.keys, (utf8Bytes name).length ≤ 255 := by
  intro name hname
  obtain ⟨e, he, rfl⟩ := List.mem_map.mp hname
  exact length_of_validateName (h.entries e he).1

theorem firstFrame_ready (limits : FrameLimits) (credentials : Credentials) (packet : List UInt8) :
    (firstFrame limits credentials packet).Ready limits := by
  unfold firstFrame
  split
  · next hdecode => exact names_of_headersFit (wellFormed_of_decode hdecode).1
  · exact (by decide : shortText "HELLO must be the first frame")
  · next hdecode => exact codecErrorText_short (decodeWithLimits_brief hdecode)

theorem nextFrame_ready (limits : FrameLimits) (id : PeerId) (received : Received) :
    (nextFrame limits id received).Ready limits := by
  cases received with
  | packet packet =>
    simp only [nextFrame]
    split
    · next hdecode => exact wellFormed_of_decode hdecode
    · next hdecode => exact codecErrorText_short (decodeWithLimits_brief hdecode)
  | _ => trivial

variable [Policy P]

theorem handleFrame_ready (hintegrity : Integrity state.broker) (id : PeerId) (nowMs : UInt64) {frame : Frame}
    (h : frame.WellFormed state.limits) : (handleFrame state id nowMs frame).pc.Ready state.limits := by
  cases frame with
  | claim ns headers =>
    simp only [handleFrame]
    split_ifs
    · exact smallFrame_controlReply _ (claim_failsPlainly state.broker id ns)
    · exact (by decide : shortText "claim metadata is not supported in this phase")
  | subscribe channel filters =>
    exact smallFrame_controlReply _ (subscribeWithFilters_failsPlainly state.broker id channel filters)
  | unsubscribe channel => exact smallFrame_controlReply _ (unsubscribe_failsPlainly state.broker id channel)
  | resolveNamespace ns => exact smallFrame_namespaceResolved hintegrity ns
  | message m =>
    have hplain := beginDelivery_failsPlainly state.broker id nowMs (names_of_headersFit h.headers)
    simp only [handleFrame]
    split
    · trivial
    · next e herror => exact smallFrame_protocolError _ (errorText_short (hplain e herror))
  | acknowledge messageId policy =>
    have hplain := acknowledge_failsPlainly state.broker id messageId policy
    simp only [handleFrame]
    split
    · trivial
    · next e herror => exact smallFrame_protocolError _ (errorText_short (hplain e herror))
  | hello _ _ _ => exact (by decide : shortText "HELLO was already received")
  | _ => exact (by decide : shortText "frame is not valid for a client session")

theorem servePeer_ready (hintegrity : Integrity state.broker) (hcapabilities : state.broker.capabilities = ∅)
    (connection : Connection) (io : Io) {pc : Pc} (h : pc.Ready state.limits) :
    (servePeer state connection io pc).pc.Ready state.limits := by
  cases pc with
  | start =>
    simp only [servePeer]
    split <;> trivial
  | awaitHello credentials =>
    simp only [servePeer]
    split
    · exact firstFrame_ready _ _ _
    all_goals trivial
  | connecting credentials hello =>
    have hplain := connectSession_failsPlainly state.broker credentials h
    simp only [servePeer]
    split
    · next session hsession =>
      obtain ⟨hid, hselected⟩ := connectSession_session hsession
      refine ⟨fun hzero => ?_, by rw [hselected, hcapabilities]; rfl⟩
      have hnext := hintegrity.next
      rw [hid] at hzero
      rw [show state.broker.nextPeer = 0 from hzero] at hnext
      exact absurd hnext (by decide)
    · next e herror => exact errorText_short (hplain e herror)
  | rejecting code message =>
    simp only [servePeer, sends_pc]
    trivial
  | welcoming session =>
    simp only [servePeer, sends_pc]
    split <;> trivial
  | registering id =>
    simp only [servePeer]
    split_ifs <;> trivial
  | receiving id => exact nextFrame_ready _ _ _
  | handling id frame => exact handleFrame_ready hintegrity id io.nowMs h
  | replying id frame =>
    simp only [servePeer, sends_pc]
    split <;> trivial
  | dispatching id events =>
    cases events with
    | nil => trivial
    | cons event events =>
      simp only [servePeer, dispatches_pc]
      split <;> trivial
  | refusing id code message =>
    simp only [servePeer, sends_pc]
    trivial
  | unregistering id result => trivial
  | disconnecting id result =>
    simp only [servePeer]
    split <;> trivial
  | flushing id events result =>
    cases events with
    | nil => trivial
    | cons event events =>
      simp only [servePeer, dispatches_pc]
      split <;> trivial
  | returned assigned result => trivial

/-! ## Runs -/

/-- The frame that the thread sends to its own peer next, and the limits under which it is encoded. -/
def Pc.answer (limits : FrameLimits) : Pc → Option (FrameLimits × Frame)
  | .rejecting code message | .refusing _ code message => some (.default, .protocolError code message)
  | .welcoming session => some (limits, .welcome session.id session.capabilities)
  | .replying _ frame => some (limits, frame)
  | _ => none

structure Answering (limits : FrameLimits) (state : State P) : Prop where
  under : state.limits = limits
  ready : ∀ pc ∈ state.threads, pc.Ready limits

theorem step_answering {limits : FrameLimits} (hintegrity : Integrity state.broker)
    (hcapabilities : state.broker.capabilities = ∅) (h : Answering limits state) (turn : Turn) :
    Answering limits (step state turn).1 := by
  obtain ⟨rfl, hready⟩ := h
  cases turn with
  | accept =>
    refine ⟨rfl, fun pc hpc => ?_⟩
    rcases List.mem_append.mp hpc with hpc | hpc
    · exact hready pc hpc
    · obtain rfl := List.mem_singleton.mp hpc
      trivial
  | serve connection io =>
    simp only [step]
    split
    · exact ⟨rfl, hready⟩
    · next pc hpc =>
      refine ⟨rfl, fun pc' hpc' => ?_⟩
      rcases List.mem_or_eq_of_mem_set hpc' with hpc' | rfl
      · exact hready pc' hpc'
      · exact servePeer_ready hintegrity hcapabilities connection io (hready pc (List.mem_of_getElem? hpc))
  | tick nowMs =>
    simp only [step]
    split_ifs
    · exact ⟨rfl, hready⟩
    · exact ⟨rfl, hready⟩
  | dispatch io =>
    simp only [step]
    split
    · exact ⟨rfl, hready⟩
    · exact ⟨rfl, hready⟩

theorem answer_encodes {limits : FrameLimits} (hsize : 1024 ≤ limits.maximumFrameSize) {pc : Pc}
    (h : pc.Ready limits) {answer : FrameLimits × Frame} (hanswer : pc.answer limits = some answer) :
    ∃ packet, answer.2.encodeWithLimits answer.1 = .ok packet := by
  have hsmall : ∀ {limits : FrameLimits} {frame : Frame}, 1024 ≤ limits.maximumFrameSize → SmallFrame limits frame →
      ∃ packet, frame.encodeWithLimits limits = .ok packet := by
    rintro limits frame hsize ⟨hwell, hfits⟩
    exact (exists_encodeWithLimits frame limits).mpr ⟨hwell, hfits.trans hsize, by omega⟩
  cases pc with
  | rejecting code message =>
    obtain rfl := Option.some.inj hanswer
    exact hsmall (by decide : 1024 ≤ FrameLimits.default.maximumFrameSize) (smallFrame_protocolError code h)
  | refusing id code message =>
    obtain rfl := Option.some.inj hanswer
    exact hsmall (by decide : 1024 ≤ FrameLimits.default.maximumFrameSize) (smallFrame_protocolError code h)
  | welcoming session =>
    obtain rfl := Option.some.inj hanswer
    obtain ⟨hid, hcapabilities⟩ := h
    refine hsmall hsize ⟨⟨hid, ?_⟩, ?_⟩
    · rw [hcapabilities]
      exact ⟨⟨Nat.zero_le _, by decide⟩, fun e he => absurd he List.not_mem_nil⟩
    · simp only [Frame.bodySize, hcapabilities]
      decide
  | replying id frame =>
    obtain rfl := Option.some.inj hanswer
    exact hsmall hsize h
  | _ => cases hanswer

theorem run_answering {policy : P} {limits : Limits} {frameLimits : FrameLimits} {history : List (Turn × Output)}
    (hrun : Run step (State.initial (.withLimits policy limits) frameLimits) history state) :
    Answering frameLimits state := by
  induction hrun with
  | nil => exact ⟨rfl, fun pc hpc => absurd hpc List.not_mem_nil⟩
  | @snoc s s' history turn output hrun hstep ih =>
    have hcalls := run_calls hrun
    have hintegrity := (run_sound hcalls (sound_empty policy limits ∅)).integrity
    have hcapabilities : s.broker.capabilities = ∅ :=
      hcalls.invariant (I := fun broker => broker.capabilities = ∅)
        (fun broker op h => (exec_settings broker op).2.trans h) rfl
    have hafter := step_answering hintegrity hcapabilities ih turn
    rwa [hstep] at hafter

/-- A thread that has an answer sends it. -/
theorem servePeer_answer {pc : Pc} {answer : FrameLimits × Frame} {packet : List UInt8}
    (hanswer : pc.answer state.limits = some answer) (hpacket : answer.2.encodeWithLimits answer.1 = .ok packet)
    (connection : Connection) {io : Io} (hsent : io.sent = true) :
    (servePeer state connection io pc).packets = [(connection, packet)] := by
  have hsends : ∀ next, (state.sends connection answer.1 answer.2 io.sent next).packets = [(connection, packet)] := by
    intro next
    simp only [State.sends, sendFrame, hpacket, hsent, if_true]
  cases pc with
  | rejecting code message =>
    obtain rfl := Option.some.inj hanswer
    exact hsends _
  | refusing id code message =>
    obtain rfl := Option.some.inj hanswer
    exact hsends _
  | welcoming session =>
    obtain rfl := Option.some.inj hanswer
    exact hsends _
  | replying id frame =>
    obtain rfl := Option.some.inj hanswer
    exact hsends _
  | _ => cases hanswer

/-- Whatever a thread has to tell its own peer is encoded, and sent if the connection takes it: no session ends because
an answer is too long or cannot be written. -/
theorem answers_sent {policy : P} {limits : Limits} {frameLimits : FrameLimits} {history : List (Turn × Output)}
    (hsize : 1024 ≤ frameLimits.maximumFrameSize)
    (hrun : Run step (State.initial (.withLimits policy limits) frameLimits) history state)
    {connection : Connection} {pc : Pc} (hpc : state.threads[connection]? = some pc)
    {answer : FrameLimits × Frame} (hanswer : pc.answer frameLimits = some answer) {io : Io} (hsent : io.sent = true) :
    ∃ packet, (step state (.serve connection io)).2.packets = [(connection, packet)] ∧
      Frame.decodeWithLimits packet answer.1 = .ok answer.2 := by
  have hanswering := run_answering hrun
  obtain ⟨packet, hpacket⟩ := answer_encodes hsize (hanswering.ready pc (List.mem_of_getElem? hpc)) hanswer
  refine ⟨packet, ?_, decodeWithLimits_eq_ok.mpr hpacket⟩
  simp only [step, hpc]
  rw [← hanswering.under] at hanswer
  exact servePeer_answer hanswer hpacket connection hsent

/-- Two clients join and claim the same namespace, and the second one waits for its answer. -/
def contested : List (Turn × Output) × State AllowAll :=
  run step (State.initial (.withLimits .mk .default) .default) ([.accept, .accept] ++ joins 0 ++ joins 1 ++
    submits 0 (.claim plainNamespace ∅) ++ submits 1 (.claim plainNamespace ∅))

theorem answers_sent_contested :
    ∃ packet, (step contested.2 (.serve 1 calmIo)).2.packets = [(1, packet)] ∧
      Frame.decodeWithLimits packet .default =
        .ok (.protocolError .invalidState "namespace bus://worker is already owned by :1") := by
  have hpc : contested.2.threads[1]? = some (.replying (.new 2)
      (.protocolError .invalidState "namespace bus://worker is already owned by :1")) := by decide +kernel
  exact answers_sent (by decide : 1024 ≤ FrameLimits.default.maximumFrameSize) (run_spec _ _) hpc rfl rfl

end Busd.Daemon
