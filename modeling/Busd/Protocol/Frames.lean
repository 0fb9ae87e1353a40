import Busd.Protocol.Blocks

/-!
# Frames: encoding and decoding are inverse

* `body_codec` : for each frame kind, the body reader accepts exactly the bodies of that kind;
* `decodeWithLimits_eq_ok` : a packet decodes to a frame exactly when the frame encodes to it;
* `encodeWithLimits_mono` : larger limits change no encoding;
* `Message.Valid` : what an accepted message satisfies.
-/

namespace Busd.Protocol

open Words Codec

/-! ## Optional fields -/

def clientIdMarker : Option ClientId → UInt8
  | none => 0
  | some _ => 1

def clientIdPayload : Option ClientId → Encoder Unit
  | none => pure ()
  | some id => pushName id.asStr

theorem optionClientId_codec : IsCodecAll pushClientId decodeClientId := by
  refine IsCodec.tagged clientIdMarker clientIdPayload u8_codec ?_ fun marker => ?_
  · intro id c
    cases id with
    | none => exact emits_push_pure
    | some id => rfl
  split
  · exact IsCodec.pure (fun id => by cases id <;> simp [clientIdMarker]) fun _ => emits_pure
  · exact clientId_codec.last fun id c => by cases id <;> simp [clientIdMarker, clientIdPayload]
  · refine IsCodec.fail fun id hid => ?_
    cases id <;> simp_all [clientIdMarker]

def ownerMarker : Option PeerId → UInt8
  | none => 0
  | some _ => 1

def ownerPayload : Option PeerId → Encoder Unit
  | none => pure ()
  | some id => pushPeerId id

theorem owner_codec : IsCodecAll pushOwner decodeOwner := by
  refine IsCodec.tagged ownerMarker ownerPayload u8_codec ?_ fun marker => ?_
  · intro owner c
    cases owner with
    | none => exact emits_push_pure
    | some id => exact emits_check_swap
  split
  · exact IsCodec.pure (fun owner => by cases owner <;> simp [ownerMarker]) fun _ => emits_pure
  · exact peerId_codec.last fun owner c => by cases owner <;> simp [ownerMarker, ownerPayload]
  · refine IsCodec.fail fun owner ho => ?_
    cases owner <;> simp_all [ownerMarker]

/-! ## Messages -/

theorem message_codec (limits : FrameLimits) :
    IsCodecAll (fun m => pushMessage m limits) (decodeMessageFields limits) := by
  refine IsCodec.guarded (IsCodec.guarded ?_)
  refine IsCodec.bind Message.kind messageKind_codec fun kind => ?_
  refine IsCodec.bind Message.ackPolicy ackPolicy_codec fun ackPolicy => ?_
  refine IsCodec.bind Message.ackRequirement ackRequirement_codec fun ackRequirement => ?_
  refine IsCodec.bind Message.requestPolicy requestPolicy_codec fun requestPolicy => ?_
  refine IsCodec.bind Message.deadlineMs u32_codec fun deadlineMs => ?_
  refine IsCodec.bind Message.retry retryPolicy_codec fun retry => ?_
  refine IsCodec.bind Message.destination destination_codec fun destination => ?_
  refine IsCodec.bind Message.messageId messageId_codec fun messageId => ?_
  refine IsCodec.bind Message.correlationId messageId_codec fun correlationId => ?_
  refine IsCodec.bind Message.status status_codec fun status => ?_
  -- the reader checks the options once it knows the ten fields above, the writer before all of them
  refine IsCodec.check (D := fun m : Message => (m.kind = kind ∧ m.ackPolicy = ackPolicy ∧
    m.ackRequirement = ackRequirement ∧ m.requestPolicy = requestPolicy ∧
    m.deadlineMs = deadlineMs ∧ m.retry = retry ∧ m.destination = destination ∧
    m.messageId = messageId ∧ m.correlationId = correlationId ∧ m.status = status) ∧
    validateMessageIdentity kind messageId correlationId status = .ok ())
    (IsCodec.check ?_ fun m => Iff.rfl) fun m => ?_
  · refine IsCodec.bind Message.headers (headers_codec limits) fun headers =>
      binary_codec.last fun m c => ?_
    constructor
    · rintro ⟨⟨⟨rfl, rfl, rfl, rfl, rfl, rfl, rfl, rfl, rfl, rfl⟩, rfl⟩, he⟩
      exact ⟨m.payload, rfl, trivial, he⟩
    · rintro ⟨payload, rfl, -, he⟩
      exact ⟨⟨⟨rfl, rfl, rfl, rfl, rfl, rfl, rfl, rfl, rfl, rfl⟩, rfl⟩, he⟩
  · constructor
    · rintro ⟨⟨⟨⟨⟨⟨⟨⟨⟨⟨⟨⟨-, hoptions⟩, hidentity⟩, rfl⟩, rfl⟩, rfl⟩, rfl⟩, rfl⟩, rfl⟩, rfl⟩, rfl⟩, rfl⟩, rfl⟩
      exact ⟨⟨⟨rfl, rfl, rfl, rfl, rfl, rfl, rfl, rfl, rfl, rfl⟩, hidentity⟩, hoptions⟩
    · rintro ⟨⟨⟨rfl, rfl, rfl, rfl, rfl, rfl, rfl, rfl, rfl, rfl⟩, hidentity⟩, hoptions⟩
      exact ⟨⟨⟨⟨⟨⟨⟨⟨⟨⟨⟨⟨trivial, hoptions⟩, hidentity⟩, rfl⟩, rfl⟩, rfl⟩, rfl⟩, rfl⟩, rfl⟩, rfl⟩, rfl⟩,
        rfl⟩, rfl⟩

/-! ## Bodies -/

theorem hello_codec (limits : FrameLimits) :
    IsCodec (fun frame => Frame.kind frame = 1) (Frame.encodeBody limits) (decodeHello limits) := by
  have h : IsCodec (fun frame => Frame.kind frame = 1) (Frame.encodeBody limits)
      ((decodeClientId >>= fun id => (Reader.headers limits >>= fun headers =>
        Reader.capabilities limits >>= fun capabilities => pure (headers, capabilities)) >>= fun p =>
          pure (id, p)) >>= fun p => pure (Frame.hello p.1 p.2.1 p.2.2)) :=
    (optionClientId_codec.prod ((headers_codec limits).prod (capabilities_codec limits))).last
      fun frame c => by cases frame <;> simp [Frame.kind, Frame.encodeBody]
  simpa [decodeHello] using h

theorem acknowledge_codec (limits : FrameLimits) :
    IsCodec (fun frame => Frame.kind frame = 11) (Frame.encodeBody limits) decodeAcknowledge := by
  have h : IsCodec (fun frame => Frame.kind frame = 11) (Frame.encodeBody limits)
      ((Reader.messageId >>= fun id => Reader.tag decodeAckPolicy >>= fun policy => pure (id, policy)) >>=
        fun p => liftM (ensure (¬ (p.1.isAbsent || !p.2.byRecipient))
          (CodecError.invalidValue "acknowledgement")) >>= fun _ => pure (Frame.acknowledge p.1 p.2)) :=
    (messageId_codec.prod ackPolicy_codec).lastChecked fun frame c => by
      cases frame <;> simp [Frame.kind, Frame.encodeBody, emits_check_bind]
  simpa [decodeAcknowledge] using h

/-- An identifier that is not the absent one, checked right after it is read. -/
def presentId : Decoder MessageId := do
  let id ← Reader.messageId
  liftM (ensure (¬ id.isAbsent) (CodecError.invalidValue "message ID"))
  return id

theorem presentId_codec :
    IsCodecAll (fun id : MessageId => liftM (ensure (¬ id.isAbsent)
      (CodecError.invalidValue "message ID")) >>= fun _ => (tell id.asBytes : Encoder Unit)) presentId :=
  IsCodec.guarded messageId_codec.checked

theorem deliveryResult_codec (limits : FrameLimits) :
    IsCodec (fun frame => Frame.kind frame = 12) (Frame.encodeBody limits) decodeDeliveryResult := by
  have h : IsCodec (fun frame => Frame.kind frame = 12) (Frame.encodeBody limits)
      (presentId >>= fun id => Reader.tag decodeDeliveryOutcome >>= fun outcome =>
        pure (Frame.deliveryResult id outcome)) :=
    presentId_codec.last₂ deliveryOutcome_codec fun frame c => by
      cases frame <;> simp [Frame.kind, Frame.encodeBody, emits_bind, and_assoc]
  simpa [decodeDeliveryResult, presentId] using h

/-- For each kind, the body reader accepts exactly the bodies of that kind. -/
theorem body_codec (limits : FrameLimits) (kind : UInt8) :
    IsCodec (fun frame => Frame.kind frame = kind) (Frame.encodeBody limits) (decodeBody limits kind) := by
  unfold decodeBody
  split
  · exact hello_codec limits
  · exact peerId_codec.last₂ (capabilities_codec limits) fun frame c => by
      cases frame <;> simp [Frame.kind, Frame.encodeBody]
  · exact namespace_codec.last₂ (headers_codec limits) fun frame c => by
      cases frame <;> simp [Frame.kind, Frame.encodeBody]
  · exact channel_codec.last₂ (filters_codec limits) fun frame c => by
      cases frame <;> simp [Frame.kind, Frame.encodeBody]
  · exact channel_codec.last fun frame c => by cases frame <;> simp [Frame.kind, Frame.encodeBody]
  · exact (message_codec limits).last fun frame c => by
      cases frame <;> simp [Frame.kind, Frame.encodeBody]
  · exact protocolErrorCode_codec.last₂ text_codec fun frame c => by
      cases frame <;> simp [Frame.kind, Frame.encodeBody]
  · exact controlOperation_codec.last fun frame c => by
      cases frame <;> simp [Frame.kind, Frame.encodeBody]
  · exact namespace_codec.last fun frame c => by cases frame <;> simp [Frame.kind, Frame.encodeBody]
  · exact namespace_codec.last₂ owner_codec fun frame c => by
      cases frame <;> simp [Frame.kind, Frame.encodeBody]
  · exact acknowledge_codec limits
  · exact deliveryResult_codec limits
  · refine IsCodec.fail fun frame hkind => ?_
    cases frame <;> simp_all [Frame.kind]

/-! ## Packets -/

def commonHeader (kind : UInt8) (length : Nat) : List UInt8 :=
  magic ++ [version, kind] ++ beBytes 2 0 ++ beBytes 4 length

theorem length_commonHeader (kind : UInt8) (length : Nat) : (commonHeader kind length).length = headerSize := by
  simp [commonHeader, magic, headerSize]

theorem encodeWithLimits_eq_ok {frame : Frame} {limits : FrameLimits} {packet : List UInt8} :
    frame.encodeWithLimits limits = .ok packet ↔
      ∃ body, Emits (frame.encodeBody limits) body ∧
        headerSize + body.length ≤ limits.maximumFrameSize ∧ body.length < 2 ^ 32 ∧
        packet = commonHeader frame.kind body.length ++ body := by
  unfold Frame.encodeWithLimits
  rw [bind_eq_ok]
  refine exists_congr fun body => and_congr written_eq_ok ?_
  rw [ensure_bind_eq_ok]
  constructor
  · rintro ⟨hle, h⟩
    cases h
    exact ⟨by omega, by omega, rfl⟩
  · rintro ⟨hle, hlt, rfl⟩
    exact ⟨by omega, rfl⟩

theorem beNat_length_four {l₀ l₁ l₂ l₃ : UInt8} {n : Nat} (h : beNat [l₀, l₁, l₂, l₃] = n) :
    n < 2 ^ 32 ∧ beBytes 4 n = [l₀, l₁, l₂, l₃] := by
  subst h
  exact ⟨by simpa using beNat_lt [l₀, l₁, l₂, l₃], beBytes_beNat rfl⟩

theorem flags_eq_zero {f₀ f₁ : UInt8} (h : UInt16.ofNat (beNat [f₀, f₁]) = 0) : [f₀, f₁] = beBytes 2 0 := by
  have hlt : beNat [f₀, f₁] < 2 ^ 16 := by simpa using beNat_lt [f₀, f₁]
  have hzero : beNat [f₀, f₁] = 0 := by
    have := congrArg UInt16.toNat h
    rwa [UInt16.toNat_ofNat_of_lt' hlt] at this
  rw [← hzero]
  exact (beBytes_beNat rfl).symm

/-- A packet decodes to a frame exactly when the frame encodes to it. -/
theorem decodeWithLimits_eq_ok {packet : List UInt8} {limits : FrameLimits} {frame : Frame} :
    Frame.decodeWithLimits packet limits = .ok frame ↔ frame.encodeWithLimits limits = .ok packet := by
  rw [encodeWithLimits_eq_ok]
  constructor
  · intro h
    unfold Frame.decodeWithLimits at h
    split at h
    · next m₀ m₁ m₂ m₃ packetVersion kind f₀ f₁ l₀ l₁ l₂ l₃ body =>
      rw [ensure_bind_eq_ok, ensure_bind_eq_ok, ensure_bind_eq_ok, ensure_bind_eq_ok,
        ensure_bind_eq_ok, bind_eq_ok] at h
      obtain ⟨hmagic, rfl, hflags, hlength, hsize, ⟨frame', reader⟩, hrun, h⟩ := h
      obtain ⟨hend, h⟩ := ensure_bind_eq_ok.mp h
      cases h
      obtain ⟨rfl, hbody⟩ := (body_codec limits kind).whole.mp ⟨reader, hrun, hend⟩
      have hlen : beNat [l₀, l₁, l₂, l₃] = body.length := by
        simp only [headerSize, List.length_cons] at hlength
        omega
      obtain ⟨hlt, hbytes⟩ := beNat_length_four hlen
      refine ⟨body, hbody, hlen ▸ hsize, hlt, ?_⟩
      rw [commonHeader, hbytes, ← hmagic, ← flags_eq_zero hflags]
      rfl
    · cases h
  · rintro ⟨body, hbody, hsize, hlt, rfl⟩
    obtain ⟨reader, hrun, hend⟩ := (body_codec limits frame.kind).whole.mpr ⟨rfl, hbody⟩
    obtain ⟨l₀, l₁, l₂, l₃, hbytes⟩ : ∃ l₀ l₁ l₂ l₃, beBytes 4 body.length = [l₀, l₁, l₂, l₃] :=
      ⟨_, _, _, _, rfl⟩
    have hlen : beNat [l₀, l₁, l₂, l₃] = body.length := by
      rw [← hbytes, beNat_beBytes]
      exact Nat.mod_eq_of_lt (by simpa using hlt)
    have hpacket : commonHeader frame.kind body.length ++ body =
        66 :: 85 :: 83 :: 49 :: 3 :: frame.kind :: 0 :: 0 :: l₀ :: l₁ :: l₂ :: l₃ :: body := by
      rw [commonHeader, hbytes]
      rfl
    rw [hpacket]
    unfold Frame.decodeWithLimits
    simp only []
    rw [ensure_bind_eq_ok, ensure_bind_eq_ok, ensure_bind_eq_ok, ensure_bind_eq_ok,
      ensure_bind_eq_ok, bind_eq_ok, hlen]
    refine ⟨rfl, rfl, rfl, ?_, hsize, ⟨frame, reader⟩, hrun, ensure_bind_eq_ok.mpr ⟨hend, rfl⟩⟩
    simp only [headerSize, List.length_cons]
    omega

/-! ## Larger limits -/

instance : LE FrameLimits where
  le limits limits' := limits.maximumFrameSize ≤ limits'.maximumFrameSize ∧
    limits.maximumHeaders ≤ limits'.maximumHeaders ∧
    limits.maximumCapabilities ≤ limits'.maximumCapabilities ∧
    limits.maximumFilters ≤ limits'.maximumFilters

def FrameLimits.max (limits limits' : FrameLimits) : FrameLimits where
  maximumFrameSize := Max.max limits.maximumFrameSize limits'.maximumFrameSize
  maximumHeaders := Max.max limits.maximumHeaders limits'.maximumHeaders
  maximumCapabilities := Max.max limits.maximumCapabilities limits'.maximumCapabilities
  maximumFilters := Max.max limits.maximumFilters limits'.maximumFilters

theorem FrameLimits.le_max_left (limits limits' : FrameLimits) : limits ≤ limits.max limits' :=
  ⟨Nat.le_max_left .., Nat.le_max_left .., Nat.le_max_left .., Nat.le_max_left ..⟩

theorem FrameLimits.le_max_right (limits limits' : FrameLimits) : limits' ≤ limits.max limits' :=
  ⟨Nat.le_max_right .., Nat.le_max_right .., Nat.le_max_right .., Nat.le_max_right ..⟩

section Mono

variable {limits limits' : FrameLimits} {c : List UInt8}

theorem emits_pushEntries_mono {α : Type} {pushValue : α → Encoder Unit} {maximum maximum' : Nat}
    {countName : String} {entries : OrdMap String α} (hle : maximum ≤ maximum')
    (h : Emits (pushEntries pushValue maximum countName entries) c) :
    Emits (pushEntries pushValue maximum' countName entries) c := by
  obtain ⟨hsize, h⟩ := emits_check_bind.mp h
  have hsize' : entries.size ≤ maximum' := (ensure_eq_ok.mp hsize).trans hle
  exact emits_check_bind.mpr ⟨ensure_eq_ok.mpr hsize', h⟩

theorem emits_pushFilters_mono {filters : List HeaderFilter} (hle : limits ≤ limits')
    (h : Emits (pushFilters filters limits) c) : Emits (pushFilters filters limits') c := by
  obtain ⟨hlen, h⟩ := emits_check_bind.mp h
  have hlen' : filters.length ≤ limits'.maximumFilters := (ensure_eq_ok.mp hlen).trans hle.2.2.2
  exact emits_check_bind.mpr ⟨ensure_eq_ok.mpr hlen', h⟩

theorem emits_pushMessage_mono {m : Message} (hle : limits ≤ limits')
    (h : Emits (pushMessage m limits) c) : Emits (pushMessage m limits') c := by
  unfold pushMessage at h ⊢
  -- the twelve steps before the headers do not look at the limits
  iterate 12 refine Emits.bind_mono (fun _ h => h) (fun _ h => ?_) h
  exact Emits.bind_mono (fun _ h => emits_pushEntries_mono hle.2.1 h) (fun _ h => h) h

theorem emits_encodeBody_mono {frame : Frame} (hle : limits ≤ limits')
    (h : Emits (frame.encodeBody limits) c) : Emits (frame.encodeBody limits') c := by
  cases frame with
  | hello id headers capabilities =>
    refine Emits.bind_mono (fun _ h => h) (fun _ h => ?_) h
    exact Emits.bind_mono (fun _ h => emits_pushEntries_mono hle.2.1 h)
      (fun _ h => emits_pushEntries_mono hle.2.2.1 h) h
  | welcome id capabilities =>
    exact Emits.bind_mono (fun _ h => h) (fun _ h => emits_pushEntries_mono hle.2.2.1 h) h
  | claim ns headers =>
    exact Emits.bind_mono (fun _ h => h) (fun _ h => emits_pushEntries_mono hle.2.1 h) h
  | subscribe channel filters =>
    exact Emits.bind_mono (fun _ h => h) (fun _ h => emits_pushFilters_mono hle h) h
  | message m => exact emits_pushMessage_mono hle h
  | _ => exact h

/-- Larger limits change no encoding. -/
theorem encodeWithLimits_mono {frame : Frame} {packet : List UInt8} (hle : limits ≤ limits')
    (h : frame.encodeWithLimits limits = .ok packet) :
    frame.encodeWithLimits limits' = .ok packet := by
  obtain ⟨body, hbody, hsize, hlt, rfl⟩ := encodeWithLimits_eq_ok.mp h
  exact encodeWithLimits_eq_ok.mpr
    ⟨body, emits_encodeBody_mono hle hbody, hsize.trans hle.1, hlt, rfl⟩

/-- The limits decide whether a frame is encoded, not how. -/
theorem encodeWithLimits_unique {frame : Frame} {packet packet' : List UInt8}
    (h : frame.encodeWithLimits limits = .ok packet)
    (h' : frame.encodeWithLimits limits' = .ok packet') : packet = packet' := by
  have hmax := encodeWithLimits_mono (limits.le_max_left limits') h
  rw [encodeWithLimits_mono (limits.le_max_right limits') h'] at hmax
  cases hmax
  rfl

/-- Decoding an encoded frame under whatever limits gives no other frame. -/
theorem decodeWithLimits_unique {frame frame' : Frame} {packet : List UInt8}
    (h : frame.encodeWithLimits limits = .ok packet) (h' : Frame.decodeWithLimits packet limits' = .ok frame') :
    frame' = frame := by
  have hmax := decodeWithLimits_eq_ok.mpr (encodeWithLimits_mono (limits.le_max_left limits') h)
  have hmax' := decodeWithLimits_eq_ok.mpr
    (encodeWithLimits_mono (limits.le_max_right limits') (decodeWithLimits_eq_ok.mp h'))
  rw [hmax] at hmax'
  cases hmax'
  rfl

end Mono

/-! ## Round trips -/

/-- Decoding undoes encoding, under the same limits or larger ones. -/
theorem Frame.decode_of_encode {frame : Frame} {limits limits' : FrameLimits} {packet : List UInt8}
    (hle : limits ≤ limits') (h : frame.encodeWithLimits limits = .ok packet) :
    Frame.decodeWithLimits packet limits' = .ok frame :=
  decodeWithLimits_eq_ok.mpr (encodeWithLimits_mono hle h)

/-- The `HELLO` frame of the reference vectors. -/
def referenceHello : Frame :=
  .hello (some ⟨"app", by decide⟩) (OrdMap.ofList [("version", .text "one")]) (OrdSet.ofList ["alpha"])

def referenceHelloPacket : List UInt8 :=
  [66, 85, 83, 49, 3, 1, 0, 0, 0, 0, 0, 32, 1, 0, 3, 97, 112, 112, 0, 1, 0, 7, 118, 101, 114, 115,
    105, 111, 110, 0, 0, 3, 111, 110, 101, 0, 1, 0, 5, 97, 108, 112, 104, 97]

theorem Frame.decode_of_encode_referenceHello :
    Frame.decodeWithLimits referenceHelloPacket (FrameLimits.default.max ⟨2 ^ 24, 0, 0, 0⟩) =
      .ok referenceHello :=
  Frame.decode_of_encode (FrameLimits.le_max_left .default ⟨2 ^ 24, 0, 0, 0⟩)
    (show referenceHello.encodeWithLimits .default = .ok referenceHelloPacket by decide +kernel)

/-- An accepted packet is the encoding of its frame, and no other packet decodes to that frame. -/
theorem Frame.encode_of_decode {packet : List UInt8} {limits : FrameLimits} {frame : Frame}
    (h : Frame.decodeWithLimits packet limits = .ok frame) :
    frame.encodeWithLimits limits = .ok packet ∧
      ∀ packet' limits', Frame.decodeWithLimits packet' limits' = .ok frame → packet' = packet :=
  ⟨decodeWithLimits_eq_ok.mp h, fun _ _ h' =>
    encodeWithLimits_unique (decodeWithLimits_eq_ok.mp h') (decodeWithLimits_eq_ok.mp h)⟩

theorem Frame.encode_of_decode_referenceHello :
    referenceHello.encodeWithLimits .default = .ok referenceHelloPacket ∧
      ∀ packet limits, Frame.decodeWithLimits packet limits = .ok referenceHello →
        packet = referenceHelloPacket :=
  Frame.encode_of_decode
    (show Frame.decodeWithLimits referenceHelloPacket .default = .ok referenceHello by decide +kernel)

/-! ## What an accepted message satisfies -/

/-- The delivery options of a message fit together. -/
structure Message.Valid (m : Message) : Prop where
  requirement : m.ackPolicy.byRecipient = true ↔ m.ackRequirement ≠ .none
  minimum : ∀ count, m.ackRequirement = .minimum count → count ≠ 0
  deadline : m.kind = .request ∨ m.ackPolicy.byRecipient = true → m.deadlineMs ≠ 0
  retry : ∀ backoff attempts, m.retry = .exponential backoff attempts → backoff ≠ 0 ∧ 2 ≤ attempts
  requestPolicy : m.kind ≠ .request → m.requestPolicy = .exact

theorem validateDeliveryOptions_ok {kind : MessageKind} {ackPolicy : AckPolicy} {ackRequirement : AckRequirement}
    {requestPolicy : RequestPolicy} {deadlineMs : UInt32} {retry : RetryPolicy}
    (h : validateDeliveryOptions kind ackPolicy ackRequirement requestPolicy deadlineMs retry = .ok ()) :
    (ackPolicy.byRecipient = true ↔ ackRequirement ≠ .none) ∧
      (kind = .request ∨ ackPolicy.byRecipient = true → deadlineMs ≠ 0) ∧
      (kind ≠ .request → requestPolicy = .exact) := by
  unfold validateDeliveryOptions at h
  split_ifs at h with hplain hnone hack hretry hpolicy hrequest hresponse
  refine ⟨⟨fun hby heq => hnone ⟨hby, heq⟩, fun hne => ?_⟩, fun hdeadline => ?_, fun hkind => ?_⟩
  · by_contra hby
    exact hplain ⟨by simpa using hby, hne⟩
  · rcases hdeadline with hkind | hby
    · exact fun hzero => hrequest ⟨hkind, hzero⟩
    · exact fun hzero => hack ⟨hby, hzero⟩
  · by_contra hne
    exact hpolicy ⟨hkind, hne⟩

theorem Message.valid_of_decode {packet : List UInt8} {limits : FrameLimits} {m : Message}
    (h : Frame.decodeWithLimits packet limits = .ok (.message m)) : m.Valid := by
  obtain ⟨body, hbody, -⟩ := encodeWithLimits_eq_ok.mp (decodeWithLimits_eq_ok.mp h)
  obtain ⟨hoptions, hbody⟩ := emits_check_bind.mp (show Emits (pushMessage m limits) body from hbody)
  obtain ⟨-, hbody⟩ := emits_check_bind.mp hbody
  obtain ⟨_, _, -, hbody, -⟩ := emits_bind.mp hbody
  obtain ⟨_, _, -, hbody, -⟩ := emits_bind.mp hbody
  obtain ⟨_, _, hrequirement, hbody, -⟩ := emits_bind.mp hbody
  obtain ⟨_, _, -, hbody, -⟩ := emits_bind.mp hbody
  obtain ⟨_, _, -, hbody, -⟩ := emits_bind.mp hbody
  obtain ⟨_, _, hretry, -, -⟩ := emits_bind.mp hbody
  obtain ⟨hack, hdeadline, hpolicy⟩ := validateDeliveryOptions_ok hoptions
  refine ⟨hack, fun count heq => ?_, hdeadline, fun backoff attempts heq => ?_, hpolicy⟩
  · rw [heq] at hrequirement
    exact ensure_eq_ok.mp (emits_check_bind.mp hrequirement).1
  · rw [heq] at hretry
    exact ensure_eq_ok.mp (emits_check_bind.mp hretry).1

end Busd.Protocol
