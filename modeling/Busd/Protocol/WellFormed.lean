import Busd.Lib.Measure
import Busd.Protocol.Frames

/-!
# Which frames can be encoded, and how long they are

`encode_with_limits` checks a frame while it writes it, field by field. Here the checks are collected in one condition
on the frame, and the bytes in one number.

* `Frame.WellFormed`, `Frame.bodySize` : the condition and the size, by the kind of the frame;
* `measures_encodeBody` : the writer of the body succeeds exactly for the well-formed frames, and writes this much;
* `encodes_iff` : a frame encodes exactly if it is well formed and fits, and the length of the packet;
* `cut_rejected` : a packet with bytes cut off or added is rejected.
-/

namespace Busd.Protocol

open Words Codec

variable {α : Type} {limits : FrameLimits}

/-! ## Fields -/

theorem exists_tryU16 {length : Nat} {what : String} : (∃ k, tryU16 length what = .ok k) ↔ length < 2 ^ 16 := by
  unfold tryU16
  split_ifs with hlt
  · exact iff_of_true ⟨_, rfl⟩ hlt
  · exact iff_of_false (fun ⟨_, h⟩ => by cases h) hlt

theorem exists_tryU32 {length : Nat} {what : String} : (∃ k, tryU32 length what = .ok k) ↔ length < 2 ^ 32 := by
  unfold tryU32
  split_ifs with hlt
  · exact iff_of_true ⟨_, rfl⟩ hlt
  · exact iff_of_false (fun ⟨_, h⟩ => by cases h) hlt

theorem measures_push (byte : UInt8) : Measures (push byte) True 1 := measures_tell _

theorem measures_pushU16 (value : UInt16) : Measures (pushU16 value) True 2 :=
  (measures_tell _).congr Iff.rfl (length_beBytes 2 _)

theorem measures_pushU32 (value : UInt32) : Measures (pushU32 value) True 4 :=
  (measures_tell _).congr Iff.rfl (length_beBytes 4 _)

theorem measures_pushU64 (value : UInt64) : Measures (pushU64 value) True 8 :=
  (measures_tell _).congr Iff.rfl (length_beBytes 8 _)

theorem measures_messageId (id : MessageId) : Measures (tell id.asBytes : Encoder Unit) True 16 :=
  (measures_tell _).congr Iff.rfl id.length_eq

def textSize (value : String) : Nat := 2 + (utf8Bytes value).length

theorem measures_pushText (value : String) :
    Measures (pushText value) ((utf8Bytes value).length < 2 ^ 16) (textSize value) := by
  have hrest : ∀ k : UInt16, Measures (pushU16 k >>= fun _ => (tell (utf8Bytes value) : Encoder Unit)) (True ∧ True)
      (textSize value) := fun k => (measures_pushU16 k).bind (measures_tell _)
  refine (Measures.lift fun k _ => hrest k).congr ?_ rfl
  rw [exists_tryU16]
  simp only [and_true]

theorem length_of_validateName {value : String} (h : validateName value = .ok ()) :
    (utf8Bytes value).length ≤ 255 := (validateName_bytes.mp h).2.1

theorem measures_pushName (value : String) :
    Measures (pushName value) (validateName value = .ok ()) (textSize value) := by
  refine (measures_pushText value).check.congr ?_ rfl
  rw [invalidName_eq_ok]
  exact and_iff_left_of_imp fun h => (length_of_validateName h).trans_lt (by decide)

theorem length_namespace (ns : Namespace) : (utf8Bytes ns.asStr).length ≤ 261 := by
  have hvalid := ns.valid
  unfold validateNamespace at hvalid
  split at hvalid
  · cases hvalid
  · next name hname =>
    have hlength : (utf8Bytes "bus://").length = 6 := by decide
    rw [eq_append_of_stripPrefix hname, utf8Bytes_append, List.length_append, hlength]
    have hle := length_of_validateName hvalid
    omega

theorem measures_pushNamespace (ns : Namespace) : Measures (pushNamespace ns) True (textSize ns.asStr) :=
  (measures_pushText ns.asStr).congr (iff_true_intro ((length_namespace ns).trans_lt (by decide))) rfl

theorem measures_pushBinary (value : List UInt8) :
    Measures (pushBinary value) (value.length < 2 ^ 32) (4 + value.length) := by
  have hrest : ∀ k : UInt32, Measures (pushU32 k >>= fun _ => (tell value : Encoder Unit)) (True ∧ True)
      (4 + value.length) := fun k => (measures_pushU32 k).bind (measures_tell _)
  refine (Measures.lift fun k _ => hrest k).congr ?_ rfl
  rw [exists_tryU32]
  simp only [and_true]

/-! ## Headers, capabilities and filters -/

def HeaderValue.Fits : HeaderValue → Prop
  | .text value => (utf8Bytes value).length < 2 ^ 16
  | .unsigned _ | .boolean _ => True
  | .binary value => value.length < 2 ^ 32

def HeaderValue.size : HeaderValue → Nat
  | .text value => 1 + textSize value
  | .unsigned _ => 1 + 8
  | .boolean _ => 1 + 1
  | .binary value => 1 + (4 + value.length)

theorem measures_pushValue (value : HeaderValue) : Measures (pushValue value) value.Fits value.size := by
  cases value with
  | text value => exact ((measures_push 0).bind (measures_pushText value)).congr (iff_of_eq (true_and _)) rfl
  | unsigned value => exact ((measures_push 1).bind (measures_pushU64 value)).congr (iff_of_eq (true_and _)) rfl
  | boolean value => exact ((measures_push 2).bind (measures_push _)).congr (iff_of_eq (true_and _)) rfl
  | binary value => exact ((measures_push 3).bind (measures_pushBinary value)).congr (iff_of_eq (true_and _)) rfl

/-- A block of named entries within a limit. -/
structure BlockFits (fits : α → Prop) (maximum : Nat) (entries : OrdMap String α) : Prop where
  count : entries.size ≤ maximum ∧ entries.size < 2 ^ 16
  entries : ∀ e ∈ entries.entries, validateName e.1 = .ok () ∧ fits e.2

def blockSize (size : α → Nat) (entries : OrdMap String α) : Nat :=
  2 + (entries.entries.map fun e => textSize e.1 + size e.2).sum

theorem measures_pushEntries {pushValue : α → Encoder Unit} {fits : α → Prop} {size : α → Nat}
    (hvalue : ∀ a, Measures (pushValue a) (fits a) (size a)) (maximum : Nat) (countName : String)
    (entries : OrdMap String α) :
    Measures (pushEntries pushValue maximum countName entries) (BlockFits fits maximum entries)
      (blockSize size entries) := by
  have hentries := Measures.forM entries.entries fun e _ => (measures_pushName e.1).bind (hvalue e.2)
  have hcounted := fun k : UInt16 => (measures_pushU16 k).bind hentries
  refine (Measures.lift fun k _ => hcounted k).ensure.congr ?_ rfl
  rw [exists_tryU16, true_and]
  exact ⟨fun ⟨hmax, hcount, hall⟩ => ⟨⟨hmax, hcount⟩, hall⟩, fun h => ⟨h.count.1, h.count.2, h.entries⟩⟩

def HeadersFit (limits : FrameLimits) (headers : Headers) : Prop :=
  BlockFits HeaderValue.Fits limits.maximumHeaders headers

def CapabilitiesFit (limits : FrameLimits) (capabilities : Capabilities) : Prop :=
  BlockFits (fun _ => True) limits.maximumCapabilities capabilities

theorem measures_pushHeaders (headers : Headers) (limits : FrameLimits) :
    Measures (pushHeaders headers limits) (HeadersFit limits headers) (blockSize HeaderValue.size headers) :=
  measures_pushEntries measures_pushValue _ _ _

theorem measures_pushCapabilities (capabilities : Capabilities) (limits : FrameLimits) :
    Measures (pushCapabilities capabilities limits) (CapabilitiesFit limits capabilities)
      (blockSize (fun _ => 0) capabilities) :=
  measures_pushEntries (fun _ => measures_pure) _ _ _

def HeaderFilter.Fits : HeaderFilter → Prop
  | .doesExist name | .doesNotExist name => validateName name = .ok ()
  | .equal name value | .notEqual name value | .hasPrefix name value => validateName name = .ok () ∧ value.Fits

def HeaderFilter.size : HeaderFilter → Nat
  | .doesExist name | .doesNotExist name => 1 + textSize name
  | .equal name value | .notEqual name value | .hasPrefix name value => 1 + (textSize name + value.size)

theorem measures_pushFilter (filter : HeaderFilter) : Measures (pushFilter filter) filter.Fits filter.size := by
  have hname := fun tag name => ((measures_push tag).bind (measures_pushName name)).congr (iff_of_eq (true_and _)) rfl
  have hvalue := fun tag name value => ((measures_push tag).bind
    ((measures_pushName name).bind (measures_pushValue value))).congr (iff_of_eq (true_and _)) rfl
  cases filter with
  | doesExist name => exact hname 0 name
  | doesNotExist name => exact hname 1 name
  | equal name value => exact hvalue 2 name value
  | notEqual name value => exact hvalue 3 name value
  | hasPrefix name value => exact hvalue 4 name value

/-- The filters can be written under the limits: there are not too many, and they stand in the order of their bytes. -/
structure FiltersFit (limits : FrameLimits) (filters : List HeaderFilter) : Prop where
  count : filters.length ≤ limits.maximumFilters ∧ filters.length < 2 ^ 16
  increasing : filters.Pairwise fun f g => filterBytes f < filterBytes g
  filters : ∀ filter ∈ filters, filter.Fits

theorem measures_pushFilters (filters : List HeaderFilter) (limits : FrameLimits) :
    Measures (pushFilters filters limits) (FiltersFit limits filters)
      (2 + (filters.map HeaderFilter.size).sum) := by
  have hfilters := Measures.forM filters fun filter _ => measures_pushFilter filter
  have hcounted := fun k : UInt16 => (measures_pushU16 k).bind hfilters
  refine Measures.of_emits ((Measures.lift fun k _ => hcounted k).ensure.ensure.congr ?_ rfl)
    fun c => emits_pushFilters
  rw [exists_tryU16, true_and]
  exact ⟨fun ⟨hmax, hsorted, hcount, hall⟩ => ⟨⟨hmax, hcount⟩, hsorted, hall⟩,
    fun h => ⟨h.count.1, h.increasing, h.count.2, h.filters⟩⟩

/-! ## Messages -/

def AckRequirement.Fits : AckRequirement → Prop
  | .minimum count => count ≠ 0
  | .none | .any | .all => True

def AckRequirement.size : AckRequirement → Nat
  | .minimum _ => 3
  | .none | .any | .all => 1

theorem measures_pushAckRequirement (requirement : AckRequirement) :
    Measures (pushAckRequirement requirement) requirement.Fits requirement.size := by
  cases requirement with
  | none => exact measures_push 0
  | any => exact measures_push 1
  | all => exact measures_push 2
  | minimum count =>
    exact ((measures_push 3).bind (measures_pushU16 count)).ensure.congr (by simp [AckRequirement.Fits]) rfl

def RetryPolicy.Fits : RetryPolicy → Prop
  | .none => True
  | .exponential initialBackoffMs maxAttempts => initialBackoffMs ≠ 0 ∧ 2 ≤ maxAttempts

def RetryPolicy.size : RetryPolicy → Nat
  | .none => 1
  | .exponential .. => 6

theorem measures_pushRetryPolicy (retry : RetryPolicy) : Measures (pushRetryPolicy retry) retry.Fits retry.size := by
  cases retry with
  | none => exact measures_push 0
  | exponential initialBackoffMs maxAttempts =>
    have hwritten := (measures_push 1).bind ((measures_pushU32 initialBackoffMs).bind (measures_push maxAttempts))
    exact hwritten.ensure.congr (by simp [RetryPolicy.Fits]) rfl

def Destination.Fits : Destination → Prop
  | .peer id => id.get ≠ 0
  | .broker | .«namespace» _ | .channel _ | .broadcast | .clientId .. => True

def Destination.size : Destination → Nat
  | .broker | .broadcast => 1
  | .peer _ => 1 + 8
  | .«namespace» ns => 1 + textSize ns.asStr
  | .channel name => 1 + textSize name.asStr
  | .clientId id _ => 1 + (textSize id.asStr + 1)

theorem measures_pushDestination (destination : Destination) :
    Measures (pushDestination destination) destination.Fits destination.size := by
  cases destination with
  | broker => exact measures_push 0
  | peer peer =>
    exact ((measures_push 1).bind (measures_pushU64 peer.get)).ensure.congr (by simp [Destination.Fits]) rfl
  | «namespace» ns =>
    exact ((measures_push 2).bind (measures_pushNamespace ns)).congr (by simp [Destination.Fits]) rfl
  | channel channel =>
    exact ((measures_push 3).bind (measures_pushName channel.asStr)).congr
      (by simp [Destination.Fits, channel.valid]) rfl
  | broadcast => exact measures_push 4
  | clientId clientId selection =>
    have hwritten := (measures_pushName clientId.asStr).bind (measures_push (clientSelectionTag selection))
    exact ((measures_push 5).bind hwritten).congr (by simp [Destination.Fits, clientId.valid]) rfl

/-- What the sender of a message asks for goes together. -/
structure Message.Consistent (m : Message) : Prop where
  requirement : m.ackPolicy.byRecipient = true ↔ m.ackRequirement ≠ .none
  deadline : m.kind = .request ∨ m.ackPolicy.byRecipient = true → m.deadlineMs ≠ 0
  retry : m.retry ≠ .none → m.kind = .request ∨ m.ackPolicy.byRecipient = true
  policy : m.kind ≠ .request → m.requestPolicy = .exact
  response : m.kind = .response → m.deadlineMs = 0 ∧ m.retry = .none
  identified : m.messageId.isAbsent = false
  correlated : m.kind = .response ↔ m.correlationId.isAbsent = false
  status : m.kind ≠ .response → m.status = .success

theorem validateDeliveryOptions_iff (m : Message) :
    validateDeliveryOptions m.kind m.ackPolicy m.ackRequirement m.requestPolicy m.deadlineMs m.retry = .ok () ↔
      (m.ackPolicy.byRecipient = true ↔ m.ackRequirement ≠ .none) ∧
      (m.kind = .request ∨ m.ackPolicy.byRecipient = true → m.deadlineMs ≠ 0) ∧
      (m.retry ≠ .none → m.kind = .request ∨ m.ackPolicy.byRecipient = true) ∧
      (m.kind ≠ .request → m.requestPolicy = .exact) ∧
      (m.kind = .response → m.deadlineMs = 0 ∧ m.retry = .none) := by
  constructor
  · intro h
    obtain ⟨hack, hdeadline, hpolicy⟩ := validateDeliveryOptions_ok h
    unfold validateDeliveryOptions at h
    split_ifs at h with h₁ h₂ h₃ hretry h₅ h₆ hresponse
    refine ⟨hack, hdeadline, fun hne => ?_, hpolicy, fun hkind => ?_⟩
    · by_contra hnot
      rw [not_or] at hnot
      exact hretry ⟨hne, hnot.1, by simpa using hnot.2⟩
    · by_contra hnot
      exact hresponse ⟨hkind, by rwa [Decidable.not_and_iff_or_not] at hnot⟩
  · rintro ⟨hack, hdeadline, hretry, hpolicy, hresponse⟩
    unfold validateDeliveryOptions
    split_ifs with h₁ h₂ h₃ h₄ h₅ h₆ h₇
    · simp [hack.mpr h₁.2] at h₁
    · exact absurd h₂.2 (hack.mp h₂.1)
    · exact absurd h₃.2 (hdeadline (.inr h₃.1))
    · obtain ⟨hne, hkind, hby⟩ := h₄
      rcases hretry hne with hrequest | hrecipient
      · exact absurd hrequest hkind
      · simp [hrecipient] at hby
    · exact absurd (hpolicy h₅.1) h₅.2
    · exact absurd h₆.2 (hdeadline (.inl h₆.1))
    · obtain ⟨hkind, hne⟩ := h₇
      rcases hne with hne | hne
      · exact absurd (hresponse hkind).1 hne
      · exact absurd (hresponse hkind).2 hne
    · rfl

theorem validateMessageIdentity_iff (m : Message) :
    validateMessageIdentity m.kind m.messageId m.correlationId m.status = .ok () ↔
      m.messageId.isAbsent = false ∧ (m.kind = .response ↔ m.correlationId.isAbsent = false) ∧
      (m.kind ≠ .response → m.status = .success) := by
  unfold validateMessageIdentity
  grind

structure Message.WellFormed (limits : FrameLimits) (m : Message) : Prop where
  consistent : m.Consistent
  requirement : m.ackRequirement.Fits
  retry : m.retry.Fits
  destination : m.destination.Fits
  headers : HeadersFit limits m.headers
  payload : m.payload.length < 2 ^ 32

/-- The bytes of a message: 40 for the fields of one size, and the others. -/
def Message.size (m : Message) : Nat :=
  40 + m.ackRequirement.size + m.retry.size + m.destination.size + blockSize HeaderValue.size m.headers +
    (4 + m.payload.length)

theorem measures_pushMessage (m : Message) (limits : FrameLimits) :
    Measures (pushMessage m limits) (m.WellFormed limits) m.size := by
  have hend := (measures_pushHeaders m.headers limits).bind (measures_pushBinary m.payload)
  have hids := (measures_messageId m.messageId).bind ((measures_messageId m.correlationId).bind
    ((measures_push (statusTag m.status)).bind hend))
  have hrouted := (measures_pushU32 m.deadlineMs).bind ((measures_pushRetryPolicy m.retry).bind
    ((measures_pushDestination m.destination).bind hids))
  have hfields := (measures_push (messageKindTag m.kind)).bind ((measures_push (ackPolicyTag m.ackPolicy)).bind
    ((measures_pushAckRequirement m.ackRequirement).bind
      ((measures_push (requestPolicyTag m.requestPolicy)).bind hrouted)))
  refine hfields.check.check.congr ?_ ?_
  · simp only [true_and, validateDeliveryOptions_iff, validateMessageIdentity_iff]
    constructor
    · rintro ⟨⟨hack, hdeadline, hagain, hpolicy, hresponse⟩, ⟨hid, hcorrelation, hstatus⟩, hrequirement, hretry,
        hdestination, hheaders, hpayload⟩
      exact ⟨⟨hack, hdeadline, hagain, hpolicy, hresponse, hid, hcorrelation, hstatus⟩, hrequirement, hretry,
        hdestination, hheaders, hpayload⟩
    · rintro ⟨⟨hack, hdeadline, hagain, hpolicy, hresponse, hid, hcorrelation, hstatus⟩, hrequirement, hretry,
        hdestination, hheaders, hpayload⟩
      exact ⟨⟨hack, hdeadline, hagain, hpolicy, hresponse⟩, ⟨hid, hcorrelation, hstatus⟩, hrequirement, hretry,
        hdestination, hheaders, hpayload⟩
  · unfold Message.size
    omega

/-! ## Frames -/

/-- The frame can be written under the limits, except for its length as a whole. -/
def Frame.WellFormed (limits : FrameLimits) : Frame → Prop
  | .hello _ headers capabilities => HeadersFit limits headers ∧ CapabilitiesFit limits capabilities
  | .welcome peerId capabilities => peerId.get ≠ 0 ∧ CapabilitiesFit limits capabilities
  | .claim _ headers => HeadersFit limits headers
  | .subscribe _ filters => FiltersFit limits filters
  | .message m => m.WellFormed limits
  | .acknowledge messageId policy => messageId.isAbsent = false ∧ policy.byRecipient = true
  | .deliveryResult messageId _ => messageId.isAbsent = false
  | .protocolError _ text => (utf8Bytes text).length < 2 ^ 16
  | .namespaceResolved _ owner => ∀ peerId ∈ owner, peerId.get ≠ 0
  | .unsubscribe _ | .controlResult _ | .resolveNamespace _ => True

def optionSize (size : α → Nat) : Option α → Nat
  | some a => 1 + size a
  | none => 1

def Frame.bodySize : Frame → Nat
  | .hello clientId headers capabilities =>
    optionSize (fun id : ClientId => textSize id.asStr) clientId +
      (blockSize HeaderValue.size headers + blockSize (fun _ => 0) capabilities)
  | .welcome _ capabilities => 8 + blockSize (fun _ => 0) capabilities
  | .claim ns headers => textSize ns.asStr + blockSize HeaderValue.size headers
  | .subscribe channel filters => textSize channel.asStr + (2 + (filters.map HeaderFilter.size).sum)
  | .unsubscribe channel => textSize channel.asStr
  | .message m => m.size
  | .acknowledge .. | .deliveryResult .. => 16 + 1
  | .protocolError _ text => 1 + textSize text
  | .controlResult _ => 1
  | .resolveNamespace ns => textSize ns.asStr
  | .namespaceResolved ns owner => textSize ns.asStr + optionSize (fun _ => 8) owner

theorem measures_pushClientId (clientId : Option ClientId) :
    Measures (pushClientId clientId) True (optionSize (fun id : ClientId => textSize id.asStr) clientId) := by
  cases clientId with
  | none => exact measures_push 0
  | some id => exact ((measures_push 1).bind (measures_pushName id.asStr)).congr (by simp [id.valid]) rfl

theorem measures_pushOwner (owner : Option PeerId) :
    Measures (pushOwner owner) (∀ peerId ∈ owner, peerId.get ≠ 0) (optionSize (fun _ => 8) owner) := by
  cases owner with
  | none => exact (measures_push 0).congr (by simp) rfl
  | some peerId => exact ((measures_push 1).bind (measures_pushU64 peerId.get)).ensure.congr (by simp) rfl

theorem measures_encodeBody (limits : FrameLimits) (frame : Frame) :
    Measures (frame.encodeBody limits) (frame.WellFormed limits) frame.bodySize := by
  cases frame with
  | hello clientId headers capabilities =>
    have hblocks := (measures_pushHeaders headers limits).bind (measures_pushCapabilities capabilities limits)
    exact ((measures_pushClientId clientId).bind hblocks).congr (iff_of_eq (true_and _)) rfl
  | welcome peerId capabilities =>
    have hpeer := (measures_pushU64 peerId.get).ensure (r := peerId.get ≠ 0) (e := CodecError.invalidValue "peer ID")
    exact (hpeer.bind (measures_pushCapabilities capabilities limits)).congr (by simp [Frame.WellFormed]) rfl
  | claim ns headers =>
    exact ((measures_pushNamespace ns).bind (measures_pushHeaders headers limits)).congr (iff_of_eq (true_and _)) rfl
  | subscribe channel filters =>
    exact ((measures_pushName channel.asStr).bind (measures_pushFilters filters limits)).congr
      (by simp [Frame.WellFormed, channel.valid]) rfl
  | unsubscribe channel =>
    exact (measures_pushName channel.asStr).congr (iff_true_intro channel.valid) rfl
  | message m => exact measures_pushMessage m limits
  | acknowledge messageId policy =>
    exact ((measures_messageId messageId).bind (measures_push (ackPolicyTag policy))).ensure.congr
      (by simp [Frame.WellFormed]) rfl
  | deliveryResult messageId outcome =>
    exact ((measures_messageId messageId).bind (measures_push (deliveryOutcomeTag outcome))).ensure.congr
      (by simp [Frame.WellFormed]) rfl
  | protocolError code text =>
    exact ((measures_push (protocolErrorCodeTag code)).bind (measures_pushText text)).congr
      (iff_of_eq (true_and _)) rfl
  | controlResult operation => exact measures_push _
  | resolveNamespace ns => exact measures_pushNamespace ns
  | namespaceResolved ns owner =>
    exact ((measures_pushNamespace ns).bind (measures_pushOwner owner)).congr (iff_of_eq (true_and _)) rfl

theorem length_of_encodeWithLimits {frame : Frame} {packet : List UInt8}
    (h : frame.encodeWithLimits limits = .ok packet) : packet.length = headerSize + frame.bodySize := by
  obtain ⟨body, hbody, -, -, rfl⟩ := encodeWithLimits_eq_ok.mp h
  rw [List.length_append, length_commonHeader, (measures_encodeBody limits frame).length body hbody]

theorem exists_encodeWithLimits (frame : Frame) (limits : FrameLimits) :
    (∃ packet, frame.encodeWithLimits limits = .ok packet) ↔
      frame.WellFormed limits ∧ headerSize + frame.bodySize ≤ limits.maximumFrameSize ∧ frame.bodySize < 2 ^ 32 := by
  have hbody := measures_encodeBody limits frame
  constructor
  · rintro ⟨packet, h⟩
    obtain ⟨body, hemits, hfits, hsmall, -⟩ := encodeWithLimits_eq_ok.mp h
    rw [hbody.length body hemits] at hfits hsmall
    exact ⟨hbody.succeeds.mp ⟨body, hemits⟩, hfits, hsmall⟩
  · rintro ⟨hwell, hfits, hsmall⟩
    obtain ⟨body, hemits⟩ := hbody.succeeds.mpr hwell
    rw [← hbody.length body hemits] at hfits hsmall
    exact ⟨_, encodeWithLimits_eq_ok.mpr ⟨body, hemits, hfits, hsmall, rfl⟩⟩

/-- A frame encodes exactly if it is well formed and fits into the limit, and exactly these frames are decoded, from
packets of the size of their fields. -/
theorem encodes_iff (frame : Frame) (limits : FrameLimits) :
    ((∃ packet, frame.encodeWithLimits limits = .ok packet) ↔
        frame.WellFormed limits ∧ headerSize + frame.bodySize ≤ limits.maximumFrameSize ∧
          frame.bodySize < 2 ^ 32) ∧
      ((∃ packet, Frame.decodeWithLimits packet limits = .ok frame) ↔
        frame.WellFormed limits ∧ headerSize + frame.bodySize ≤ limits.maximumFrameSize ∧
          frame.bodySize < 2 ^ 32) ∧
      ∀ packet, Frame.decodeWithLimits packet limits = .ok frame → packet.length = headerSize + frame.bodySize := by
  refine ⟨exists_encodeWithLimits frame limits, ?_, fun packet h => ?_⟩
  · rw [← exists_encodeWithLimits]
    exact exists_congr fun packet => decodeWithLimits_eq_ok
  · exact length_of_encodeWithLimits (decodeWithLimits_eq_ok.mp h)

/-! ## Truncation -/

theorem beBytes_inj {width n k : Nat} (hn : n < 256 ^ width) (hk : k < 256 ^ width)
    (h : beBytes width n = beBytes width k) : n = k := by
  have hnat := congrArg beNat h
  rwa [beNat_beBytes, beNat_beBytes, Nat.mod_eq_of_lt hn, Nat.mod_eq_of_lt hk] at hnat

/-- The common header tells where a packet ends. -/
theorem append_eq_self {frame frame' : Frame} {limits' : FrameLimits} {packet rest : List UInt8}
    (h : frame.encodeWithLimits limits = .ok packet) (h' : frame'.encodeWithLimits limits' = .ok (packet ++ rest)) :
    rest = [] := by
  obtain ⟨body, -, -, hsmall, rfl⟩ := encodeWithLimits_eq_ok.mp h
  obtain ⟨body', -, -, hsmall', hpacket⟩ := encodeWithLimits_eq_ok.mp h'
  rw [List.append_assoc] at hpacket
  obtain ⟨hheader, hrest⟩ := List.append_inj hpacket (by rw [length_commonHeader, length_commonHeader])
  have hlength : body.length = body'.length := by
    refine beBytes_inj hsmall hsmall' (List.append_inj hheader ?_).2
    simp only [List.length_append, List.length_cons, List.length_nil, length_beBytes]
  rw [← hrest, List.length_append] at hlength
  exact List.eq_nil_of_length_eq_zero (by omega)

/-- No decoder accepts a packet of which bytes were cut off, or to which bytes were added. -/
theorem cut_rejected {frame : Frame} {packet : List UInt8} (h : Frame.decodeWithLimits packet limits = .ok frame) :
    (∀ n < packet.length, ∀ limits' frame', Frame.decodeWithLimits (packet.take n) limits' ≠ .ok frame') ∧
      ∀ rest ≠ [], ∀ limits' frame', Frame.decodeWithLimits (packet ++ rest) limits' ≠ .ok frame' := by
  rw [decodeWithLimits_eq_ok] at h
  refine ⟨fun n hn limits' frame' hcut => ?_, fun rest hrest limits' frame' hadded => ?_⟩
  · rw [← List.take_append_drop n packet] at h
    have hnil := append_eq_self (decodeWithLimits_eq_ok.mp hcut) h
    have hlength := congrArg List.length hnil
    rw [List.length_drop, List.length_nil] at hlength
    omega
  · exact hrest (append_eq_self h (decodeWithLimits_eq_ok.mp hadded))

theorem cut_rejected_referenceHello :
    Frame.decodeWithLimits referenceHelloPacket .default = .ok referenceHello ∧
      (∀ n < 44, ∀ limits' frame', Frame.decodeWithLimits (referenceHelloPacket.take n) limits' ≠ .ok frame') ∧
      ∀ rest ≠ [], ∀ limits' frame', Frame.decodeWithLimits (referenceHelloPacket ++ rest) limits' ≠ .ok frame' := by
  have h : Frame.decodeWithLimits referenceHelloPacket .default = .ok referenceHello := by decide +kernel
  exact ⟨h, cut_rejected h⟩

end Busd.Protocol
