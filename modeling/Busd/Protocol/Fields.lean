import Busd.Protocol.Decode

/-!
# The fields of a frame: what the encoder writes is what the reader accepts

One law per field (`*_codec`, in the sense of `Codec.IsCodec`), from the fixed-width integers up to
header blocks, filters and destinations.
-/

namespace Busd.Protocol

open Words Codec

/-! ## Bytes and integers -/

theorem take_codec (n : Nat) :
    IsCodec (fun l : List UInt8 => l.length = n) (fun l => tell l) (Reader.take n) where
  read_of_push := by
    intro l c r r' hlen he hc
    obtain rfl := emits_tell.mp he
    subst hlen
    have hle : r.position + c.length ≤ r.bytes.length := by
      have := r'.position_le
      rwa [hc.1, hc.2.1] at this
    change (if h : r.position + c.length ≤ r.bytes.length then _ else _) = _
    rw [dif_pos hle, ← List.prefix_iff_eq_take.mp hc.2.2]
    congr 2
    exact Reader.ext hc.1.symm hc.2.1.symm
  push_of_read := by
    intro l r r' hr
    change (if h : r.position + n ≤ r.bytes.length then _ else _) = _ at hr
    split_ifs at hr with hle
    cases hr
    have hlen : ((r.bytes.drop r.position).take n).length = n := by
      rw [List.length_take, List.length_drop]
      omega
    refine ⟨hlen, _, emits_tell.mpr rfl, rfl, ?_, List.take_prefix _ _⟩
    rw [hlen]

theorem u8_codec : IsCodecAll push Reader.u8 := by
  refine (take_codec 1).last fun b c => ?_
  simp only [push, emits_tell, true_and]
  constructor
  · rintro rfl
    exact ⟨[b], rfl, rfl, rfl⟩
  · rintro ⟨l, rfl, hlen, rfl⟩
    obtain ⟨b, rfl⟩ := List.length_eq_one_iff.mp hlen
    rfl

/-- A fixed-width integer, given the two conversions of its type. -/
theorem word_codec {α : Type} (width : Nat) (toNat : α → Nat) (ofNat : Nat → α)
    (hof : ∀ a, ofNat (toNat a) = a) (hto : ∀ n, n < 256 ^ width → toNat (ofNat n) = n)
    (hlt : ∀ a, toNat a < 256 ^ width) :
    IsCodecAll (fun a => (tell (beBytes width (toNat a)) : Encoder Unit))
      (Reader.take width >>= fun l => pure (ofNat (beNat l))) := by
  refine (take_codec width).last fun a c => ?_
  simp only [emits_tell, true_and]
  constructor
  · rintro rfl
    refine ⟨beBytes width (toNat a), ?_, length_beBytes _ _, rfl⟩
    rw [beNat_beBytes, Nat.mod_eq_of_lt (hlt a), hof]
  · rintro ⟨l, rfl, hlen, rfl⟩
    have hbound : beNat c < 256 ^ width := hlen ▸ beNat_lt c
    rw [hto _ hbound, beBytes_beNat hlen]

theorem u16_codec : IsCodecAll pushU16 Reader.u16 :=
  word_codec 2 UInt16.toNat UInt16.ofNat (fun _ => UInt16.ofNat_toNat)
    (fun _ h => UInt16.toNat_ofNat_of_lt' h) fun a => a.toNat_lt

theorem u32_codec : IsCodecAll pushU32 Reader.u32 :=
  word_codec 4 UInt32.toNat UInt32.ofNat (fun _ => UInt32.ofNat_toNat)
    (fun _ h => UInt32.toNat_ofNat_of_lt' h) fun a => a.toNat_lt

theorem u64_codec : IsCodecAll pushU64 Reader.u64 :=
  word_codec 8 UInt64.toNat UInt64.ofNat (fun _ => UInt64.ofNat_toNat)
    (fun _ h => UInt64.toNat_ofNat_of_lt' h) fun a => a.toNat_lt

theorem messageId_codec : IsCodecAll (fun id : MessageId => (tell id.asBytes : Encoder Unit))
    Reader.messageId := by
  refine (take_codec 16).map fun l id => ?_
  unfold Reader.toMessageId
  constructor
  · rintro ⟨hl, h⟩
    rw [dif_pos hl] at h
    cases h
    exact ⟨trivial, rfl⟩
  · rintro ⟨-, rfl⟩
    exact ⟨id.length_eq, by rw [dif_pos id.length_eq]⟩

/-! ## Sizes in front of their content -/

theorem tryU16_eq_ok {n : Nat} {what : String} {k : UInt16} : tryU16 n what = .ok k ↔ n = k.toNat := by
  unfold tryU16
  split_ifs with h
  · rw [Except.ok.injEq]
    exact ⟨fun hk => hk ▸ (UInt16.toNat_ofNat_of_lt' h).symm, fun hk => hk ▸ UInt16.ofNat_toNat⟩
  · have := k.toNat_lt
    simp only [false_iff]
    omega

theorem tryU32_eq_ok {n : Nat} {what : String} {k : UInt32} : tryU32 n what = .ok k ↔ n = k.toNat := by
  unfold tryU32
  split_ifs with h
  · rw [Except.ok.injEq]
    exact ⟨fun hk => hk ▸ (UInt32.toNat_ofNat_of_lt' h).symm, fun hk => hk ▸ UInt32.ofNat_toNat⟩
  · have := k.toNat_lt
    simp only [false_iff]
    omega

theorem fromUtf8_eq_ok {bytes : List UInt8} {value : String} :
    Reader.fromUtf8 bytes = .ok value ↔ utf8Bytes value = bytes := by
  rw [← ofUtf8?_eq_some]
  unfold Reader.fromUtf8
  split <;> simp_all

theorem text_codec : IsCodecAll pushText Reader.text := by
  refine IsCodec.derived u16_codec fun k => (take_codec k.toNat).map fun bytes value => ?_
  rw [fromUtf8_eq_ok, tryU16_eq_ok]
  constructor
  · rintro ⟨hlen, rfl⟩
    exact ⟨⟨trivial, hlen⟩, rfl⟩
  · rintro ⟨⟨-, hlen⟩, rfl⟩
    exact ⟨hlen, rfl⟩

theorem binary_codec : IsCodecAll pushBinary Reader.binary := by
  refine IsCodec.derived u32_codec fun k => (take_codec k.toNat).congr (fun bytes => ?_) ?_
  · rw [tryU32_eq_ok, true_and]
  · exact fun _ _ _ => Iff.rfl

/-! ## Names -/

theorem name_codec : IsCodecAll pushName Reader.name :=
  IsCodec.guarded text_codec.checked

theorem invalidName_eq_ok {α : Type} {parsed : Except NameError α} {a : α} :
    parsed.mapError CodecError.invalidName = .ok a ↔ parsed = .ok a := by
  cases parsed with
  | error e => simp [Except.mapError]
  | ok b => simp [Except.mapError]

theorem namespace_codec : IsCodecAll pushNamespace Reader.namespace :=
  text_codec.map fun _ _ => and_congr_right fun _ => invalidName_eq_ok.trans Namespace.parse_eq_ok

theorem channel_codec : IsCodecAll (fun channel : Channel => pushName channel.asStr) Reader.channel :=
  name_codec.map fun _ _ => and_congr_right fun _ => invalidName_eq_ok.trans Channel.parse_eq_ok

theorem clientId_codec : IsCodecAll (fun clientId : ClientId => pushName clientId.asStr) Reader.clientId :=
  name_codec.map fun _ _ => and_congr_right fun _ => invalidName_eq_ok.trans ClientId.parse_eq_ok

/-! ## Tags -/

theorem tag_codec {α : Type} {encode : α → UInt8} {decode : UInt8 → Except CodecError α}
    (hdecode : ∀ a, decode (encode a) = .ok a) (hencode : ∀ b a, decode b = .ok a → encode a = b) :
    IsCodecAll (fun a => push (encode a)) (Reader.tag decode) :=
  u8_codec.map fun _ _ => and_congr_right fun _ => ⟨hencode _ _, fun h => h ▸ hdecode _⟩

theorem messageKind_codec :
    IsCodecAll (fun kind => push (messageKindTag kind)) (Reader.tag decodeMessageKind) :=
  tag_codec (fun a => by cases a <;> rfl) fun b a h => by
    unfold decodeMessageKind at h
    split at h <;> cases h <;> rfl

theorem ackPolicy_codec :
    IsCodecAll (fun policy => push (ackPolicyTag policy)) (Reader.tag decodeAckPolicy) :=
  tag_codec (fun a => by cases a <;> rfl) fun b a h => by
    unfold decodeAckPolicy at h
    split at h <;> cases h <;> rfl

theorem requestPolicy_codec :
    IsCodecAll (fun policy => push (requestPolicyTag policy)) (Reader.tag decodeRequestPolicy) :=
  tag_codec (fun a => by cases a <;> rfl) fun b a h => by
    unfold decodeRequestPolicy at h
    split at h <;> cases h <;> rfl

theorem deliveryOutcome_codec :
    IsCodecAll (fun outcome => push (deliveryOutcomeTag outcome)) (Reader.tag decodeDeliveryOutcome) :=
  tag_codec (fun a => by cases a <;> rfl) fun b a h => by
    unfold decodeDeliveryOutcome at h
    split at h <;> cases h <;> rfl

theorem status_codec : IsCodecAll (fun status => push (statusTag status)) (Reader.tag decodeStatus) :=
  tag_codec (fun a => by cases a <;> rfl) fun b a h => by
    unfold decodeStatus at h
    split at h <;> cases h <;> rfl

theorem protocolErrorCode_codec :
    IsCodecAll (fun code => push (protocolErrorCodeTag code)) (Reader.tag decodeProtocolErrorCode) :=
  tag_codec (fun a => by cases a <;> rfl) fun b a h => by
    unfold decodeProtocolErrorCode at h
    split at h <;> cases h <;> rfl

theorem clientSelection_codec :
    IsCodecAll (fun selection => push (clientSelectionTag selection))
      (Reader.tag decodeClientSelection) :=
  tag_codec (fun a => by cases a <;> rfl) fun b a h => by
    unfold decodeClientSelection at h
    split at h <;> cases h <;> rfl

theorem controlOperation_codec :
    IsCodecAll (fun operation => push (controlOperationTag operation))
      (Reader.tag decodeControlOperation) :=
  tag_codec (fun a => by cases a <;> rfl) fun b a h => by
    unfold decodeControlOperation at h
    split at h <;> cases h <;> rfl

/-! ## Tagged values -/

theorem emits_push_pure {b : UInt8} {c : List UInt8} :
    Emits (push b) c ↔ Emits (push b >>= fun _ => pure ()) c := by
  simp [emits_bind, push]

theorem boolean_codec : IsCodecAll (fun value : Bool => push (if value then 1 else 0)) Reader.boolean := by
  refine IsCodec.tagged (fun value => if value then 1 else 0) (fun _ => pure ()) u8_codec
    (fun _ _ => emits_push_pure) fun tag => ?_
  split
  · exact IsCodec.pure (fun value => by cases value <;> decide) fun _ => emits_pure
  · exact IsCodec.pure (fun value => by cases value <;> decide) fun _ => emits_pure
  · next h0 h1 =>
    refine IsCodec.fail fun value hv => ?_
    cases value
    · exact h0 hv.symm
    · exact h1 hv.symm

def HeaderValue.tag : HeaderValue → UInt8
  | .text _ => 0
  | .unsigned _ => 1
  | .boolean _ => 2
  | .binary _ => 3

def HeaderValue.payload : HeaderValue → Encoder Unit
  | .text value => pushText value
  | .unsigned value => pushU64 value
  | .boolean value => push (if value then 1 else 0)
  | .binary value => pushBinary value

theorem value_codec : IsCodecAll pushValue Reader.value := by
  refine IsCodec.tagged HeaderValue.tag HeaderValue.payload u8_codec ?_ fun tag => ?_
  · intro value c
    cases value <;> rfl
  split
  · exact text_codec.last fun v c => by cases v <;> simp [HeaderValue.tag, HeaderValue.payload]
  · exact u64_codec.last fun v c => by cases v <;> simp [HeaderValue.tag, HeaderValue.payload]
  · exact boolean_codec.last fun v c => by cases v <;> simp [HeaderValue.tag, HeaderValue.payload]
  · exact binary_codec.last fun v c => by cases v <;> simp [HeaderValue.tag, HeaderValue.payload]
  · refine IsCodec.fail fun v hv => ?_
    cases v <;> simp_all [HeaderValue.tag]

def AckRequirement.tag : AckRequirement → UInt8
  | .none => 0
  | .any => 1
  | .all => 2
  | .minimum _ => 3

def AckRequirement.payload : AckRequirement → Encoder Unit
  | .minimum count => do
    liftM (ensure (count ≠ 0) (CodecError.invalidValue "acknowledgement minimum"))
    pushU16 count
  | _ => pure ()

theorem ackRequirement_codec : IsCodecAll pushAckRequirement Reader.ackRequirement := by
  refine IsCodec.tagged AckRequirement.tag AckRequirement.payload u8_codec ?_ fun tag => ?_
  · intro requirement c
    cases requirement with
    | minimum count => exact emits_check_swap
    | none => exact emits_push_pure
    | any => exact emits_push_pure
    | all => exact emits_push_pure
  split
  · exact IsCodec.pure (fun r => by cases r <;> simp [AckRequirement.tag]) fun _ => emits_pure
  · exact IsCodec.pure (fun r => by cases r <;> simp [AckRequirement.tag]) fun _ => emits_pure
  · exact IsCodec.pure (fun r => by cases r <;> simp [AckRequirement.tag]) fun _ => emits_pure
  · exact u16_codec.lastChecked fun r c => by
      cases r <;> simp [AckRequirement.tag, AckRequirement.payload, emits_check_bind]
  · refine IsCodec.fail fun r hr => ?_
    cases r <;> simp_all [AckRequirement.tag]

def RetryPolicy.tag : RetryPolicy → UInt8
  | .none => 0
  | .exponential .. => 1

def RetryPolicy.payload : RetryPolicy → Encoder Unit
  | .none => pure ()
  | .exponential backoff attempts => do
    liftM (ensure (backoff ≠ 0 ∧ 2 ≤ attempts) (CodecError.invalidValue "retry policy"))
    pushU32 backoff
    push attempts

theorem retryPolicy_codec : IsCodecAll pushRetryPolicy Reader.retryPolicy := by
  refine IsCodec.tagged RetryPolicy.tag RetryPolicy.payload u8_codec ?_ fun tag => ?_
  · intro retry c
    cases retry with
    | none => exact emits_push_pure
    | exponential backoff attempts => exact emits_check_swap
  split
  · exact IsCodec.pure (fun r => by cases r <;> simp [RetryPolicy.tag]) fun _ => emits_pure
  · have h : IsCodec (fun r => RetryPolicy.tag r = 1) RetryPolicy.payload
        ((Reader.u32 >>= fun backoff => Reader.u8 >>= fun attempts => pure (backoff, attempts)) >>=
          fun p => liftM (ensure (¬ (p.1 = 0 ∨ p.2 < 2)) (CodecError.invalidValue "retry policy")) >>=
            fun _ => pure (RetryPolicy.exponential p.1 p.2)) :=
      (u32_codec.prod u8_codec).lastChecked fun r c => by
        cases r <;> simp [RetryPolicy.tag, RetryPolicy.payload, emits_check_bind]
    simpa using h
  · refine IsCodec.fail fun r hr => ?_
    cases r <;> simp_all [RetryPolicy.tag]

theorem peerId_codec : IsCodecAll pushPeerId Reader.peerId := by
  refine u64_codec.lastChecked fun peer c => ?_
  simp only [pushPeerId, emits_check_bind, ensure_eq_ok, true_and]
  constructor
  · rintro ⟨hne, he⟩
    exact ⟨peer.get, rfl, hne, he⟩
  · rintro ⟨id, rfl, hne, he⟩
    exact ⟨hne, he⟩

def Destination.tag : Destination → UInt8
  | .broker => 0
  | .peer _ => 1
  | .namespace _ => 2
  | .channel _ => 3
  | .broadcast => 4
  | .clientId .. => 5

def Destination.payload : Destination → Encoder Unit
  | .broker => pure ()
  | .peer id => pushPeerId id
  | .namespace ns => pushNamespace ns
  | .channel name => pushName name.asStr
  | .broadcast => pure ()
  | .clientId id selection => do
    pushName id.asStr
    push (clientSelectionTag selection)

theorem destination_codec : IsCodecAll pushDestination Reader.destination := by
  refine IsCodec.tagged Destination.tag Destination.payload u8_codec ?_ fun tag => ?_
  · intro destination c
    cases destination with
    | broker => exact emits_push_pure
    | peer id => exact emits_check_swap
    | «namespace» ns => rfl
    | channel name => rfl
    | broadcast => exact emits_push_pure
    | clientId id selection => rfl
  split
  · exact IsCodec.pure (fun d => by cases d <;> simp [Destination.tag]) fun _ => emits_pure
  · exact peerId_codec.last fun d c => by cases d <;> simp [Destination.tag, Destination.payload]
  · exact namespace_codec.last fun d c => by cases d <;> simp [Destination.tag, Destination.payload]
  · exact channel_codec.last fun d c => by cases d <;> simp [Destination.tag, Destination.payload]
  · exact IsCodec.pure (fun d => by cases d <;> simp [Destination.tag]) fun _ => emits_pure
  · exact clientId_codec.last₂ clientSelection_codec fun d c => by
      cases d <;> simp [Destination.tag, Destination.payload]
  · refine IsCodec.fail fun d hd => ?_
    cases d <;> simp_all [Destination.tag]

end Busd.Protocol
