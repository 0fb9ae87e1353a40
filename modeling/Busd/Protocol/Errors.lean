import Busd.Lib.Measure
import Busd.Protocol.Decode

/-!
# The errors of the decoder

Three kinds of `CodecError` carry a name. The names that the decoder gives are short.

* `CodecError.Brief` : the name, where there is one, has at most 64 bytes;
* `decodeWithLimits_brief` : every error of `decode_with_limits` is brief.
-/

namespace Busd.Protocol

open Words Codec

/-- The name that the error carries is short. -/
def CodecError.Brief : CodecError → Prop
  | .limitExceeded name | .invalidValue name | .nonCanonical name => (utf8Bytes name).length ≤ 64
  | _ => True

instance (e : CodecError) : Decidable e.Brief := by
  cases e <;> unfold CodecError.Brief <;> infer_instance

/-! ## Values that are computed -/

theorem mapError_brief {α : Type} {x : Except NameError α} {e : CodecError}
    (h : x.mapError CodecError.invalidName = .error e) : e.Brief := by
  cases x with
  | ok a => cases h
  | error _ =>
    cases h
    trivial

theorem validateDeliveryOptions_brief {kind : MessageKind} {ackPolicy : AckPolicy} {ackRequirement : AckRequirement}
    {requestPolicy : RequestPolicy} {deadlineMs : UInt32} {retry : RetryPolicy} {e : CodecError}
    (h : validateDeliveryOptions kind ackPolicy ackRequirement requestPolicy deadlineMs retry = .error e) :
    e.Brief := by
  unfold validateDeliveryOptions at h
  split_ifs at h <;> (cases h; decide)

theorem validateMessageIdentity_brief {kind : MessageKind} {messageId correlationId : MessageId} {status : Status}
    {e : CodecError} (h : validateMessageIdentity kind messageId correlationId status = .error e) : e.Brief := by
  unfold validateMessageIdentity at h
  split at h
  · cases h
    decide
  · split at h
    · split at h
      · cases h
        decide
      · cases h
    · split_ifs at h with hpresent hstatus
      · cases h
        decide
      · cases h
        decide

section Tags

variable {value : UInt8} {e : CodecError}

theorem decodeMessageKind_brief (h : decodeMessageKind value = .error e) : e.Brief := by
  unfold decodeMessageKind at h
  split at h <;> cases h
  decide

theorem decodeAckPolicy_brief (h : decodeAckPolicy value = .error e) : e.Brief := by
  unfold decodeAckPolicy at h
  split at h <;> cases h
  decide

theorem decodeRequestPolicy_brief (h : decodeRequestPolicy value = .error e) : e.Brief := by
  unfold decodeRequestPolicy at h
  split at h <;> cases h
  decide

theorem decodeDeliveryOutcome_brief (h : decodeDeliveryOutcome value = .error e) : e.Brief := by
  unfold decodeDeliveryOutcome at h
  split at h <;> cases h
  decide

theorem decodeStatus_brief (h : decodeStatus value = .error e) : e.Brief := by
  unfold decodeStatus at h
  split at h <;> cases h
  decide

theorem decodeProtocolErrorCode_brief (h : decodeProtocolErrorCode value = .error e) : e.Brief := by
  unfold decodeProtocolErrorCode at h
  split at h <;> cases h
  decide

theorem decodeClientSelection_brief (h : decodeClientSelection value = .error e) : e.Brief := by
  unfold decodeClientSelection at h
  split at h <;> cases h
  decide

theorem decodeControlOperation_brief (h : decodeControlOperation value = .error e) : e.Brief := by
  unfold decodeControlOperation at h
  split at h <;> cases h
  decide

end Tags

/-! ## Fields -/

namespace Reader

theorem raises_take (length : Nat) : Raises (take length) CodecError.Brief := by
  intro r e h
  change (if h : r.position + length ≤ r.bytes.length then _ else _) = _ at h
  split_ifs at h with hle
  cases h
  trivial

theorem raises_u8 : Raises u8 CodecError.Brief := (raises_take 1).bind fun _ => raises_pure _

theorem raises_u16 : Raises u16 CodecError.Brief := (raises_take 2).bind fun _ => raises_pure _

theorem raises_u32 : Raises u32 CodecError.Brief := (raises_take 4).bind fun _ => raises_pure _

theorem raises_u64 : Raises u64 CodecError.Brief := (raises_take 8).bind fun _ => raises_pure _

theorem raises_tag {α : Type} {decode : UInt8 → Except CodecError α}
    (h : ∀ value e, decode value = .error e → e.Brief) : Raises (tag decode) CodecError.Brief :=
  raises_u8.bind fun value => raises_lift (h value)

theorem raises_messageId : Raises messageId CodecError.Brief := by
  refine (raises_take 16).bind fun bytes => raises_lift fun e h => ?_
  unfold toMessageId at h
  split_ifs at h with hlength
  cases h
  trivial

theorem raises_text : Raises text CodecError.Brief := by
  refine raises_u16.bind fun length => (raises_take _).bind fun bytes => raises_lift fun e h => ?_
  unfold fromUtf8 at h
  split at h
  · cases h
  · cases h
    trivial

theorem raises_name : Raises name CodecError.Brief :=
  raises_text.bind fun _ => (raises_lift fun _ => mapError_brief).bind fun _ => raises_pure _

theorem raises_namespace : Raises «namespace» CodecError.Brief :=
  raises_text.bind fun _ => raises_lift fun _ => mapError_brief

theorem raises_channel : Raises channel CodecError.Brief :=
  raises_name.bind fun _ => raises_lift fun _ => mapError_brief

theorem raises_clientId : Raises clientId CodecError.Brief :=
  raises_name.bind fun _ => raises_lift fun _ => mapError_brief

theorem raises_binary : Raises binary CodecError.Brief := raises_u32.bind fun _ => raises_take _

theorem raises_boolean : Raises boolean CodecError.Brief := by
  refine raises_u8.bind fun byte => ?_
  split
  · exact raises_pure _
  · exact raises_pure _
  · exact raises_throw (by decide)

theorem raises_value : Raises value CodecError.Brief := by
  refine raises_u8.bind fun byte => ?_
  split
  · exact raises_text.bind fun _ => raises_pure _
  · exact raises_u64.bind fun _ => raises_pure _
  · exact raises_boolean.bind fun _ => raises_pure _
  · exact raises_binary.bind fun _ => raises_pure _
  · exact raises_throw (by decide)

theorem raises_entries {α : Type} {value : Decoder α} (hvalue : Raises value CodecError.Brief) (maximum : Nat)
    {countName blockName : String} (hcount : (CodecError.limitExceeded countName).Brief)
    (hblock : (CodecError.nonCanonical blockName).Brief) :
    Raises (entries value maximum countName blockName) CodecError.Brief := by
  refine raises_u16.bind fun count => (raises_ensure hcount).bind fun _ => Raises.bind ?_ fun _ => raises_pure _
  refine raises_loop (fun state => ?_) _ _
  exact raises_name.bind fun _ => (raises_ensure hblock).bind fun _ => hvalue.bind fun _ => raises_pure _

theorem raises_headers (limits : FrameLimits) : Raises (headers limits) CodecError.Brief :=
  raises_entries raises_value _ (by decide) (by decide)

theorem raises_capabilities (limits : FrameLimits) : Raises (capabilities limits) CodecError.Brief :=
  raises_entries (raises_pure _) _ (by decide) (by decide)

theorem raises_filter : Raises filter CodecError.Brief := by
  refine raises_u8.bind fun byte => raises_name.bind fun name => ?_
  split
  · exact raises_pure _
  · exact raises_pure _
  · exact raises_value.bind fun _ => raises_pure _
  · exact raises_value.bind fun _ => raises_pure _
  · exact raises_value.bind fun _ => raises_pure _
  · exact raises_throw (by decide)

theorem raises_filters (limits : FrameLimits) : Raises (filters limits) CodecError.Brief := by
  refine raises_u16.bind fun count => (raises_ensure (by decide)).bind fun _ => Raises.bind ?_ fun _ => raises_pure _
  refine raises_loop (fun state => ?_) _ _
  refine raises_get.bind fun _ => raises_filter.bind fun _ => raises_get.bind fun _ => ?_
  exact (raises_ensure (by decide)).bind fun _ => raises_pure _

theorem raises_ackRequirement : Raises ackRequirement CodecError.Brief := by
  refine raises_u8.bind fun byte => ?_
  split
  · exact raises_pure _
  · exact raises_pure _
  · exact raises_pure _
  · exact raises_u16.bind fun _ => (raises_ensure (by decide)).bind fun _ => raises_pure _
  · exact raises_throw (by decide)

theorem raises_retryPolicy : Raises retryPolicy CodecError.Brief := by
  refine raises_u8.bind fun byte => ?_
  split
  · exact raises_pure _
  · refine raises_u32.bind fun _ => raises_u8.bind fun _ => ?_
    exact (raises_ensure (by decide)).bind fun _ => raises_pure _
  · exact raises_throw (by decide)

theorem raises_peerId : Raises peerId CodecError.Brief :=
  raises_u64.bind fun _ => (raises_ensure (by decide)).bind fun _ => raises_pure _

theorem raises_destination : Raises destination CodecError.Brief := by
  refine raises_u8.bind fun byte => ?_
  split
  · exact raises_pure _
  · exact raises_peerId.bind fun _ => raises_pure _
  · exact raises_namespace.bind fun _ => raises_pure _
  · exact raises_channel.bind fun _ => raises_pure _
  · exact raises_pure _
  · exact raises_clientId.bind fun _ => (raises_tag fun _ _ => decodeClientSelection_brief).bind fun _ => raises_pure _
  · exact raises_throw (by decide)

end Reader

/-! ## Frames -/

open Reader

theorem raises_decodeHello (limits : FrameLimits) : Raises (decodeHello limits) CodecError.Brief := by
  have hclientId : Raises decodeClientId CodecError.Brief := by
    refine raises_u8.bind fun byte => ?_
    split
    · exact raises_pure _
    · exact raises_clientId.bind fun _ => raises_pure _
    · exact raises_throw (by decide)
  exact hclientId.bind fun _ => (raises_headers limits).bind fun _ => (raises_capabilities limits).bind fun _ =>
    raises_pure _

theorem raises_decodeMessage (limits : FrameLimits) : Raises (decodeMessage limits) CodecError.Brief := by
  refine Raises.bind ?_ fun _ => raises_pure _
  refine (raises_tag fun _ _ => decodeMessageKind_brief).bind fun kind => ?_
  refine (raises_tag fun _ _ => decodeAckPolicy_brief).bind fun ackPolicy => ?_
  refine raises_ackRequirement.bind fun ackRequirement => ?_
  refine (raises_tag fun _ _ => decodeRequestPolicy_brief).bind fun requestPolicy => ?_
  refine raises_u32.bind fun deadlineMs => raises_retryPolicy.bind fun retry => ?_
  refine raises_destination.bind fun destination => ?_
  refine raises_messageId.bind fun messageId => raises_messageId.bind fun correlationId => ?_
  refine (raises_tag fun _ _ => decodeStatus_brief).bind fun status => ?_
  refine (raises_lift fun _ => validateDeliveryOptions_brief).bind fun _ => ?_
  refine (raises_lift fun _ => validateMessageIdentity_brief).bind fun _ => ?_
  exact (raises_headers limits).bind fun _ => raises_binary.bind fun _ => raises_pure _

theorem raises_decodeNamespaceResolved : Raises decodeNamespaceResolved CodecError.Brief := by
  have howner : Raises decodeOwner CodecError.Brief := by
    refine raises_u8.bind fun byte => ?_
    split
    · exact raises_pure _
    · exact raises_peerId.bind fun _ => raises_pure _
    · exact raises_throw (by decide)
  exact raises_namespace.bind fun _ => howner.bind fun _ => raises_pure _

theorem raises_decodeBody (limits : FrameLimits) (kind : UInt8) :
    Raises (decodeBody limits kind) CodecError.Brief := by
  unfold decodeBody
  split
  · exact raises_decodeHello limits
  · exact raises_peerId.bind fun _ => (raises_capabilities limits).bind fun _ => raises_pure _
  · exact raises_namespace.bind fun _ => (raises_headers limits).bind fun _ => raises_pure _
  · exact raises_channel.bind fun _ => (raises_filters limits).bind fun _ => raises_pure _
  · exact raises_channel.bind fun _ => raises_pure _
  · exact raises_decodeMessage limits
  · exact (raises_tag fun _ _ => decodeProtocolErrorCode_brief).bind fun _ => raises_text.bind fun _ => raises_pure _
  · exact (raises_tag fun _ _ => decodeControlOperation_brief).bind fun _ => raises_pure _
  · exact raises_namespace.bind fun _ => raises_pure _
  · exact raises_decodeNamespaceResolved
  · exact raises_messageId.bind fun _ => (raises_tag fun _ _ => decodeAckPolicy_brief).bind fun _ =>
      (raises_ensure (by decide)).bind fun _ => raises_pure _
  · exact raises_messageId.bind fun _ => (raises_ensure (by decide)).bind fun _ =>
      (raises_tag fun _ _ => decodeDeliveryOutcome_brief).bind fun _ => raises_pure _
  · exact raises_throw trivial

theorem decodeWithLimits_brief {packet : List UInt8} {limits : FrameLimits} {e : CodecError}
    (h : Frame.decodeWithLimits packet limits = .error e) : e.Brief := by
  unfold Frame.decodeWithLimits at h
  split at h
  · rcases error_of_ensure_bind h with rfl | h
    · trivial
    rcases error_of_ensure_bind h with rfl | h
    · trivial
    rcases error_of_ensure_bind h with rfl | h
    · trivial
    rcases error_of_ensure_bind h with rfl | h
    · trivial
    rcases error_of_ensure_bind h with rfl | h
    · trivial
    rcases error_of_bind h with hbody | ⟨result, -, h⟩
    · exact raises_decodeBody limits _ _ e hbody
    rcases error_of_ensure_bind h with rfl | h
    · decide
    · cases h
  · cases h
    trivial

end Busd.Protocol
