import Busd.Daemon.Dispatch
import Busd.Broker.Ops
import Busd.Protocol.Frames

/-!
# Whether an accepted message can be forwarded

The daemon checks a message when it decodes it, and adds a header before it encodes it again, under the same
limits.

* `pushEntries_grows` : what one more entry does to a block;
* `pushMessage_grows` : what the `broker.sender` header does to a message;
* `forwarded_encodes_iff` : which accepted messages can be forwarded.
-/

namespace Busd.Daemon

open Words Codec Busd.Protocol Busd.Broker

/-! ## One more header -/

def pushEntry {α : Type} (pushValue : α → Encoder Unit) (entry : String × α) : Encoder Unit := do
  pushName entry.1
  pushValue entry.2

theorem emits_pushEntries {α : Type} {pushValue : α → Encoder Unit} {maximum : Nat} {countName : String}
    {entries : OrdMap String α} {c : List UInt8} :
    Emits (pushEntries pushValue maximum countName entries) c ↔
      (entries.size ≤ maximum ∧ entries.size < 2 ^ 16) ∧
      (∀ e ∈ entries.entries, Emits (pushEntry pushValue e) (emitted (pushEntry pushValue e))) ∧
      c = beBytes 2 entries.size ++
        (entries.entries.map fun e => emitted (pushEntry pushValue e)).flatten := by
  have hforM := emits_forM (fun e _ h => (emitted_eq h : emitted (pushEntry pushValue e) = _)) entries.entries
  unfold pushEntries
  rw [emits_check_bind, ensure_eq_ok, and_assoc]
  refine and_congr_right fun _ => ?_
  rw [emits_lift_bind]
  refine ⟨?_, ?_⟩
  · rintro ⟨count, hcount, h⟩
    have hsize := tryU16_eq_ok.mp hcount
    obtain ⟨c₁, c₂, hc₁, hc₂, rfl⟩ := emits_bind.mp h
    obtain ⟨hall, rfl⟩ := (hforM c₂).mp hc₂
    exact ⟨hsize ▸ count.toNat_lt, hall, by rw [emits_tell.mp hc₁, hsize]⟩
  · rintro ⟨hlt, hall, rfl⟩
    have hsize : entries.size = (UInt16.ofNat entries.size).toNat := (UInt16.toNat_ofNat_of_lt' hlt).symm
    refine ⟨UInt16.ofNat entries.size, tryU16_eq_ok.mpr hsize, ?_⟩
    exact emits_bind.mpr ⟨_, _, emits_tell.mpr rfl, (hforM _).mpr ⟨hall, rfl⟩, by rw [← hsize]⟩

/-- A block with one more entry, which is encodable by itself. -/
theorem pushEntries_grows {α : Type} {pushValue : α → Encoder Unit} {maximum : Nat} {countName : String}
    {entries : OrdMap String α} {name : String} {value : α} {d : List UInt8}
    (hnew : entries.get? name = none) (hentry : Emits (pushEntry pushValue (name, value)) d) :
    GrowsIf (entries.size + 1 ≤ maximum ∧ entries.size + 1 < 2 ^ 16) d.length
      (pushEntries pushValue maximum countName entries)
      (pushEntries pushValue maximum countName (entries.insert name value)) := by
  intro c hc
  obtain ⟨-, hall, rfl⟩ := emits_pushEntries.mp hc
  have hperm := OrdMap.insert_new_entries_perm hnew value
  have hsize := OrdMap.size_insert_new hnew value
  have hall' : ∀ e ∈ (entries.insert name value).entries,
      Emits (pushEntry pushValue e) (emitted (pushEntry pushValue e)) := by
    intro e he
    rcases List.mem_cons.mp (hperm.mem_iff.mp he) with rfl | he
    · rwa [emitted_eq hentry]
    · exact hall e he
  refine ⟨⟨fun ⟨c', hc'⟩ => ?_, fun hp => ?_⟩, fun c' hc' => ?_⟩
  · rw [← hsize]
    exact (emits_pushEntries.mp hc').1
  · rw [← hsize] at hp
    exact ⟨_, emits_pushEntries.mpr ⟨hp, hall', rfl⟩⟩
  · obtain ⟨-, -, rfl⟩ := emits_pushEntries.mp hc'
    have hsum := ((hperm.map fun e => emitted (pushEntry pushValue e)).map List.length).sum_nat
    rw [List.map_cons, List.map_cons, List.sum_cons, emitted_eq hentry] at hsum
    simp only [List.length_append, length_beBytes, List.length_flatten]
    omega

/-! ## The sender's header -/

def senderHeader (sender : PeerId) : List UInt8 :=
  beBytes 2 13 ++ utf8Bytes "broker.sender" ++ ([1] ++ beBytes 8 sender.get.toNat)

theorem length_senderHeader (sender : PeerId) : (senderHeader sender).length = 24 := by
  have hname : (utf8Bytes "broker.sender").length = 13 := by decide
  simp [senderHeader, hname]

theorem emits_senderHeader (sender : PeerId) :
    Emits (pushEntry pushValue ("broker.sender", .unsigned sender.get)) (senderHeader sender) := by
  have hname : Emits (pushName "broker.sender") (beBytes 2 13 ++ utf8Bytes "broker.sender") := by
    refine emits_check_bind.mpr ⟨by decide, emits_lift_bind.mpr ⟨13, by decide, ?_⟩⟩
    exact emits_bind.mpr ⟨_, _, emits_tell.mpr rfl, emits_tell.mpr rfl, rfl⟩
  have hvalue : Emits (pushValue (.unsigned sender.get)) ([1] ++ beBytes 8 sender.get.toNat) :=
    emits_bind.mpr ⟨_, _, emits_tell.mpr rfl, emits_tell.mpr rfl, rfl⟩
  exact emits_bind.mpr ⟨_, _, hname, hvalue, rfl⟩

/-- Clients may not set the header, so stamping adds one. -/
theorem get?_sender_of_validate {headers : Headers} (h : validateMessageHeaders headers = .ok ()) :
    headers.get? "broker.sender" = none := by
  unfold validateMessageHeaders at h
  split at h
  · cases h
  · next hnone =>
    cases hget : headers.get? "broker.sender" with
    | none => rfl
    | some value =>
      have hmem : "broker.sender" ∈ headers.keys :=
        OrdMap.mem_keys_iff.mpr (OrdMap.contains_iff.mpr ⟨value, hget⟩)
      have hreserved := List.find?_eq_none.mp hnone "broker.sender" hmem
      exact absurd (by decide) hreserved

theorem pushMessage_grows {m : Message} {limits : FrameLimits} (sender : PeerId)
    (hnew : m.headers.get? "broker.sender" = none) :
    GrowsIf (m.headers.size + 1 ≤ limits.maximumHeaders ∧ m.headers.size + 1 < 2 ^ 16) 24
      (pushMessage m limits) (pushMessage (stamped sender m) limits) := by
  have hheaders : GrowsIf (m.headers.size + 1 ≤ limits.maximumHeaders ∧ m.headers.size + 1 < 2 ^ 16)
      (senderHeader sender).length (pushHeaders m.headers limits)
      (pushHeaders (stamped sender m).headers limits) := pushEntries_grows hnew (emits_senderHeader sender)
  rw [length_senderHeader] at hheaders
  unfold pushMessage
  -- the twelve steps before the headers are the same for both messages
  iterate 12 refine GrowsIf.head ?_
  exact GrowsIf.tail hheaders

/-! ## Forwarding -/

/-- An accepted message can be forwarded exactly when one more header fits: in the number of headers, in the
two bytes of their count, in the frame size and in the four bytes of the body length. -/
theorem forwarded_encodes_iff {limits : FrameLimits} {packet : List UInt8} {m : Message}
    (hdecode : Frame.decodeWithLimits packet limits = .ok (.message m))
    (hheaders : validateMessageHeaders m.headers = .ok ()) (sender : PeerId) (recipients : List PeerId) :
    (∃ packet', (dispatched (.deliver sender recipients (.message m))).2.encodeWithLimits limits =
        .ok packet') ↔
      m.headers.size + 1 ≤ limits.maximumHeaders ∧ m.headers.size + 1 < 2 ^ 16 ∧
        packet.length + 24 ≤ limits.maximumFrameSize ∧ packet.length + 24 < headerSize + 2 ^ 32 := by
  obtain ⟨body, hbody, -, -, rfl⟩ := encodeWithLimits_eq_ok.mp (decodeWithLimits_eq_ok.mp hdecode)
  have hlength : ∀ b : List UInt8, (commonHeader (Frame.message m).kind b.length ++ b).length =
      headerSize + b.length := by
    intro b
    simp [commonHeader, magic, headerSize]
    omega
  obtain ⟨hiff, hgrow⟩ := pushMessage_grows sender (get?_sender_of_validate hheaders) body hbody
  rw [hlength]
  refine ⟨?_, ?_⟩
  · rintro ⟨packet', h⟩
    obtain ⟨body', hbody', hsize, hlt, -⟩ := encodeWithLimits_eq_ok.mp h
    obtain ⟨hmax, hcount⟩ := hiff.mp ⟨body', hbody'⟩
    have hlen := hgrow body' hbody'
    exact ⟨hmax, hcount, by omega, by omega⟩
  · rintro ⟨hmax, hcount, hsize, hlt⟩
    obtain ⟨body', hbody'⟩ := hiff.mpr ⟨hmax, hcount⟩
    have hlen := hgrow body' hbody'
    exact ⟨_, encodeWithLimits_eq_ok.mpr ⟨body', hbody', by omega, by omega, rfl⟩⟩

/-! ## A message of the largest size -/

/-- A request to every other peer, 61 bytes long. -/
def smallRequest : Message := plainRequest (numberedId 1) .none .none .exact .broadcast

def smallPacket : List UInt8 :=
  [66, 85, 83, 49, 3, 6, 0, 0, 0, 0, 0, 49, 1, 0, 0, 0, 0, 0, 3, 232, 0, 4] ++ beBytes 16 1 ++
    List.replicate 23 0

def smallLimits : FrameLimits := { FrameLimits.default with maximumFrameSize := 61 }

/-- The request is accepted, and cannot be forwarded. -/
theorem smallRequest_stuck :
    Frame.decodeWithLimits smallPacket smallLimits = .ok (.message smallRequest) ∧
      validateMessageHeaders smallRequest.headers = .ok () ∧
      (dispatched (.deliver (.new 1) [.new 2] (.message smallRequest))).2.encodeWithLimits smallLimits =
        .error .frameTooLarge :=
  ⟨by decide +kernel, by decide +kernel, by decide +kernel⟩

/-- Under the default limits it is forwarded. -/
theorem forwarded_encodes_iff_smallRequest :
    ∃ packet, (dispatched (.deliver (.new 1) [.new 2] (.message smallRequest))).2.encodeWithLimits .default =
      .ok packet := by
  have hdecode : Frame.decodeWithLimits smallPacket .default = .ok (.message smallRequest) := by decide +kernel
  exact (forwarded_encodes_iff hdecode (by decide +kernel) (.new 1) [.new 2]).mpr (by decide +kernel)

end Busd.Daemon
