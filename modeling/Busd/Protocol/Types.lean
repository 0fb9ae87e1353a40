import Busd.Lib.OrdMap
import Busd.Lib.Words

/-!
# The protocol's data: names, identifiers, headers, frames

The types of `bus-protocol`. Names that only their `parse` functions build (`ClientId`, `Namespace`,
`Channel`) carry the proof that they were accepted; a message identifier carries its length.
A `BTreeMap` or `BTreeSet` is an `OrdMap` or `OrdSet`; a `String` is a `String`, whose order (by code
point) is the bytewise order of its UTF-8 form; a `usize` is a `Nat`.
-/

namespace Busd.Protocol

open Words

/-! ## Names -/

inductive NameError where
  | missingNamespaceScheme
  | invalid
  deriving DecidableEq, Repr

def maxNameLength : Nat := 255

/-- `u8::is_ascii_graphic`: `!` to `~`. -/
def isAsciiGraphic (byte : UInt8) : Bool := 33 ≤ byte && byte ≤ 126

/-- 1 to 255 visible ASCII bytes other than `/`. -/
def validateName (value : String) : Except NameError Unit :=
  let bytes := utf8Bytes value
  if bytes.isEmpty || bytes.length > maxNameLength ||
      !bytes.all (fun byte => isAsciiGraphic byte && byte != 47) then
    .error .invalid
  else .ok ()

def validateNamespace (value : String) : Except NameError Unit :=
  match stripPrefix value "bus://" with
  | none => .error .missingNamespaceScheme
  | some name => validateName name

structure ClientId where
  asStr : String
  valid : validateName asStr = .ok ()

structure Namespace where
  asStr : String
  valid : validateNamespace asStr = .ok ()

structure Channel where
  asStr : String
  valid : validateName asStr = .ok ()

/-- The three `parse` functions: check, then wrap the text. -/
def parseName {α : Type} {check : String → Except NameError Unit}
    (wrap : (value : String) → check value = .ok () → α) (value : String) : Except NameError α :=
  match h : check value with
  | .ok () => .ok (wrap value h)
  | .error error => .error error

def ClientId.parse (value : String) : Except NameError ClientId := parseName ClientId.mk value

def Namespace.parse (value : String) : Except NameError Namespace := parseName Namespace.mk value

def Channel.parse (value : String) : Except NameError Channel := parseName Channel.mk value

theorem parseName_eq_ok {α : Type} {check : String → Except NameError Unit}
    {wrap : (value : String) → check value = .ok () → α} {value : String} {a : α} :
    parseName wrap value = .ok a ↔ ∃ h : check value = .ok (), wrap value h = a := by
  unfold parseName
  split
  · next h =>
    rw [Except.ok.injEq]
    exact ⟨fun ha => ⟨h, ha⟩, fun ⟨_, ha⟩ => ha⟩
  · next h =>
    constructor
    · intro ha
      cases ha
    · rintro ⟨hok, -⟩
      rw [h] at hok
      cases hok

def IsNameChar (c : Char) : Prop := 33 ≤ c.toNat ∧ c.toNat ≤ 126 ∧ c ≠ '/'

instance (c : Char) : Decidable (IsNameChar c) := inferInstanceAs (Decidable (_ ∧ _ ∧ _))

theorem isNameChar_iff {c : Char} (hc : c.toNat < 128) :
    (isAsciiGraphic (.ofNat c.toNat) && UInt8.ofNat c.toNat != 47) = true ↔ IsNameChar c := by
  have hbyte : (UInt8.ofNat c.toNat).toNat = c.toNat := UInt8.toNat_ofNat_of_lt' (hc.trans (by decide))
  have hslash : UInt8.ofNat c.toNat = 47 ↔ c = '/' := by
    rw [← UInt8.toNat_inj, hbyte, ← Char.toNat_inj]
    rfl
  unfold isAsciiGraphic IsNameChar
  rw [Bool.and_eq_true, Bool.and_eq_true, bne_iff_ne, ne_eq, hslash, decide_eq_true_iff, decide_eq_true_iff,
    UInt8.le_iff_toNat_le, UInt8.le_iff_toNat_le, hbyte, and_assoc]
  rfl

theorem validateName_bytes {value : String} : validateName value = .ok () ↔
    utf8Bytes value ≠ [] ∧ (utf8Bytes value).length ≤ maxNameLength ∧
      ∀ b ∈ utf8Bytes value, (isAsciiGraphic b && b != 47) = true := by
  unfold validateName
  dsimp only
  split_ifs with hbad
  · simp only [Bool.or_eq_true, List.isEmpty_iff, decide_eq_true_eq, Bool.not_eq_true', List.all_eq_false] at hbad
    refine iff_of_false (fun h => by cases h) fun ⟨hne, hlength, hall⟩ => ?_
    rcases hbad with (hempty | hlong) | ⟨b, hb, hbyte⟩
    · exact hne hempty
    · omega
    · exact hbyte (hall b hb)
  · simp only [Bool.or_eq_true, List.isEmpty_iff, decide_eq_true_eq, Bool.not_eq_true', not_or, not_lt,
      Bool.not_eq_false, List.all_eq_true] at hbad
    exact iff_of_true rfl ⟨hbad.1.1, hbad.1.2, hbad.2⟩

/-- The names that are accepted, by their characters: each of them is one byte. -/
theorem validateName_eq_ok {value : String} : validateName value = .ok () ↔
    value.toList ≠ [] ∧ value.toList.length ≤ maxNameLength ∧ ∀ c ∈ value.toList, IsNameChar c := by
  have hascii : ∀ {c : Char}, IsNameChar c → c.toNat < 128 := fun h => Nat.lt_of_le_of_lt h.2.1 (by decide)
  rw [validateName_bytes]
  refine ⟨fun ⟨hne, hlength, hall⟩ => ?_, fun ⟨hne, hlength, hall⟩ => ?_⟩
  · have hchars := ascii_of_utf8Bytes fun b hb => by
      have hgraphic := hall b hb
      simp only [isAsciiGraphic, Bool.and_eq_true, decide_eq_true_eq, UInt8.le_iff_toNat_le] at hgraphic
      exact Nat.lt_of_le_of_lt hgraphic.1.2 (by decide)
    rw [utf8Bytes_of_ascii hchars, List.length_map] at hlength
    rw [utf8Bytes_of_ascii hchars, ne_eq, List.map_eq_nil_iff] at hne
    refine ⟨hne, hlength, fun c hc => (isNameChar_iff (hchars c hc)).mp (hall _ ?_)⟩
    rw [utf8Bytes_of_ascii hchars]
    exact List.mem_map_of_mem hc
  · rw [utf8Bytes_of_ascii fun c hc => hascii (hall c hc), List.length_map, ne_eq, List.map_eq_nil_iff]
    refine ⟨hne, hlength, fun b hb => ?_⟩
    obtain ⟨c, hc, rfl⟩ := List.mem_map.mp hb
    exact (isNameChar_iff (hascii (hall c hc))).mpr (hall c hc)

theorem ClientId.ext {a b : ClientId} (h : a.asStr = b.asStr) : a = b := by
  cases a; cases b; cases h; rfl

theorem Namespace.ext {a b : Namespace} (h : a.asStr = b.asStr) : a = b := by
  cases a; cases b; cases h; rfl

theorem Channel.ext {a b : Channel} (h : a.asStr = b.asStr) : a = b := by
  cases a; cases b; cases h; rfl

theorem ClientId.parse_eq_ok {value : String} {id : ClientId} :
    ClientId.parse value = .ok id ↔ id.asStr = value := by
  rw [ClientId.parse, parseName_eq_ok]
  exact ⟨fun ⟨_, h⟩ => h ▸ rfl, fun h => h ▸ ⟨id.valid, rfl⟩⟩

theorem Namespace.parse_eq_ok {value : String} {ns : Namespace} :
    Namespace.parse value = .ok ns ↔ ns.asStr = value := by
  rw [Namespace.parse, parseName_eq_ok]
  exact ⟨fun ⟨_, h⟩ => h ▸ rfl, fun h => h ▸ ⟨ns.valid, rfl⟩⟩

theorem Channel.parse_eq_ok {value : String} {channel : Channel} :
    Channel.parse value = .ok channel ↔ channel.asStr = value := by
  rw [Channel.parse, parseName_eq_ok]
  exact ⟨fun ⟨_, h⟩ => h ▸ rfl, fun h => h ▸ ⟨channel.valid, rfl⟩⟩

instance : LinearOrder ClientId := LinearOrder.lift' ClientId.asStr fun _ _ => ClientId.ext
instance : LinearOrder Namespace := LinearOrder.lift' Namespace.asStr fun _ _ => Namespace.ext
instance : LinearOrder Channel := LinearOrder.lift' Channel.asStr fun _ _ => Channel.ext

/-! ## Identifiers -/

structure PeerId where
  new ::
  get : UInt64
  deriving DecidableEq, Repr

theorem PeerId.ext {a b : PeerId} (h : a.get = b.get) : a = b := by
  cases a; cases b; cases h; rfl

instance : LinearOrder PeerId := LinearOrder.lift' PeerId.get fun _ _ => PeerId.ext

/-- A stable 128-bit logical message identifier. -/
structure MessageId where
  new ::
  asBytes : List UInt8
  length_eq : asBytes.length = 16

theorem MessageId.ext {a b : MessageId} (h : a.asBytes = b.asBytes) : a = b := by
  cases a; cases b; cases h; rfl

instance : LinearOrder MessageId := LinearOrder.lift' MessageId.asBytes fun _ _ => MessageId.ext

/-- The reserved all-zero absent identifier. -/
def MessageId.absent : MessageId := ⟨List.replicate 16 0, rfl⟩

def MessageId.isAbsent (id : MessageId) : Bool := id.asBytes == List.replicate 16 0

/-! ## Headers -/

inductive HeaderValue where
  | text (value : String)
  | unsigned (value : UInt64)
  | boolean (value : Bool)
  | binary (value : List UInt8)
  deriving DecidableEq

/-- Claimed or message headers, ordered for canonical encoding. -/
abbrev Headers := OrdMap String HeaderValue

/-- Negotiated capability names, ordered for canonical encoding. -/
abbrev Capabilities := OrdSet String

inductive HeaderFilter where
  | doesExist (name : String)
  | doesNotExist (name : String)
  | equal (name : String) (value : HeaderValue)
  | notEqual (name : String) (value : HeaderValue)
  | hasPrefix (name : String) (value : HeaderValue)
  deriving DecidableEq

/-! ## Message options -/

inductive MessageKind where
  | signal | request | response
  deriving DecidableEq, Repr

inductive AckPolicy where
  | none | accepted | received | processed
  deriving DecidableEq, Repr

/-- `matches!(policy, AckPolicy::Received | AckPolicy::Processed)`. -/
def AckPolicy.byRecipient : AckPolicy → Bool
  | .received | .processed => true
  | .none | .accepted => false

inductive AckRequirement where
  | none
  | any
  | all
  | minimum (count : UInt16)
  deriving DecidableEq, Repr

inductive RequestPolicy where
  | exact | first | firstSuccess | all
  deriving DecidableEq, Repr

/-- A bounded broker-managed retry schedule. -/
inductive RetryPolicy where
  | none
  | exponential (initialBackoffMs : UInt32) (maxAttempts : UInt8)
  deriving DecidableEq, Repr

inductive DeliveryOutcome where
  | accepted | received | processed | timeout | noRecipient | recipientDisconnected | deliveryFailed
  deriving DecidableEq, Repr

inductive ClientSelection where
  | first | any | all
  deriving DecidableEq, Repr

inductive Destination where
  | broker
  | peer (peer : PeerId)
  | «namespace» (ns : Namespace)
  | channel (channel : Channel)
  | clientId (clientId : ClientId) (selection : ClientSelection)
  | broadcast
  deriving DecidableEq

inductive ControlOperation where
  | claim | subscribe | unsubscribe
  deriving DecidableEq, Repr

inductive Status where
  | success | error | unsupported | denied | busy | notFound
  deriving DecidableEq, Repr

inductive ProtocolErrorCode where
  | malformedFrame | unsupportedVersion | unknownFrameKind | limitExceeded | nonCanonical
  | invalidState | noRecipient
  deriving DecidableEq, Repr

/-! ## Frames -/

/-- The fields of `Frame::Message`. -/
structure Message where
  kind : MessageKind
  ackPolicy : AckPolicy
  ackRequirement : AckRequirement
  requestPolicy : RequestPolicy
  deadlineMs : UInt32
  retry : RetryPolicy
  destination : Destination
  messageId : MessageId
  correlationId : MessageId
  status : Status
  headers : Headers
  payload : List UInt8
  deriving DecidableEq

inductive Frame where
  | hello (clientId : Option ClientId) (headers : Headers) (capabilities : Capabilities)
  | welcome (peerId : PeerId) (capabilities : Capabilities)
  | claim (ns : Namespace) (headers : Headers)
  | subscribe (channel : Channel) (filters : List HeaderFilter)
  | unsubscribe (channel : Channel)
  | message (message : Message)
  | acknowledge (messageId : MessageId) (policy : AckPolicy)
  | deliveryResult (messageId : MessageId) (outcome : DeliveryOutcome)
  | protocolError (code : ProtocolErrorCode) (message : String)
  | controlResult (operation : ControlOperation)
  | resolveNamespace (ns : Namespace)
  | namespaceResolved (ns : Namespace) (owner : Option PeerId)
  deriving DecidableEq

structure FrameLimits where
  maximumFrameSize : Nat
  maximumHeaders : Nat
  maximumCapabilities : Nat
  maximumFilters : Nat
  deriving DecidableEq

def FrameLimits.default : FrameLimits where
  maximumFrameSize := 1048576
  maximumHeaders := 128
  maximumCapabilities := 128
  maximumFilters := 64

inductive CodecError where
  | truncated
  | invalidMagic
  | unsupportedVersion (version : UInt8)
  | unknownFrameKind (kind : UInt8)
  | reservedFlags (flags : UInt16)
  | lengthMismatch
  | frameTooLarge
  | limitExceeded (name : String)
  | invalidValue (name : String)
  | nonCanonical (name : String)
  | invalidName (error : NameError)
  | invalidUtf8
  deriving DecidableEq

end Busd.Protocol
