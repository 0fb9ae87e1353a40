import Busd.Lib.Words

/-!
# Descriptors that come with a packet

The native transport receives a packet together with file descriptors, which the kernel installs in the process and
lists in a buffer of control data. From then on they are open until somebody closes them.

* `parseDescriptors`, `receivePacketWithFds`, `receivePacket` : the transport, over any outcome of `recvmsg`; a receipt
  says which descriptors the kernel installed and which were closed with their owners;
* `ControlMessage`, `Lists`, `Recvmsg.Lawful` : what the kernel writes, and that it lists what it installed;
* `parseDescriptors_lists` : the parser takes over all that is listed, whether it succeeds or fails;
* `descriptors_conserved_iff` : when every installed descriptor is returned or closed.

A `usize` is a natural number: the lengths of the control data are bounded by the buffer, so no sum overflows. Words are
little-endian.
-/

namespace Busd.Unix

open Words

/-! ## The layout of control data -/

def maxFileDescriptors : Nat := 16

/-- The flag that says that some control data did not fit. -/
def msgCtrunc : Int32 := 8

def scmRights : Int32 := 1

def solSocketCmsg : Int32 := 1

/-- The size of a `ControlMessageHeader`: a length, a level and a type. -/
def headerSize : Nat := 16

/-- A length rounded up to the alignment of `usize`. -/
def cmsgAlign (length : Nat) : Nat := (length + 8 - 1) / 8 * 8

def cmsgSpace (length : Nat) : Nat := cmsgAlign headerSize + cmsgAlign length

def cmsgLen (length : Nat) : Nat := headerSize + length

theorem le_cmsgAlign (length : Nat) : length ≤ cmsgAlign length := by
  unfold cmsgAlign
  omega

def readWord (width : Nat) (bytes : List UInt8) (offset : Nat) : Nat := leNat ((bytes.drop offset).take width)

def readUsize (bytes : List UInt8) (offset : Nat) : Nat := readWord 8 bytes offset

def readI32 (bytes : List UInt8) (offset : Nat) : Int32 := (UInt32.ofNat (readWord 4 bytes offset)).toInt32

/-! ## The transport -/

inductive ErrorKind where
  | invalidInput
  | invalidData
  deriving DecidableEq, Repr

inductive IoError where
  | new (kind : ErrorKind) (message : String)
  | lastOsError (code : Int32)
  deriving DecidableEq

/-- What `parse_descriptors` returns, and the descriptors that were closed because their owners were dropped. -/
structure Parsed where
  result : Except IoError (List Int32)
  closed : List Int32
  deriving DecidableEq

/-- The loop of `parse_descriptors`. The descriptors found so far are owned by the loop: an error drops them. -/
def parseFrom (control : List UInt8) (controlLength offset : Nat) (descriptors : List Int32) : Parsed :=
  if offset + headerSize ≤ controlLength then
    if readUsize control offset < cmsgLen 0 ∨ controlLength < offset + readUsize control offset then
      ⟨.error (.new .invalidData "native packet contains malformed control data"), descriptors⟩
    else if readI32 control (offset + 8) = solSocketCmsg ∧ readI32 control (offset + 12) = scmRights then
      let bytes := readUsize control offset - cmsgLen 0
      if bytes % 4 ≠ 0 then
        ⟨.error (.new .invalidData "native packet contains malformed file descriptors"), descriptors⟩
      else
        parseFrom control controlLength (offset + cmsgAlign (readUsize control offset))
          (descriptors ++ (List.range (bytes / 4)).map fun index =>
            readI32 control (offset + cmsgAlign headerSize + 4 * index))
    else parseFrom control controlLength (offset + cmsgAlign (readUsize control offset)) descriptors
  else ⟨.ok descriptors, []⟩
termination_by controlLength - offset
decreasing_by
  all_goals
    have halign := le_cmsgAlign (readUsize control offset)
    unfold cmsgLen headerSize at *
    omega

def parseDescriptors (control : List UInt8) (controlLength : Nat) : Parsed := parseFrom control controlLength 0 []

/-- What a call of `recvmsg` leaves behind: its result, `errno`, the message header and the buffers, and the descriptors
that it installed in the process. -/
structure Recvmsg where
  received : Int
  errno : Int32
  flags : Int32
  packet : List UInt8
  control : List UInt8
  controlLength : Nat
  installed : List Int32

/-- What a call of the transport returns, the descriptors that the kernel installed during it, and those that were
closed with their owners. -/
structure Receipt (α : Type) where
  result : Except IoError α
  installed : List Int32
  closed : List Int32
  deriving DecidableEq

/-- Receives one packet and its owned ancillary file descriptors. `recvmsg` is given the sizes of the two buffers. -/
def receivePacketWithFds (recvmsg : Nat → Nat → Recvmsg) (maximumSize maximumDescriptors : Nat) :
    Receipt (Option (List UInt8 × List Int32)) :=
  if maximumDescriptors > maxFileDescriptors then
    ⟨.error (.new .invalidInput "configured descriptor limit exceeds native transport limit"), [], []⟩
  else if maximumSize = 0 then ⟨.error (.new .invalidInput "maximum packet size must be non-zero"), [], []⟩
  else
    let message := recvmsg maximumSize (cmsgSpace (4 * maximumDescriptors))
    if message.received < 0 then ⟨.error (.lastOsError message.errno), message.installed, []⟩
    else if message.received = 0 then ⟨.ok none, message.installed, []⟩
    else if message.received > maximumSize then
      ⟨.error (.new .invalidData "native packet exceeds the configured maximum size"), message.installed, []⟩
    else if message.flags &&& msgCtrunc ≠ 0 then
      ⟨.error (.new .invalidData "native packet contains too many file descriptors"), message.installed, []⟩
    else
      let packet := message.packet.take message.received.toNat
      match parseDescriptors message.control message.controlLength with
      | ⟨.error error, closed⟩ => ⟨.error error, message.installed, closed⟩
      | ⟨.ok descriptors, closed⟩ =>
        if descriptors.length > maximumDescriptors then
          ⟨.error (.new .invalidData "native packet contains too many file descriptors"), message.installed,
            closed ++ descriptors⟩
        else ⟨.ok (some (packet, descriptors)), message.installed, closed⟩

def receivePacket (recvmsg : Nat → Nat → Recvmsg) (maximumSize : Nat) : Receipt (Option (List UInt8)) :=
  match receivePacketWithFds recvmsg maximumSize 0 with
  | ⟨.error error, installed, closed⟩ => ⟨.error error, installed, closed⟩
  | ⟨.ok none, installed, closed⟩ => ⟨.ok none, installed, closed⟩
  | ⟨.ok (some (packet, descriptors)), installed, closed⟩ =>
    if descriptors.isEmpty then ⟨.ok (some packet), installed, closed⟩
    else
      ⟨.error (.new .invalidData "native packet unexpectedly contains file descriptors"), installed,
        closed ++ descriptors⟩

/-! ## The kernel -/

/-- A control message: descriptors, or anything else. -/
inductive ControlMessage where
  | rights (descriptors : List Int32)
  | other (level messageType : Int32) (data : List UInt8) (h : ¬ (level = solSocketCmsg ∧ messageType = scmRights))

def i32Bytes (n : Int32) : List UInt8 := leBytes 4 n.toUInt32.toNat

namespace ControlMessage

def level : ControlMessage → Int32
  | rights _ => solSocketCmsg
  | other level _ _ _ => level

def messageType : ControlMessage → Int32
  | rights _ => scmRights
  | other _ messageType _ _ => messageType

def data : ControlMessage → List UInt8
  | rights descriptors => descriptors.flatMap i32Bytes
  | other _ _ data _ => data

def descriptors : ControlMessage → List Int32
  | rights descriptors => descriptors
  | other .. => []

def bytes (m : ControlMessage) : List UInt8 :=
  leBytes 8 (cmsgLen m.data.length) ++ (i32Bytes m.level ++ (i32Bytes m.messageType ++ m.data))

end ControlMessage

/-- A header that does not fit the bytes, or descriptors that are not whole. -/
def Malformed (bytes : List UInt8) : Prop :=
  headerSize ≤ bytes.length ∧ readUsize bytes 0 < 2 ^ 63 ∧
    (readUsize bytes 0 < cmsgLen 0 ∨ bytes.length < readUsize bytes 0 ∨
      (readI32 bytes 8 = solSocketCmsg ∧ readI32 bytes 12 = scmRights ∧ (readUsize bytes 0 - cmsgLen 0) % 4 ≠ 0))

/-- The descriptors that control data lists: messages, each with the padding to the next one, up to bytes that are no
message. The padding of the last message can be cut off. -/
inductive Lists : List UInt8 → List Int32 → Prop
  | short {rest : List UInt8} (h : rest.length < headerSize) : Lists rest []
  | malformed {rest : List UInt8} (h : Malformed rest) : Lists rest []
  | message {m : ControlMessage} {padding rest : List UInt8} {descriptors : List Int32}
      (hpadding : m.bytes.length + padding.length = cmsgAlign m.bytes.length) (h : Lists rest descriptors) :
      Lists (m.bytes ++ (padding ++ rest)) (m.descriptors ++ descriptors)
  | last {m : ControlMessage} {padding : List UInt8}
      (hpadding : m.bytes.length + padding.length < cmsgAlign m.bytes.length) :
      Lists (m.bytes ++ padding) m.descriptors

/-- What is assumed of the kernel, for a control buffer of the given size: a call that fails installs nothing; otherwise
it lists in the part of the buffer that it used what it installed. Of the flags nothing is assumed. -/
structure Recvmsg.Lawful (controlSize : Nat) (message : Recvmsg) : Prop where
  failed : message.received < 0 → message.installed = []
  size : message.control.length = controlSize
  used : message.controlLength ≤ controlSize
  listed : 0 ≤ message.received → Lists (message.control.take message.controlLength) message.installed

/-! ## Reading what the kernel wrote -/

/-- A word within a part of a buffer is a word of this part. -/
theorem readWord_middle {width k : Nat} {data : List UInt8} (h : k + width ≤ data.length) (front rest : List UInt8) :
    readWord width (front ++ (data ++ rest)) (front.length + k) = readWord width data k := by
  unfold readWord
  rw [List.drop_length_add_append, List.drop_append_of_le_length (by omega),
    List.take_append_of_le_length (by rw [List.length_drop]; omega)]

theorem readWord_append {width : Nat} {word : List UInt8} (h : word.length = width) (front rest : List UInt8) :
    readWord width (front ++ (word ++ rest)) front.length = leNat word := by
  unfold readWord
  rw [List.drop_left, List.take_left' h]

theorem length_i32Bytes (n : Int32) : (i32Bytes n).length = 4 := length_leBytes 4 _

theorem leNat_i32Bytes (n : Int32) : (UInt32.ofNat (leNat (i32Bytes n))).toInt32 = n := by
  have hlt : n.toUInt32.toNat < 256 ^ 4 := n.toUInt32.toNat_lt
  rw [i32Bytes, leNat_leBytes, Nat.mod_eq_of_lt hlt, UInt32.ofNat_toNat, Int32.toInt32_toUInt32]

theorem readI32_append (n : Int32) (front rest : List UInt8) :
    readI32 (front ++ (i32Bytes n ++ rest)) front.length = n := by
  rw [readI32, readWord_append (length_i32Bytes n), leNat_i32Bytes]

theorem readI32_flatMap (descriptors : List Int32) (front rest : List UInt8) :
    ((List.range descriptors.length).map fun index =>
      readI32 (front ++ (descriptors.flatMap i32Bytes ++ rest)) (front.length + 4 * index)) = descriptors := by
  induction descriptors generalizing front with
  | nil => rfl
  | cons d descriptors ih =>
    have hshift : front ++ ((d :: descriptors).flatMap i32Bytes ++ rest) =
        (front ++ i32Bytes d) ++ (descriptors.flatMap i32Bytes ++ rest) := by simp
    rw [List.length_cons, List.range_succ_eq_map, List.map_cons, List.map_map]
    congr 1
    · rw [List.flatMap_cons, List.append_assoc]
      exact readI32_append d front _
    · conv_rhs => rw [← ih (front ++ i32Bytes d)]
      refine List.map_congr_left fun index _ => ?_
      rw [Function.comp_apply, hshift, List.length_append, length_i32Bytes, Nat.succ_eq_add_one]
      congr 1
      omega

namespace ControlMessage

variable (m : ControlMessage)

theorem length_bytes : m.bytes.length = cmsgLen m.data.length := by
  simp only [bytes, List.length_append, length_leBytes, length_i32Bytes, cmsgLen, headerSize]
  omega

variable {m} (front rest : List UInt8)

theorem readUsize_bytes (h : m.bytes.length < 2 ^ 64) :
    readUsize (front ++ (m.bytes ++ rest)) front.length = m.bytes.length := by
  rw [length_bytes] at h ⊢
  rw [bytes, List.append_assoc, readUsize, readWord_append (length_leBytes 8 _), leNat_leBytes]
  exact Nat.mod_eq_of_lt h

theorem readI32_level : readI32 (front ++ (m.bytes ++ rest)) (front.length + 8) = m.level := by
  have hsplit : front ++ (m.bytes ++ rest) = (front ++ leBytes 8 (cmsgLen m.data.length)) ++
      (i32Bytes m.level ++ (i32Bytes m.messageType ++ m.data ++ rest)) := by simp [bytes]
  have hlength : front.length + 8 = (front ++ leBytes 8 (cmsgLen m.data.length)).length := by simp
  rw [hsplit, hlength, readI32_append]

theorem readI32_messageType : readI32 (front ++ (m.bytes ++ rest)) (front.length + 12) = m.messageType := by
  have hsplit : front ++ (m.bytes ++ rest) = (front ++ leBytes 8 (cmsgLen m.data.length) ++ i32Bytes m.level) ++
      (i32Bytes m.messageType ++ (m.data ++ rest)) := by simp [bytes]
  have hlength : front.length + 12 = (front ++ leBytes 8 (cmsgLen m.data.length) ++ i32Bytes m.level).length := by
    simp [length_i32Bytes]
  rw [hsplit, hlength, readI32_append]

/-- The descriptors start right after the header, which is aligned. -/
theorem readI32_descriptors (descriptors : List Int32) :
    ((List.range descriptors.length).map fun index => readI32 (front ++ ((rights descriptors).bytes ++ rest))
      (front.length + cmsgAlign headerSize + 4 * index)) = descriptors := by
  have hsplit : front ++ ((rights descriptors).bytes ++ rest) =
      (front ++ leBytes 8 (cmsgLen (rights descriptors).data.length) ++ i32Bytes solSocketCmsg ++
        i32Bytes scmRights) ++ (descriptors.flatMap i32Bytes ++ rest) := by
    simp only [bytes, List.append_assoc]
    rfl
  have hstart : front.length + cmsgAlign headerSize =
      (front ++ leBytes 8 (cmsgLen (rights descriptors).data.length) ++ i32Bytes solSocketCmsg ++
        i32Bytes scmRights).length := by
    simp [length_i32Bytes, cmsgAlign, headerSize]
  rw [hsplit, hstart]
  exact readI32_flatMap descriptors _ rest

end ControlMessage

theorem length_flatMap_i32Bytes (descriptors : List Int32) :
    (descriptors.flatMap i32Bytes).length = 4 * descriptors.length := by
  induction descriptors with
  | nil => rfl
  | cons d descriptors ih =>
    rw [List.flatMap_cons, List.length_append, length_i32Bytes, ih, List.length_cons]
    omega

section Parse

variable {controlLength : Nat} {front : List UInt8} {found : List Int32}

theorem parseFrom_end {control : List UInt8} {offset : Nat} (h : controlLength < offset + headerSize) :
    parseFrom control controlLength offset found = ⟨.ok found, []⟩ := by
  rw [parseFrom, if_neg (not_le.mpr h)]

/-- At a message the parser takes over the descriptors that it lists, and goes on after its padding. -/
theorem parseFrom_message {m : ControlMessage} {rest : List UInt8}
    (hfits : front.length + m.bytes.length ≤ controlLength) (hsize : controlLength < 2 ^ 64) :
    parseFrom (front ++ (m.bytes ++ rest)) controlLength front.length found =
      parseFrom (front ++ (m.bytes ++ rest)) controlLength (front.length + cmsgAlign m.bytes.length)
        (found ++ m.descriptors) := by
  have hread := ControlMessage.readUsize_bytes front rest (m := m) (by omega)
  have hlength := m.length_bytes
  have hlong : headerSize ≤ m.bytes.length := by
    rw [hlength, cmsgLen]
    omega
  conv_lhs =>
    rw [parseFrom, if_pos (by omega), if_neg (by rw [hread, cmsgLen]; omega), hread,
      ControlMessage.readI32_level, ControlMessage.readI32_messageType]
  cases m with
  | other level messageType data h =>
    have hother : ¬ ((ControlMessage.other level messageType data h).level = solSocketCmsg ∧
        (ControlMessage.other level messageType data h).messageType = scmRights) := h
    rw [if_neg hother, ControlMessage.descriptors, List.append_nil]
  | rights descriptors =>
    have hdata : (ControlMessage.rights descriptors).bytes.length - cmsgLen 0 = 4 * descriptors.length := by
      rw [hlength, ControlMessage.data, length_flatMap_i32Bytes, cmsgLen, cmsgLen]
      omega
    rw [if_pos ⟨rfl, rfl⟩]
    dsimp only
    rw [hdata, if_neg (by omega), Nat.mul_div_cancel_left _ (by decide), ControlMessage.readI32_descriptors,
      ControlMessage.descriptors]

/-- At a malformed message the parser fails, and closes what it found before. -/
theorem parseFrom_malformed {data rest : List UInt8} (h : Malformed data)
    (hlength : front.length + data.length = controlLength) :
    ∃ error, parseFrom (front ++ (data ++ rest)) controlLength front.length found = ⟨.error error, found⟩ := by
  obtain ⟨hlong, -, hbad⟩ := h
  unfold headerSize at hlong
  have hread : readUsize (front ++ (data ++ rest)) front.length = readUsize data 0 :=
    readWord_middle (k := 0) (by omega) front rest
  have hlevel : readI32 (front ++ (data ++ rest)) (front.length + 8) = readI32 data 8 := by
    rw [readI32, readWord_middle (by omega), readI32]
  have htype : readI32 (front ++ (data ++ rest)) (front.length + 12) = readI32 data 12 := by
    rw [readI32, readWord_middle (by omega), readI32]
  rw [parseFrom, if_pos (by unfold headerSize; omega), hread, hlevel, htype]
  split_ifs with hheader hrights
  · exact ⟨_, rfl⟩
  · dsimp only
    have htorn : (readUsize data 0 - cmsgLen 0) % 4 ≠ 0 := by
      rcases hbad with hbad | hbad | ⟨-, -, hbad⟩
      · exact absurd (.inl hbad) hheader
      · exact absurd (.inr (by omega)) hheader
      · exact hbad
    rw [if_pos htorn]
    exact ⟨_, rfl⟩
  · rcases hbad with hbad | hbad | ⟨hlevel, htype, -⟩
    · exact absurd (.inl hbad) hheader
    · exact absurd (.inr (by omega)) hheader
    · exact absurd ⟨hlevel, htype⟩ hrights

/-- The parser takes over all that is listed: it returns it, or fails and closes it. -/
theorem parseFrom_lists {data : List UInt8} {listed : List Int32} (h : Lists data listed) (rest : List UInt8)
    (hlength : front.length + data.length = controlLength) (hsize : controlLength < 2 ^ 64) :
    parseFrom (front ++ (data ++ rest)) controlLength front.length found = ⟨.ok (found ++ listed), []⟩ ∨
      ∃ error, parseFrom (front ++ (data ++ rest)) controlLength front.length found =
        ⟨.error error, found ++ listed⟩ := by
  induction h generalizing front found with
  | short hshort =>
    refine .inl ?_
    rw [parseFrom_end (by omega), List.append_nil]
  | malformed hbad =>
    refine .inr ?_
    rw [List.append_nil]
    exact parseFrom_malformed hbad hlength
  | @message m padding data descriptors hpadding h ih =>
    rw [List.length_append, List.length_append] at hlength
    have hnext : front.length + cmsgAlign m.bytes.length = (front ++ m.bytes ++ padding).length := by
      rw [← hpadding, List.length_append, List.length_append]
      omega
    have hshift : front ++ (m.bytes ++ (padding ++ data) ++ rest) =
        (front ++ m.bytes ++ padding) ++ (data ++ rest) := by simp
    have hstep : parseFrom (front ++ (m.bytes ++ (padding ++ data) ++ rest)) controlLength front.length found =
        parseFrom ((front ++ m.bytes ++ padding) ++ (data ++ rest)) controlLength (front ++ m.bytes ++ padding).length
          (found ++ m.descriptors) := by
      rw [← hnext, ← hshift, List.append_assoc m.bytes]
      exact parseFrom_message (by omega) hsize
    rw [hstep, ← List.append_assoc found]
    refine ih ?_
    rw [List.length_append, List.length_append]
    omega
  | @last m padding hpadding =>
    rw [List.length_append] at hlength
    refine .inl ?_
    rw [List.append_assoc m.bytes, parseFrom_message (by omega) hsize]
    exact parseFrom_end (by unfold headerSize; omega)

end Parse

theorem parseDescriptors_lists {control : List UInt8} {controlLength : Nat} {listed : List Int32}
    (h : Lists (control.take controlLength) listed) (hused : controlLength ≤ control.length)
    (hsize : controlLength < 2 ^ 64) :
    parseDescriptors control controlLength = ⟨.ok listed, []⟩ ∨
      ∃ error, parseDescriptors control controlLength = ⟨.error error, listed⟩ := by
  have hlength : ([] : List UInt8).length + (control.take controlLength).length = controlLength := by
    rw [List.length_take, List.length_nil]
    omega
  have hparse := @parseFrom_lists controlLength [] [] _ _ h (control.drop controlLength) hlength hsize
  rw [List.nil_append, List.take_append_drop, List.nil_append] at hparse
  exact hparse

/-! ## Conservation -/

/-- The descriptors that the caller gets to own. -/
def Receipt.returned (receipt : Receipt (Option (List UInt8 × List Int32))) : List Int32 :=
  match receipt.result with
  | .ok (some (_, descriptors)) => descriptors
  | .ok none | .error _ => []

/-- Every installed descriptor is returned; or the call fails, and has closed every one. -/
def Receipt.Conserved (receipt : Receipt (Option (List UInt8 × List Int32))) : Prop :=
  (∀ d ∈ receipt.installed, d ∈ receipt.returned) ∨
    ((∃ error, receipt.result = .error error) ∧ ∀ d ∈ receipt.installed, d ∈ receipt.closed)

/-- The call gets to the control data: there is a packet, it fits, and the control data is complete. -/
def Recvmsg.Taken (message : Recvmsg) (maximumSize : Nat) : Prop :=
  0 < message.received ∧ message.received ≤ maximumSize ∧ message.flags &&& msgCtrunc = 0

section Conservation

variable {recvmsg : Nat → Nat → Recvmsg} {maximumSize maximumDescriptors : Nat} {message : Recvmsg}
  (hlimit : maximumDescriptors ≤ maxFileDescriptors)
  (hcall : recvmsg maximumSize (cmsgSpace (4 * maximumDescriptors)) = message)

theorem cmsgSpace_lt (hlimit : maximumDescriptors ≤ maxFileDescriptors) :
    cmsgSpace (4 * maximumDescriptors) < 2 ^ 64 := by
  unfold maxFileDescriptors at hlimit
  unfold cmsgSpace cmsgAlign headerSize
  omega

include hlimit hcall

/-- A call that gets to the control data returns exactly what was installed, or fails and closes exactly this. -/
theorem receivePacketWithFds_taken (hlawful : message.Lawful (cmsgSpace (4 * maximumDescriptors)))
    (hsize : maximumSize ≠ 0) (h : message.Taken maximumSize) :
    (∃ packet, receivePacketWithFds recvmsg maximumSize maximumDescriptors =
        ⟨.ok (some (packet, message.installed)), message.installed, []⟩) ∨
      ∃ error, receivePacketWithFds recvmsg maximumSize maximumDescriptors =
        ⟨.error error, message.installed, message.installed⟩ := by
  obtain ⟨hpositive, hfits, hcomplete⟩ := h
  have hparse := parseDescriptors_lists (hlawful.listed hpositive.le) (hlawful.size ▸ hlawful.used)
    (hlawful.used.trans_lt (cmsgSpace_lt hlimit))
  unfold receivePacketWithFds
  dsimp only
  rw [if_neg (not_lt.mpr hlimit), if_neg hsize, hcall, if_neg (not_lt.mpr hpositive.le), if_neg hpositive.ne',
    if_neg (not_lt.mpr hfits), if_neg (not_not.mpr hcomplete)]
  rcases hparse with hparse | ⟨error, hparse⟩
  · rw [hparse]
    dsimp only
    split_ifs
    · exact .inr ⟨_, rfl⟩
    · exact .inl ⟨_, rfl⟩
  · rw [hparse]
    exact .inr ⟨error, rfl⟩

/-- Any other call leaves the descriptors that were installed to nobody. -/
theorem receivePacketWithFds_untaken (hsize : maximumSize ≠ 0) (h : ¬ message.Taken maximumSize) :
    ∃ result, receivePacketWithFds recvmsg maximumSize maximumDescriptors = ⟨result, message.installed, []⟩ ∧
      ∀ packet, result ≠ .ok (some packet) := by
  unfold receivePacketWithFds
  dsimp only
  rw [if_neg (not_lt.mpr hlimit), if_neg hsize, hcall]
  split_ifs with hfailed hempty hoversized htruncated
  · exact ⟨_, rfl, fun _ heq => by cases heq⟩
  · exact ⟨_, rfl, fun _ heq => by cases heq⟩
  · exact ⟨_, rfl, fun _ heq => by cases heq⟩
  · exact ⟨_, rfl, fun _ heq => by cases heq⟩
  · refine absurd ⟨?_, not_lt.mp hoversized, not_not.mp htruncated⟩ h
    omega

/-- Nothing is lost, exactly when nothing was installed or the call gets to the control data. -/
theorem descriptors_conserved_iff (hlawful : message.Lawful (cmsgSpace (4 * maximumDescriptors))) :
    (receivePacketWithFds recvmsg maximumSize maximumDescriptors).Conserved ↔
      maximumSize = 0 ∨ message.installed = [] ∨ message.Taken maximumSize := by
  by_cases hsize : maximumSize = 0
  · refine iff_of_true (.inl ?_) (.inl hsize)
    unfold receivePacketWithFds
    rw [if_neg (not_lt.mpr hlimit), if_pos hsize]
    exact fun d hd => absurd hd List.not_mem_nil
  by_cases htaken : message.Taken maximumSize
  · refine iff_of_true ?_ (.inr (.inr htaken))
    rcases receivePacketWithFds_taken hlimit hcall hlawful hsize htaken with ⟨packet, heq⟩ | ⟨error, heq⟩
    · rw [heq]
      exact .inl fun d hd => hd
    · rw [heq]
      exact .inr ⟨⟨error, rfl⟩, fun d hd => hd⟩
  · obtain ⟨result, heq, hnone⟩ := receivePacketWithFds_untaken hlimit hcall hsize htaken
    have hreturned : Receipt.returned ⟨result, message.installed, []⟩ = [] := by
      unfold Receipt.returned
      split
      · next packet descriptors hresult => exact absurd hresult (hnone _)
      · rfl
      · rfl
    have hlost : (⟨result, message.installed, []⟩ : Receipt _).Conserved ↔ message.installed = [] := by
      unfold Receipt.Conserved
      rw [hreturned, List.eq_nil_iff_forall_not_mem]
      refine ⟨?_, fun h => .inl fun d hd => absurd hd (h d)⟩
      rintro (h | ⟨-, h⟩) d hd
      · exact absurd (h d hd) List.not_mem_nil
      · exact absurd (h d hd) List.not_mem_nil
    rw [heq, hlost]
    exact ⟨fun h => .inr (.inl h), fun h => h.elim (absurd · hsize) fun h => h.elim id (absurd · htaken)⟩

end Conservation

/-- A packet of one byte with two descriptors: they fit the buffer for one, because it is aligned. -/
def twoDescriptors : Recvmsg := ⟨1, 0, 0, [0], (ControlMessage.rights [7, 8]).bytes, 24, [7, 8]⟩

theorem twoDescriptors_lists (control : List UInt8) (h : control = (ControlMessage.rights [7, 8]).bytes) :
    Lists (control.take 24) [7, 8] := by
  have hlists : Lists ((ControlMessage.rights [7, 8]).bytes ++ ([] ++ [])) ([7, 8] ++ []) :=
    .message (by decide +kernel) (.short (by decide))
  have hall : control.take 24 = (ControlMessage.rights [7, 8]).bytes ++ ([] ++ []) := by
    rw [h]
    decide +kernel
  rw [hall]
  exact hlists

theorem twoDescriptors_lawful : twoDescriptors.Lawful (cmsgSpace (4 * 1)) :=
  ⟨fun h => absurd h (by decide), by decide +kernel, by decide, fun _ => twoDescriptors_lists _ rfl⟩

example : receivePacketWithFds (fun _ _ => twoDescriptors) 64 1 =
    ⟨.error (.new .invalidData "native packet contains too many file descriptors"), [7, 8], [7, 8]⟩ := by
  decide +kernel

theorem descriptors_conserved_iff_two :
    (receivePacketWithFds (fun _ _ => twoDescriptors) 64 1).Conserved ↔
      64 = 0 ∨ twoDescriptors.installed = [] ∨ twoDescriptors.Taken 64 :=
  descriptors_conserved_iff (by decide) rfl twoDescriptors_lawful

/-- The same control data in a packet that is too long, in an empty one, and when a third descriptor did not fit. -/
theorem descriptors_lost :
    ({ twoDescriptors with received := 65 }.Lawful (cmsgSpace (4 * 1)) ∧
      receivePacketWithFds (fun _ _ => { twoDescriptors with received := 65 }) 64 1 =
        ⟨.error (.new .invalidData "native packet exceeds the configured maximum size"), [7, 8], []⟩) ∧
    ({ twoDescriptors with received := 0 }.Lawful (cmsgSpace (4 * 1)) ∧
      receivePacketWithFds (fun _ _ => { twoDescriptors with received := 0 }) 64 1 = ⟨.ok none, [7, 8], []⟩) ∧
    { twoDescriptors with flags := msgCtrunc }.Lawful (cmsgSpace (4 * 1)) ∧
      receivePacketWithFds (fun _ _ => { twoDescriptors with flags := msgCtrunc }) 64 1 =
        ⟨.error (.new .invalidData "native packet contains too many file descriptors"), [7, 8], []⟩ := by
  have hlawful : ∀ received flags, 0 ≤ received →
      Recvmsg.Lawful (cmsgSpace (4 * 1)) { twoDescriptors with received, flags } := fun received flags h =>
    ⟨fun hnegative => absurd h (not_le.mpr hnegative), twoDescriptors_lawful.size, twoDescriptors_lawful.used,
      fun _ => twoDescriptors_lists _ rfl⟩
  refine ⟨⟨hlawful 65 0 (by decide), ?_⟩, ⟨hlawful 0 0 (by decide), ?_⟩, hlawful 1 msgCtrunc (by decide), ?_⟩
  all_goals decide +kernel

/-! ## Packets without descriptors -/

/-- A buffer for no descriptors has no room for any. -/
theorem lists_eq_nil {data : List UInt8} {listed : List Int32} (h : Lists data listed)
    (hlength : data.length < cmsgLen 4) : listed = [] := by
  have hmessage : ∀ m : ControlMessage, m.bytes.length < cmsgLen 4 → m.descriptors = [] := by
    intro m hm
    cases m with
    | other => rfl
    | rights descriptors =>
      rw [ControlMessage.length_bytes, ControlMessage.data, length_flatMap_i32Bytes] at hm
      unfold cmsgLen at hm
      have hzero : descriptors.length = 0 := by omega
      exact List.length_eq_zero_iff.mp hzero
  induction h with
  | short => rfl
  | malformed => rfl
  | message hpadding h ih =>
    rw [List.length_append, List.length_append] at hlength
    rw [hmessage _ (by omega), ih (by omega)]
    rfl
  | last hpadding =>
    rw [List.length_append] at hlength
    exact hmessage _ (by omega)

theorem receivePacketWithFds_installed {recvmsg : Nat → Nat → Recvmsg} {maximumSize maximumDescriptors : Nat}
    (h : (recvmsg maximumSize (cmsgSpace (4 * maximumDescriptors))).installed = []) :
    (receivePacketWithFds recvmsg maximumSize maximumDescriptors).installed = [] := by
  unfold receivePacketWithFds
  -- the two checks of the arguments are made before the kernel is asked
  by_cases hdescriptors : maximumDescriptors > maxFileDescriptors
  · rw [if_pos hdescriptors]
  by_cases hsize : maximumSize = 0
  · rw [if_neg hdescriptors, if_pos hsize]
  rw [if_neg hdescriptors, if_neg hsize]
  dsimp only
  repeat' split
  all_goals exact h

theorem receivePacket_installed (recvmsg : Nat → Nat → Recvmsg) (maximumSize : Nat) :
    (receivePacket recvmsg maximumSize).installed = (receivePacketWithFds recvmsg maximumSize 0).installed := by
  unfold receivePacket
  split
  · next heq => rw [heq]
  · next heq => rw [heq]
  · next heq =>
    rw [heq]
    split_ifs
    · rfl
    · rfl

/-- Without room for descriptors the kernel installs none, so none is lost however the call ends. -/
theorem receivePacket_installs_none {recvmsg : Nat → Nat → Recvmsg} {maximumSize : Nat}
    (hlawful : (recvmsg maximumSize (cmsgSpace 0)).Lawful (cmsgSpace 0)) :
    (receivePacket recvmsg maximumSize).installed = [] := by
  rw [receivePacket_installed]
  refine receivePacketWithFds_installed ?_
  rcases lt_or_ge (recvmsg maximumSize (cmsgSpace 0)).received 0 with hfailed | hreceived
  · exact hlawful.failed hfailed
  · refine lists_eq_nil (hlawful.listed hreceived) ?_
    have hused := hlawful.used
    have hspace : cmsgSpace 0 < cmsgLen 4 := by decide
    rw [List.length_take]
    omega

end Busd.Unix
