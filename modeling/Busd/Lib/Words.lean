import Mathlib.Algebra.Order.Ring.Nat
import Mathlib.Data.List.Lex
import Mathlib.Data.Nat.Digits.Defs
import Mathlib.Data.String.Basic
import Mathlib.Order.Basic
import Mathlib.Tactic.Ring

/-!
# Machine words: order, bounded arithmetic, bytes, UTF-8 text

* `LinearOrder` for the word types used as keys and as bytes;
* `checkedAdd`, `saturatingAdd`, `saturatingMul` on 64-bit words, read through `toNat`;
* `beBytes`, `beNat` : big-endian bytes of a natural, inverse to each other at a fixed width; `leBytes`, `leNat` :
  the same in the other order;
* `utf8Bytes`, `ofUtf8?` : the bytes of a text, and the text of bytes that are valid UTF-8; ASCII text has one byte for
  each character;
  `startsWith`, `stripPrefix` on texts.
-/

instance UInt8.linearOrder : LinearOrder UInt8 where
  le_refl := UInt8.le_refl
  le_trans _ _ _ := UInt8.le_trans
  le_antisymm _ _ := UInt8.le_antisymm
  le_total := UInt8.le_total
  lt_iff_le_not_ge a b := by
    rw [UInt8.lt_iff_toNat_lt, UInt8.le_iff_toNat_le, UInt8.le_iff_toNat_le]
    omega
  toDecidableLE := inferInstance

instance UInt64.linearOrder : LinearOrder UInt64 where
  le_refl := UInt64.le_refl
  le_trans _ _ _ := UInt64.le_trans
  le_antisymm _ _ := UInt64.le_antisymm
  le_total := UInt64.le_total
  lt_iff_le_not_ge a b := by
    rw [UInt64.lt_iff_toNat_lt, UInt64.le_iff_toNat_le, UInt64.le_iff_toNat_le]
    omega
  toDecidableLE := inferInstance

namespace Words

/-! ## Bounded arithmetic -/

def u64Max : UInt64 := UInt64.ofNat (2 ^ 64 - 1)

def checkedAdd (a b : UInt64) : Option UInt64 :=
  if a.toNat + b.toNat < 2 ^ 64 then some (a + b) else none

def saturatingAdd (a b : UInt64) : UInt64 :=
  if a.toNat + b.toNat < 2 ^ 64 then a + b else u64Max

def saturatingMul (a b : UInt64) : UInt64 :=
  if a.toNat * b.toNat < 2 ^ 64 then a * b else u64Max

theorem toNat_u64Max : u64Max.toNat = 2 ^ 64 - 1 := rfl

theorem checkedAdd_eq_some {a b c : UInt64} (h : checkedAdd a b = some c) :
    c.toNat = a.toNat + b.toNat := by
  unfold checkedAdd at h
  split_ifs at h with hlt
  cases h
  rw [UInt64.toNat_add, Nat.mod_eq_of_lt hlt]

theorem lt_of_checkedAdd {a b c : UInt64} (hb : 0 < b.toNat) (h : checkedAdd a b = some c) : a < c := by
  rw [UInt64.lt_iff_toNat_lt, checkedAdd_eq_some h]
  omega

theorem toNat_saturatingAdd (a b : UInt64) :
    (saturatingAdd a b).toNat = min (a.toNat + b.toNat) (2 ^ 64 - 1) := by
  unfold saturatingAdd
  split_ifs with h
  · rw [UInt64.toNat_add, Nat.mod_eq_of_lt h]
    omega
  · rw [toNat_u64Max]
    omega

theorem toNat_saturatingAdd_of_lt {a b : UInt64} (h : saturatingAdd a b < u64Max) :
    (saturatingAdd a b).toNat = a.toNat + b.toNat := by
  rw [UInt64.lt_iff_toNat_lt, toNat_u64Max] at h
  rw [toNat_saturatingAdd] at h ⊢
  omega

theorem le_saturatingAdd (a b : UInt64) : a ≤ saturatingAdd a b := by
  have ha := a.toNat_lt
  rw [UInt64.le_iff_toNat_le, toNat_saturatingAdd]
  omega

theorem saturatingAdd_one {a : UInt64} (h : saturatingAdd a 1 < u64Max) : a < saturatingAdd a 1 := by
  rw [UInt64.lt_iff_toNat_lt, toNat_saturatingAdd] at h ⊢
  rw [toNat_u64Max] at h
  have hone : (1 : UInt64).toNat = 1 := rfl
  omega

theorem saturatingAdd_ofNat_one {n : Nat} (h : n + 1 < 2 ^ 64) :
    saturatingAdd (UInt64.ofNat n) 1 = UInt64.ofNat (n + 1) := by
  have hone : (1 : UInt64).toNat = 1 := rfl
  rw [← UInt64.toNat_inj, toNat_saturatingAdd, UInt64.toNat_ofNat_of_lt' h,
    UInt64.toNat_ofNat_of_lt' (show n < 2 ^ 64 by omega)]
  omega

theorem toNat_saturatingMul (a b : UInt64) :
    (saturatingMul a b).toNat = min (a.toNat * b.toNat) (2 ^ 64 - 1) := by
  unfold saturatingMul
  split_ifs with h
  · rw [UInt64.toNat_mul, Nat.mod_eq_of_lt h]
    omega
  · rw [toNat_u64Max]
    omega

theorem saturatingAdd_eq_left_iff {a b : UInt64} : saturatingAdd a b = a ↔ a = u64Max ∨ b = 0 := by
  have ha := a.toNat_lt
  rw [← UInt64.toNat_inj, ← UInt64.toNat_inj, ← UInt64.toNat_inj, toNat_saturatingAdd, toNat_u64Max]
  change _ ↔ _ ∨ b.toNat = 0
  omega

theorem saturatingMul_eq_zero_iff {a b : UInt64} : saturatingMul a b = 0 ↔ a = 0 ∨ b = 0 := by
  have hmul : a.toNat * b.toNat = 0 ↔ a.toNat = 0 ∨ b.toNat = 0 := Nat.mul_eq_zero
  rw [← UInt64.toNat_inj, ← UInt64.toNat_inj, ← UInt64.toNat_inj, toNat_saturatingMul]
  change _ = 0 ↔ a.toNat = 0 ∨ b.toNat = 0
  rw [← hmul]
  omega

/-! ## Big-endian bytes -/

def beBytes : Nat → Nat → List UInt8
  | 0, _ => []
  | width + 1, n => UInt8.ofNat (n / 256 ^ width) :: beBytes width n

/-- The natural number of big-endian bytes. -/
def beNat : List UInt8 → Nat
  | [] => 0
  | b :: bs => b.toNat * 256 ^ bs.length + beNat bs

@[simp] theorem length_beBytes (width n : Nat) : (beBytes width n).length = width := by
  induction width with
  | zero => rfl
  | succ width ih => rw [beBytes, List.length_cons, ih]

theorem beNat_lt (bs : List UInt8) : beNat bs < 256 ^ bs.length := by
  induction bs with
  | nil => simp [beNat]
  | cons b bs ih =>
    have hb : b.toNat + 1 ≤ 256 := b.toNat_lt
    have hmul : (b.toNat + 1) * 256 ^ bs.length ≤ 256 * 256 ^ bs.length := Nat.mul_le_mul_right _ hb
    rw [beNat, List.length_cons, pow_succ']
    rw [Nat.add_mul, Nat.one_mul] at hmul
    omega

theorem beNat_beBytes (width n : Nat) : beNat (beBytes width n) = n % 256 ^ width := by
  induction width with
  | zero => simp [beBytes, beNat, Nat.mod_one]
  | succ width ih =>
    have hdigit : (UInt8.ofNat (n / 256 ^ width)).toNat = n / 256 ^ width % 256 := UInt8.toNat_ofNat'
    rw [beBytes, beNat, ih, length_beBytes, hdigit, Nat.mod_pow_succ]
    ring

theorem beNat_inj {as bs : List UInt8} (hlen : as.length = bs.length) (h : beNat as = beNat bs) :
    as = bs := by
  induction as generalizing bs with
  | nil => exact (List.length_eq_zero_iff.mp hlen.symm).symm
  | cons a as ih =>
    cases bs with
    | nil => cases hlen
    | cons b bs =>
      have hlen' : as.length = bs.length := by simpa using hlen
      rw [beNat, beNat, hlen'] at h
      have ha := beNat_lt as
      have hb := beNat_lt bs
      rw [hlen'] at ha
      have hpos : 0 < 256 ^ bs.length := Nat.pow_pos (by decide)
      -- equal sums with low parts below the base: the high digits and the low parts agree
      have hhead : a.toNat = b.toNat := by
        have h1 := congrArg (· / 256 ^ bs.length) h
        simpa [Nat.mul_comm _ (256 ^ bs.length), Nat.mul_add_div hpos, Nat.div_eq_of_lt ha,
          Nat.div_eq_of_lt hb] using h1
      have htail : beNat as = beNat bs := by rw [hhead] at h; omega
      rw [UInt8.toNat_inj.mp hhead, ih hlen' htail]

theorem beBytes_beNat {bs : List UInt8} {width : Nat} (hlen : bs.length = width) :
    beBytes width (beNat bs) = bs := by
  subst hlen
  refine beNat_inj (length_beBytes _ _) ?_
  rw [beNat_beBytes, Nat.mod_eq_of_lt (beNat_lt bs)]

def leBytes (width n : Nat) : List UInt8 := (beBytes width n).reverse

def leNat (bs : List UInt8) : Nat := beNat bs.reverse

@[simp] theorem length_leBytes (width n : Nat) : (leBytes width n).length = width := by
  rw [leBytes, List.length_reverse, length_beBytes]

theorem leNat_leBytes (width n : Nat) : leNat (leBytes width n) = n % 256 ^ width := by
  rw [leNat, leBytes, List.reverse_reverse, beNat_beBytes]

/-! ## UTF-8 -/

def utf8Bytes (s : String) : List UInt8 := s.toByteArray.data.toList

/-- The text of UTF-8 bytes, `none` when they are not valid UTF-8. -/
def ofUtf8? (bytes : List UInt8) : Option String := String.fromUTF8? ⟨bytes.toArray⟩

theorem ofUtf8?_eq_some {bytes : List UInt8} {s : String} :
    ofUtf8? bytes = some s ↔ utf8Bytes s = bytes := by
  unfold ofUtf8? String.fromUTF8? utf8Bytes
  constructor
  · intro h
    split_ifs at h with hvalid
    cases h
    rfl
  · rintro rfl
    have hback : (⟨s.toByteArray.data.toList.toArray⟩ : ByteArray) = s.toByteArray := by simp
    rw [hback, dif_pos s.isValidUTF8]
    rfl

section Ascii

variable {s : String} {c : Char}

theorem utf8Bytes_eq_flatMap (s : String) : utf8Bytes s = s.toList.flatMap String.utf8EncodeChar := by
  conv_lhs => rw [← @String.ofList_toList s]
  unfold utf8Bytes
  rw [String.toByteArray_ofList]
  simp [List.utf8Encode]

theorem utf8EncodeChar_of_lt (h : c.toNat < 128) : String.utf8EncodeChar c = [UInt8.ofNat c.toNat] := by
  have hle : c.val.toNat ≤ 127 := Nat.le_of_lt_succ h
  unfold String.utf8EncodeChar
  rw [if_pos hle]
  rfl

/-- The first byte of a character that is not ASCII is not ASCII. -/
theorem toNat_lt_of_utf8EncodeChar (h : ∀ b ∈ String.utf8EncodeChar c, b.toNat < 128) : c.toNat < 128 := by
  unfold String.utf8EncodeChar at h
  dsimp only at h
  split_ifs at h with h1
  · exact Nat.lt_succ_of_le h1
  all_goals
    have hfirst := h _ List.mem_cons_self
    simp at hfirst
    omega

theorem ascii_of_utf8Bytes (h : ∀ b ∈ utf8Bytes s, b.toNat < 128) : ∀ c ∈ s.toList, c.toNat < 128 := by
  rw [utf8Bytes_eq_flatMap] at h
  intro c hc
  exact toNat_lt_of_utf8EncodeChar fun b hb => h b (List.mem_flatMap.mpr ⟨c, hc, hb⟩)

theorem utf8Bytes_of_ascii (h : ∀ c ∈ s.toList, c.toNat < 128) :
    utf8Bytes s = s.toList.map fun c => UInt8.ofNat c.toNat := by
  rw [utf8Bytes_eq_flatMap, List.map_eq_flatMap]
  exact List.flatMap_congr fun c hc => utf8EncodeChar_of_lt (h c hc)

end Ascii

def startsWith (s pre : String) : Bool := pre.toList.isPrefixOf s.toList

theorem startsWith_iff {text start : String} : startsWith text start = true ↔ ∃ rest, text = start ++ rest := by
  rw [startsWith, List.isPrefixOf_iff_prefix]
  refine ⟨?_, ?_⟩
  · rintro ⟨rest, hrest⟩
    exact ⟨String.ofList rest, String.toList_inj.mp (by rw [String.toList_append, String.toList_ofList, hrest])⟩
  · rintro ⟨rest, rfl⟩
    exact ⟨rest.toList, String.toList_append.symm⟩

/-- The rest of `s` after `pre`, `none` when `s` does not start with it. -/
def stripPrefix (s pre : String) : Option String :=
  if startsWith s pre then some (String.ofList (s.toList.drop pre.toList.length)) else none

theorem utf8Bytes_append (s t : String) : utf8Bytes (s ++ t) = utf8Bytes s ++ utf8Bytes t := by
  simp only [utf8Bytes_eq_flatMap, String.toList_append, List.flatMap_append]

theorem eq_append_of_stripPrefix {s pre rest : String} (h : stripPrefix s pre = some rest) : s = pre ++ rest := by
  unfold stripPrefix at h
  split_ifs at h with hstarts
  obtain ⟨rest', rfl⟩ := startsWith_iff.mp hstarts
  obtain rfl := Option.some.inj h
  rw [String.toList_append, List.drop_left, String.ofList_toList]

/-! ## Lengths in bytes -/

theorem length_utf8Bytes_append_le {s t : String} {a b : Nat} (hs : (utf8Bytes s).length ≤ a)
    (ht : (utf8Bytes t).length ≤ b) : (utf8Bytes (s ++ t)).length ≤ a + b := by
  rw [utf8Bytes_append, List.length_append]
  exact Nat.add_le_add hs ht

theorem length_utf8Bytes_le (s : String) : (utf8Bytes s).length ≤ 4 * s.length := by
  rw [utf8Bytes_eq_flatMap, ← String.length_toList]
  induction s.toList with
  | nil => exact Nat.le_refl _
  | cons c cs ih =>
    have hc : (String.utf8EncodeChar c).length ≤ 4 := by
      rw [String.length_utf8EncodeChar]
      exact Char.utf8Size_le_four c
    rw [List.flatMap_cons, List.length_append, List.length_cons]
    omega

theorem length_utf8Bytes_toString {n : Nat} (digits : Nat) (hpos : 0 < digits) (hlt : n < 10 ^ digits) :
    (utf8Bytes (toString n)).length ≤ 4 * digits := by
  have hlength : (toString n).length ≤ digits := Nat.repr_length n digits hpos hlt
  exact (length_utf8Bytes_le _).trans (Nat.mul_le_mul_left 4 hlength)

theorem length_utf8Bytes_intercalate (separator : String) {k : Nat} {parts : List String}
    (h : ∀ part ∈ parts, (utf8Bytes part).length ≤ k) :
    (utf8Bytes (separator.intercalate parts)).length ≤ parts.length * (k + (utf8Bytes separator).length) := by
  induction parts with
  | nil => exact Nat.zero_le _
  | cons part parts ih =>
    have hpart := h part List.mem_cons_self
    have hrest := ih fun other hother => h other (List.mem_cons_of_mem _ hother)
    cases parts with
    | nil =>
      rw [String.intercalate_singleton, List.length_singleton, Nat.one_mul]
      omega
    | cons next parts =>
      have hfirst := length_utf8Bytes_append_le hpart (Nat.le_refl (utf8Bytes separator).length)
      have hboth := length_utf8Bytes_append_le hfirst hrest
      rw [String.intercalate_cons_cons, List.length_cons, Nat.succ_mul]
      omega

end Words
