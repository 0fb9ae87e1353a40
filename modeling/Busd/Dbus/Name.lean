import Busd.Broker.State

/-!
# D-Bus names

The D-Bus transport checks a well-known name before it requests it; the broker checks one before it registers it.

* `validateName`, `Name.parse` : the check of the transport;
* `Dotted` : the grammar on which the two checks agree, up to the first byte of a component;
* `validators_agree_iff` : on which strings they agree.
-/

namespace Busd.Dbus

open Words Busd.Broker

inductive NameError where
  | invalid
  deriving DecidableEq, Repr

def isNameByte (byte : UInt8) : Bool := isAsciiAlphanumeric byte || byte == 95

def validateName (value : String) : Except NameError Unit :=
  let bytes := utf8Bytes value
  if bytes.isEmpty || 255 < bytes.length || bytes.head? == some 46 || bytes.getLast? == some 46 then .error .invalid
  else if (bytes.splitOn 46).any fun component => component.isEmpty || !component.all isNameByte then .error .invalid
  else .ok ()

structure Name where
  asStr : String
  valid : validateName asStr = .ok ()

def Name.parse (value : String) : Except NameError Name :=
  match h : validateName value with
  | .error error => .error error
  | .ok () => .ok ⟨value, h⟩

theorem Name.parse_eq_ok {value : String} : (∃ name, Name.parse value = .ok name) ↔ validateName value = .ok () := by
  unfold Name.parse
  split
  · next h => simp [h]
  · next h => simp [h]

/-! ## The common grammar -/

/-- At most 255 bytes: components of letters, digits and underscores, none of them empty, with dots in between. -/
structure Dotted (bytes : List UInt8) : Prop where
  length : bytes.length ≤ 255
  component : ∀ component ∈ bytes.splitOn 46, component ≠ [] ∧ ∀ byte ∈ component, isNameByte byte = true

def DigitLed (component : List UInt8) : Prop := ∃ first rest, component = first :: rest ∧ 48 ≤ first ∧ first ≤ 57

/-- Without an empty component there is no dot at either end, and at least one byte. -/
theorem Dotted.ends {bytes : List UInt8} (h : Dotted bytes) :
    bytes ≠ [] ∧ bytes.head? ≠ some 46 ∧ bytes.getLast? ≠ some 46 := by
  have hnil : [] ∉ bytes.splitOn 46 := fun hmem => (h.component [] hmem).1 rfl
  refine ⟨fun hempty => hnil ?_, fun hfirst => hnil ?_, fun hlast => hnil ?_⟩
  · rw [hempty]
    exact List.mem_singleton_self _
  · obtain ⟨rest, rfl⟩ := List.head?_eq_some_iff.mp hfirst
    rw [show 46 :: rest = [] ++ 46 :: rest from rfl, List.splitOn_append_cons_self]
    exact List.mem_append_left _ (List.mem_singleton_self _)
  · obtain ⟨front, rfl⟩ := List.getLast?_eq_some_iff.mp hlast
    rw [List.splitOn_append_cons_self]
    exact List.mem_append_right _ (List.mem_singleton_self _)

/-- The transport accepts exactly this grammar: its tests for a dot at either end are implied by the others. -/
theorem validateName_eq_ok {value : String} : validateName value = .ok () ↔ Dotted (utf8Bytes value) := by
  unfold validateName
  refine ⟨fun h => ?_, fun h => ?_⟩
  · dsimp only at h
    split_ifs at h with hends hcomponents
    have hlength : (utf8Bytes value).length ≤ 255 := by
      by_contra hlong
      exact hends (by simp [not_le.mp hlong])
    refine ⟨hlength, fun component hmem => ?_⟩
    have hgood := mt (fun hbad => List.any_eq_true.mpr ⟨component, hmem, hbad⟩) hcomponents
    simpa using hgood
  · obtain ⟨hnonempty, hfirst, hlast⟩ := h.ends
    have hlength := h.length
    have hcomponents : ((utf8Bytes value).splitOn 46).any
        (fun component => component.isEmpty || !component.all isNameByte) = false := by
      rw [List.any_eq_false]
      intro component hmem
      have hgood := h.component component hmem
      simpa using hgood
    dsimp only
    rw [hcomponents, if_neg, if_neg Bool.false_ne_true]
    simp [hnonempty, hfirst, hlast, hlength]

/-- A component may begin with any byte that it may hold, other than a digit. -/
theorem isFirstByte_iff {byte : UInt8} : (isAsciiAlphabetic byte || byte == 95) = true ↔
    isNameByte byte = true ∧ ¬ (48 ≤ byte ∧ byte ≤ 57) := by
  unfold isNameByte isAsciiAlphanumeric isAsciiAlphabetic
  simp only [Bool.or_eq_true, Bool.and_eq_true, decide_eq_true_eq, beq_iff_eq, UInt8.le_iff_toNat_le, ← UInt8.toNat_inj]
  simp only [UInt8.toNat_ofNat]
  omega

theorem isDbusComponent_iff {component : List UInt8} : isDbusComponent component = true ↔
    (component ≠ [] ∧ ∀ byte ∈ component, isNameByte byte = true) ∧ ¬ DigitLed component := by
  cases component with
  | nil => simp [isDbusComponent]
  | cons first rest =>
    have hdigit : DigitLed (first :: rest) ↔ 48 ≤ first ∧ first ≤ 57 := by
      refine ⟨?_, fun h => ⟨first, rest, rfl, h⟩⟩
      rintro ⟨_, _, heq, h⟩
      obtain ⟨rfl, -⟩ := List.cons.inj heq
      exact h
    rw [hdigit, isDbusComponent, Bool.and_eq_true, List.forall_mem_cons, List.all_eq_true]
    rw [isFirstByte_iff]
    constructor
    · exact fun h => ⟨⟨List.cons_ne_nil _ _, h.1.1, h.2⟩, h.1.2⟩
    · exact fun h => ⟨⟨h.1.2.1, h.2⟩, h.1.2.2⟩

theorem validateDbusName_iff {name : String} : validateDbusName name = true ↔
    Dotted (utf8Bytes name) ∧ ∀ component ∈ (utf8Bytes name).splitOn 46, ¬ DigitLed component := by
  have hcomponents : ((utf8Bytes name).splitOn 46).all isDbusComponent = true ↔
      (∀ component ∈ (utf8Bytes name).splitOn 46, component ≠ [] ∧ ∀ byte ∈ component, isNameByte byte = true) ∧
        ∀ component ∈ (utf8Bytes name).splitOn 46, ¬ DigitLed component := by
    rw [List.all_eq_true, ← forall₂_and]
    exact forall₂_congr fun _ _ => isDbusComponent_iff
  unfold validateDbusName
  dsimp only
  rw [Bool.and_eq_true, Bool.and_eq_true, hcomponents, decide_eq_true_iff]
  constructor
  · exact fun h => ⟨⟨h.1.2, h.2.1⟩, h.2.2⟩
  · exact fun h => ⟨⟨by simpa using h.1.ends.1, h.1.length⟩, h.1.component, h.2⟩

/-- The broker accepts no name that the transport refuses, and the two agree on a string unless it follows the common
grammar with a component that begins with a digit: only the broker refuses such a name. -/
theorem validators_agree_iff (s : String) :
    (validateDbusName s = true → ∃ name, Name.parse s = .ok name) ∧
      ((validateDbusName s = true ↔ ∃ name, Name.parse s = .ok name) ↔
        ¬ (Dotted (utf8Bytes s) ∧ ∃ component ∈ (utf8Bytes s).splitOn 46, DigitLed component)) := by
  rw [Name.parse_eq_ok, validateName_eq_ok, validateDbusName_iff]
  refine ⟨fun h => h.1, fun hagree ⟨hdotted, component, hmem, hdigit⟩ => ?_, fun hnone => ⟨fun h => h.1, fun h => ?_⟩⟩
  · exact (hagree.mpr hdotted).2 component hmem hdigit
  · exact ⟨h, fun component hmem hdigit => hnone ⟨h, component, hmem, hdigit⟩⟩

/-- A name that the transport can request and the broker does not register. -/
theorem validators_differ :
    (∃ name, Name.parse "com.1example" = .ok name) ∧ validateDbusName "com.1example" = false := by
  refine ⟨Name.parse_eq_ok.mpr ?_, ?_⟩ <;> decide +kernel

end Busd.Dbus
