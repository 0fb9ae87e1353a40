import Mathlib.Data.List.DropRight
import Mathlib.Data.List.Sort

/-!
# Text

The functions on text of the standard library that a line-oriented format is read with, on lists of characters.

* `isWhitespace`, `trim` : the Unicode property `White_Space`, and text without it at both ends;
* `splitOnce`, `lines` : text cut at a character, and into lines that end in `\n` or `\r\n`;
* `trimStartMatches`, `parseUnsigned` : a repeated start removed, and decimal numbers;
* `trim_eq_self_iff`, `splitOnce_append`, `fst_splitOnce`, `trimStartMatches_append` : what they do to a text given in
  parts;
* `lines_append` : the lines of two texts with a line break in between;
* `Alike` : two readers that agree up to the error, which carries the number of a line.
-/

namespace Text

/-- The Unicode property `White_Space`. -/
def isWhitespace (c : Char) : Bool :=
  (9 ≤ c.toNat && c.toNat ≤ 13) || c.toNat = 0x20 || c.toNat = 0x85 || c.toNat = 0xA0 || c.toNat = 0x1680 ||
    (0x2000 ≤ c.toNat && c.toNat ≤ 0x200A) || c.toNat = 0x2028 || c.toNat = 0x2029 || c.toNat = 0x202F ||
    c.toNat = 0x205F || c.toNat = 0x3000

def trim (text : List Char) : List Char := (text.rdropWhile isWhitespace).dropWhile isWhitespace

theorem trim_concat {c : Char} (hc : isWhitespace c = true) (text : List Char) : trim (text ++ [c]) = trim text := by
  unfold trim
  rw [List.rdropWhile_concat_pos isWhitespace text c hc]

theorem trim_cons {c : Char} (hc : isWhitespace c = true) (text : List Char) : trim (c :: text) = trim text := by
  unfold trim List.rdropWhile
  rw [List.reverse_cons, List.dropWhile_append]
  cases hrest : text.reverse.dropWhile isWhitespace with
  | nil => simp [hc]
  | cons d rest => simp [hc]

/-- Text that does not start or end in white space stays as it is. -/
theorem trim_eq_self_iff {text : List Char} : trim text = text ↔
    (∀ c, text.head? = some c → isWhitespace c = false) ∧ ∀ c, text.getLast? = some c → isWhitespace c = false := by
  have hlast : text.rdropWhile isWhitespace = text ↔ ∀ c, text.getLast? = some c → isWhitespace c = false := by
    rw [List.rdropWhile_eq_self_iff]
    refine ⟨fun h c hc => ?_, fun h hne => ?_⟩
    · obtain ⟨hne, rfl⟩ := List.mem_getLast?_eq_getLast hc
      simpa using h hne
    · simpa using h _ (List.getLast?_eq_some_getLast hne)
  have hfirst : text.dropWhile isWhitespace = text ↔ ∀ c, text.head? = some c → isWhitespace c = false := by
    cases text with
    | nil => simp
    | cons d text =>
      rw [List.dropWhile_cons]
      split_ifs with hd
      · have hshort : text.dropWhile isWhitespace ≠ d :: text := by
          intro heq
          have hle := List.IsSuffix.length_le (List.dropWhile_suffix (l := text) isWhitespace)
          rw [heq, List.length_cons] at hle
          omega
        simp [hd, hshort]
      · simpa using hd
  refine ⟨fun h => ?_, fun h => ?_⟩
  · have hlength : (text.rdropWhile isWhitespace).length = text.length := by
      refine le_antisymm (List.rdropWhile_prefix _ _).length_le ?_
      conv_lhs => rw [← h]
      exact (List.dropWhile_suffix _).length_le
    have hend := (List.rdropWhile_prefix isWhitespace text).eq_of_length hlength
    rw [trim, hend] at h
    exact ⟨hfirst.mp h, hlast.mp hend⟩
  · rw [trim, hlast.mpr h.2, hfirst.mpr h.1]

def splitOnce (sep : Char) : List Char → Option (List Char × List Char)
  | [] => none
  | c :: text => if c = sep then some ([], text) else (splitOnce sep text).map fun p => (c :: p.1, p.2)

theorem splitOnce_append {sep : Char} {text : List Char} (h : sep ∉ text) (rest : List Char) :
    splitOnce sep (text ++ sep :: rest) = some (text, rest) := by
  induction text with
  | nil => simp [splitOnce]
  | cons c text ih =>
    obtain ⟨hc, htext⟩ := not_or.mp (mt List.mem_cons.mpr h)
    rw [List.cons_append, splitOnce, if_neg (Ne.symm hc), ih htext]
    rfl

theorem fst_splitOnce (sep : Char) (text : List Char) :
    (splitOnce sep text).elim text Prod.fst = text.takeWhile (· ≠ sep) := by
  induction text with
  | nil => rfl
  | cons c text ih =>
    rw [splitOnce, List.takeWhile_cons]
    by_cases hc : c = sep
    · simp [hc]
    · rw [if_neg hc, if_pos (by simpa using hc), ← ih]
      cases splitOnce sep text <;> rfl

/-- One more character, that is not `sep`, does not change what is before it. -/
theorem splitOnce_concat {sep c : Char} (hc : c ≠ sep) (text : List Char) :
    splitOnce sep (text ++ [c]) = (splitOnce sep text).map fun p => (p.1, p.2 ++ [c]) := by
  induction text with
  | nil => simp [splitOnce, hc]
  | cons d text ih =>
    rw [List.cons_append, splitOnce, splitOnce, ih]
    split_ifs
    · rfl
    · cases splitOnce sep text <;> rfl

/-! ## Lines -/

/-- A carriage return before the line break belongs to the break. -/
def dropReturn (line : List Char) : List Char := if line.getLast? = some '\r' then line.dropLast else line

theorem dropReturn_cases (line : List Char) : dropReturn line = line ∨ line = dropReturn line ++ ['\r'] := by
  unfold dropReturn
  split_ifs with hlast
  · obtain ⟨front, rfl⟩ := List.getLast?_eq_some_iff.mp hlast
    exact .inr (by rw [List.dropLast_concat])
  · exact .inl rfl

/-- The lines of a text, without their breaks. What follows the last break is a line if it is not empty. -/
def lines (text : List Char) : List (List Char) :=
  (text.splitOn '\n').dropLast.map dropReturn ++ ((text.splitOn '\n').getLast?.filter (· ≠ [])).toList

/-- With a line break in between, every piece of the first text ends in a break. -/
theorem lines_append (text text' : List Char) :
    lines (text ++ '\n' :: text') = (text.splitOn '\n').map dropReturn ++ lines text' := by
  have hne := List.splitOn_ne_nil '\n' text'
  unfold lines
  rw [List.splitOn_append_cons_self, List.dropLast_append_of_ne_nil hne, List.getLast?_append_of_ne_nil _ hne,
    List.map_append, List.append_assoc]

/-! ## Prefixes and numbers -/

/-- Text without the repetitions of `pattern` that it starts with. -/
def trimStartMatches (pattern text : List Char) : List Char :=
  (fun rest => if pattern.isPrefixOf rest then rest.drop pattern.length else rest)^[text.length] text

section TrimStart

variable {pattern text : List Char}

/-- Of a text that does not start with the pattern, one repetition before it is removed. -/
theorem trimStartMatches_append (hpattern : pattern ≠ []) (h : ¬ pattern <+: text) :
    trimStartMatches pattern (pattern ++ text) = text := by
  have hfixed : ∀ n, (fun rest : List Char =>
      if pattern.isPrefixOf rest then rest.drop pattern.length else rest)^[n] text = text := by
    intro n
    refine Function.iterate_fixed ?_ n
    rw [if_neg (by simpa using h)]
  obtain ⟨n, hn⟩ : ∃ n, (pattern ++ text).length = n + 1 := by
    refine Nat.exists_eq_succ_of_ne_zero ?_
    simp [hpattern]
  unfold trimStartMatches
  rw [hn, Function.iterate_succ_apply, if_pos (by simp), List.drop_left, hfixed]

/-- Of a text that starts with the pattern itself, more than one repetition is removed. -/
theorem length_trimStartMatches_lt (hpattern : pattern ≠ []) (h : pattern <+: text) :
    (trimStartMatches pattern (pattern ++ text)).length < text.length := by
  have hshrinks : ∀ n (rest : List Char), ((fun rest : List Char =>
      if pattern.isPrefixOf rest then rest.drop pattern.length else rest)^[n] rest).length ≤ rest.length := by
    intro n
    induction n with
    | zero => exact fun rest => le_refl _
    | succ n ih =>
      intro rest
      rw [Function.iterate_succ_apply]
      refine (ih _).trans ?_
      split_ifs
      · rw [List.length_drop]
        exact Nat.sub_le _ _
      · exact le_refl _
  have hlength : 0 < pattern.length := List.length_pos_iff.mpr hpattern
  have hle := h.length_le
  obtain ⟨n, hn⟩ : ∃ n, (pattern ++ text).length = n + 2 := by
    refine ⟨(pattern ++ text).length - 2, ?_⟩
    rw [List.length_append]
    omega
  unfold trimStartMatches
  rw [hn, Function.iterate_succ_apply, Function.iterate_succ_apply]
  refine (hshrinks n _).trans_lt ?_
  simp only [List.isPrefixOf_iff_prefix, List.prefix_append, if_true, List.drop_left, h, List.length_drop]
  omega

end TrimStart

def isDigit (c : Char) : Bool := 48 ≤ c.toNat && c.toNat ≤ 57

/-- A number below `bound` in decimal digits, with an optional plus sign. -/
def parseUnsigned (bound : Nat) (text : List Char) : Option Nat :=
  let digits := match text with
    | '+' :: digits => digits
    | _ => text
  if digits.isEmpty || !digits.all isDigit then none
  else
    let value := digits.foldl (fun value c => 10 * value + (c.toNat - 48)) 0
    if value < bound then some value else none

/-! ## Errors with a position -/

/-- Both succeed with the same result, or both fail, with whatever error. -/
def Alike {ε α : Type} (x y : Except ε α) : Prop := x.toOption = y.toOption

section Alike

variable {ε α β : Type} {x x' y y' : Except ε α}

theorem Alike.rfl : Alike x x := Eq.refl _

theorem alike_error {e e' : ε} : Alike (.error e : Except ε α) (.error e') := Eq.refl _

theorem Alike.symm (h : Alike x x') : Alike x' x := Eq.symm h

theorem Alike.map (h : Alike x x') (f : α → β) : Alike (x.map f) (x'.map f) := by
  have hmap : ∀ z : Except ε α, (z.map f).toOption = z.toOption.map f := fun z => by cases z <;> exact Eq.refl _
  unfold Alike
  rw [hmap, hmap, h]

theorem Alike.ite {c : Prop} [Decidable c] (hx : Alike x x') (hy : Alike y y') :
    Alike (if c then x else y) (if c then x' else y') := by
  split_ifs
  · exact hx
  · exact hy

theorem Alike.bind {f f' : α → Except ε β} (h : Alike x x') (hf : ∀ a, Alike (f a) (f' a)) :
    Alike (x >>= f) (x' >>= f') := by
  cases x with
  | error e =>
    cases x' with
    | error e' => exact Eq.refl _
    | ok a => cases h
  | ok a =>
    cases x' with
    | error e' => cases h
    | ok a' =>
      obtain ⟨⟩ := (Option.some.inj h : a = a')
      exact hf a

theorem Alike.eq_ok {a : α} (h : Alike x x') (hx : x = .ok a) : x' = .ok a := by
  subst hx
  cases x' with
  | error e => cases h
  | ok a' => exact congrArg _ (Option.some.inj h).symm

end Alike

end Text
