import Busd.Policy.Compose

/-!
# The selectors of a rule

A line `target = c` or `header.n = v` adds a selector to the rule in whose block it stands. What it adds is what is left
of `c`, `n` and `v` after the comment, the white space, the quotes and the start `header.` have been removed.

* `AddsLine` : a file with one line more, in the block of a given rule;
* `KeptByLines`, `readLines_related` : two rules that differ in one selector go on to differ in it only;
* `parse_addsLine` : what one line more changes of the configuration;
* `readRuleKey_keyLine` : what a line `key = value` is read as;
* `target_selector_iff`, `header_selector_iff` : which names keep their meaning.
-/

namespace Busd.Policy

open Busd.Protocol Text
open Codec (bind_eq_ok)

/-! ## What a line can do to a rule -/

def Rule.select (rule : Rule) (target : Option String) (headers : OrdMap String String) : Rule :=
  { rule with target, headers }

/-- An update that neither reads nor writes the target and the headers. -/
def Elsewhere (f : Rule → Rule) : Prop :=
  ∀ (rule : Rule) target headers, f (rule.select target headers) = (f rule).select target headers

section Elsewhere

variable {f : Rule → Rule} (h : Elsewhere f) (rule : Rule)

include h

theorem Elsewhere.target : (f rule).target = rule.target := by
  have hsame := congrArg Rule.target (h rule rule.target rule.headers)
  exact hsame

theorem Elsewhere.headers : (f rule).headers = rule.headers := by
  have hsame := congrArg Rule.headers (h rule rule.target rule.headers)
  exact hsame

end Elsewhere

/-- What a line does, as a function of the rule it stands in: it fails, works elsewhere, sets the target or adds a
header, and it does so whatever the rule is. -/
inductive Updates : (Rule → Except ConfigError Rule) → Prop
  | error (error : ConfigError) : Updates fun _ => .error error
  | elsewhere {f : Rule → Rule} (h : Elsewhere f) : Updates fun rule => .ok (f rule)
  | target (value : String) : Updates fun rule => .ok { rule with target := some value }
  | header (name value : String) : Updates fun rule => .ok { rule with headers := rule.headers.insert name value }

theorem Updates.ite {c : Prop} [Decidable c] {x y : Rule → Except ConfigError Rule} (hx : Updates x)
    (hy : Updates y) : Updates fun rule => if c then x rule else y rule := by
  by_cases hc : c
  · simpa only [if_pos hc] using hx
  · simpa only [if_neg hc] using hy

theorem Updates.map {α : Type} {f : α → Rule → Rule} (h : ∀ a, Elsewhere (f a)) (x : Except ConfigError α) :
    Updates fun rule => x.map fun a => f a rule := by
  cases x with
  | error error => exact .error error
  | ok a => exact .elsewhere (h a)

theorem setRuleKey_updates (key value : String) (line : Nat) :
    Updates fun rule => setRuleKey rule key value line := by
  unfold setRuleKey
  dsimp only
  exact .ite (.map (fun _ _ _ _ => rfl) _) <| .ite (.elsewhere fun _ _ _ => rfl) <|
    .ite (.map (fun _ _ _ _ => rfl) _) <| .ite (.map (fun _ _ _ _ => rfl) _) <| .ite (.elsewhere fun _ _ _ => rfl) <|
    .ite (.elsewhere fun _ _ _ => rfl) <| .ite (.elsewhere fun _ _ _ => rfl) <| .ite (.elsewhere fun _ _ _ => rfl) <|
    .ite (.target value) <| .ite (.ite (.error _) (.header _ value)) (.error _)

theorem readRuleKey_updates (line : List Char) : Updates fun rule => readRuleKey rule line := by
  unfold readRuleKey
  cases splitOnce '=' line with
  | none => exact .error _
  | some pair =>
    dsimp only
    cases unquote (trim pair.2) 0 with
    | error error => exact .error error
    | ok value => exact setRuleKey_updates _ value 0

def KeptByLines (R : Rule → Rule → Prop) : Prop :=
  ∀ ⦃r r' s : Rule⦄ ⦃line : List Char⦄, R r r' → readRuleKey r line = .ok s →
    ∃ s', readRuleKey r' line = .ok s' ∧ R s s'

/-- `r'` has the target `value` where `r` has none, and is `r` otherwise. -/
def SetsTarget (value : String) (r r' : Rule) : Prop :=
  (∃ target, r' = { r with target }) ∧ (r.target = none → r'.target = some value)

/-- `r'` has the selector `name` for `value` where `r` has none for `name`, and is `r` otherwise. -/
def SetsHeader (name value : String) (r r' : Rule) : Prop :=
  (∃ headers, r' = { r with headers }) ∧ (∀ k ≠ name, r'.headers.get? k = r.headers.get? k) ∧
    (r.headers.get? name = none → r'.headers.get? name = some value)

theorem KeptByLines.of_updates {R : Rule → Rule → Prop}
    (h : ∀ ⦃x⦄, Updates x → ∀ ⦃r r' s⦄, R r r' → x r = .ok s → ∃ s', x r' = .ok s' ∧ R s s') : KeptByLines R :=
  fun _ _ _ line hrel hread => h (readRuleKey_updates line) hrel hread

theorem setsTarget_kept (value : String) : KeptByLines (SetsTarget value) := by
  refine .of_updates ?_
  rintro x hx r _ s ⟨⟨target, rfl⟩, hnone⟩ hread
  cases hx with
  | error error => cases hread
  | @elsewhere f h =>
    obtain rfl := Except.ok.inj hread
    have hmove : f { r with target } = { f r with target } := by
      refine (h r target r.headers).trans ?_
      rw [← h.headers r]
      rfl
    exact ⟨_, rfl, ⟨target, hmove⟩, fun hfree => by rw [hmove]; exact hnone ((h.target r).symm.trans hfree)⟩
  | target set =>
    obtain rfl := Except.ok.inj hread
    exact ⟨_, rfl, ⟨some set, rfl⟩, fun hfree => by cases hfree⟩
  | header name set =>
    obtain rfl := Except.ok.inj hread
    exact ⟨_, rfl, ⟨target, rfl⟩, hnone⟩

theorem setsHeader_kept (name value : String) : KeptByLines (SetsHeader name value) := by
  refine .of_updates ?_
  rintro x hx r _ s ⟨⟨headers, rfl⟩, hothers, hnone⟩ hread
  cases hx with
  | error error => cases hread
  | @elsewhere f h =>
    obtain rfl := Except.ok.inj hread
    have hmove : f { r with headers } = { f r with headers } := by
      refine (h r r.target headers).trans ?_
      rw [← h.target r]
      rfl
    refine ⟨_, rfl, ⟨headers, hmove⟩, ?_⟩
    rw [hmove, h.headers r]
    exact ⟨hothers, hnone⟩
  | target set =>
    obtain rfl := Except.ok.inj hread
    exact ⟨_, rfl, ⟨headers, rfl⟩, hothers, hnone⟩
  | header name' set =>
    obtain rfl := Except.ok.inj hread
    refine ⟨_, rfl, ⟨_, rfl⟩, fun k hk => ?_, fun hfree => ?_⟩
    · simp only [OrdMap.get?_insert]
      rw [hothers k hk]
    · simp only [OrdMap.get?_insert] at hfree ⊢
      split_ifs at hfree ⊢
      exact hnone hfree

/-! ## One line more -/

/-- Of two rules that are related, the same lines make two configurations that differ in this rule, and there it is
related. -/
theorem readLines_related {R : Rule → Rule → Prop} (hR : KeptByLines R) {contents : List (List Char)}
    (hlines : ∀ line ∈ contents, line ≠ []) {config : Config} {r r' : Rule} (hrel : R r r') {state : ParseState}
    (h : readLines ⟨config, some r⟩ contents = .ok state) :
    ∃ final final' after state', R final final' ∧ readLines ⟨config, some r'⟩ contents = .ok state' ∧
      state.close = { config with rules := config.rules ++ final :: after } ∧
      state'.close = { config with rules := config.rules ++ final' :: after } := by
  induction contents generalizing r r' with
  | nil =>
    obtain rfl := Except.ok.inj h
    exact ⟨r, r', [], _, hrel, rfl, rfl, rfl⟩
  | cons line contents ih =>
    obtain ⟨hline, hothers⟩ := List.forall_mem_cons.mp hlines
    obtain ⟨middle, hread, hrest⟩ := readLines_cons.mp h
    by_cases hheader : line = ruleHeader
    · -- the rule is closed here, and what comes after it does not depend on it
      subst hheader
      obtain rfl := Except.ok.inj hread
      obtain ⟨closed, last, rfl, hother⟩ := readLines_within hrest
      refine ⟨r, r', closed ++ [last], _, hrel, readLines_cons.mpr ⟨_, rfl, hother _⟩, ?_, ?_⟩
      · simp [ParseState.close]
      · simp [ParseState.close]
    · obtain ⟨s, hkey, rfl⟩ := (readLine_rule_eq_ok hline hheader).mp hread
      obtain ⟨s', hkey', hrel'⟩ := hR hrel hkey
      obtain ⟨final, final', after, state', hfinal, hread', hclose, hclose'⟩ := ih hothers hrel' hrest
      refine ⟨final, final', after, state', hfinal, readLines_cons.mpr ⟨_, ?_, hread'⟩, hclose, hclose'⟩
      exact (readLine_rule_eq_ok hline hheader).mpr ⟨s', hkey', rfl⟩

/-- A header adds a rule, and no other line does; there is an open rule from the first header on. -/
theorem readLine_count {state state' : ParseState} {line : List Char} (h : readLine state line 0 = .ok state') :
    state'.close.rules.length = state.close.rules.length + [line].count ruleHeader ∧
      (state'.rule = none → state.rule = none ∧ state'.config.rules = state.config.rules) := by
  by_cases hline : line = []
  · subst hline
    obtain rfl := Except.ok.inj h
    exact ⟨rfl, fun hnone => ⟨hnone, rfl⟩⟩
  by_cases hheader : line = ruleHeader
  · subst hheader
    obtain rfl := Except.ok.inj h
    exact ⟨by simp [ParseState.close, add_assoc], fun hnone => by cases hnone⟩
  have hcount : [line].count ruleHeader = 0 := by simp [hheader]
  obtain ⟨config, rule⟩ := state
  cases rule with
  | none =>
    obtain ⟨config', hkey, rfl⟩ := (readLine_top_eq_ok hline hheader).mp h
    have hsame := readTopKey_rules hkey
    exact ⟨by simp [ParseState.close, hcount, hsame], fun _ => ⟨rfl, hsame⟩⟩
  | some rule =>
    obtain ⟨rule', -, rfl⟩ := (readLine_rule_eq_ok hline hheader).mp h
    exact ⟨by simp [ParseState.close, hcount], fun hnone => by cases hnone⟩

theorem readLines_count {contents : List (List Char)} {state state' : ParseState}
    (h : readLines state contents = .ok state') :
    state'.close.rules.length = state.close.rules.length + contents.count ruleHeader ∧
      (state'.rule = none → state.rule = none ∧ state'.config.rules = state.config.rules) := by
  induction contents generalizing state with
  | nil =>
    obtain rfl := Except.ok.inj h
    exact ⟨rfl, fun hnone => ⟨hnone, rfl⟩⟩
  | cons line contents ih =>
    obtain ⟨middle, hline, hrest⟩ := readLines_cons.mp h
    obtain ⟨hlength, hopen⟩ := readLine_count hline
    obtain ⟨hlength', hopen'⟩ := ih hrest
    refine ⟨?_, fun hnone => ?_⟩
    · have hcount : (line :: contents).count ruleHeader = [line].count ruleHeader + contents.count ruleHeader := by
        rw [← List.count_append]
        rfl
      omega
    · obtain ⟨hmiddle, hsame⟩ := hopen' hnone
      obtain ⟨hstart, hsame'⟩ := hopen hmiddle
      exact ⟨hstart, hsame.trans hsame'⟩

/-- `file` has one line more than `base`, in the block of the rule number `index`. -/
def AddsLine (line : List Char) (index : Nat) (base file : String) : Prop :=
  ∃ front back, lines base.toList = front ++ back ∧ lines file.toList = front ++ line :: back ∧
    (front.map content).count ruleHeader = index + 1

theorem readLines_open {contents : List (List Char)} {index : Nat} {state : ParseState}
    (hcount : contents.count ruleHeader = index + 1) (h : readLines .initial contents = .ok state) :
    ∃ config rule, state = ⟨config, some rule⟩ ∧ config.rules.length = index := by
  obtain ⟨hlength, hopen⟩ := readLines_count h
  have hstart : ParseState.initial.close.rules.length = 0 := rfl
  rw [hstart, hcount] at hlength
  obtain ⟨config, rule⟩ := state
  cases rule with
  | none =>
    have hempty : config.rules = [] := (hopen rfl).2
    simp [ParseState.close, hempty] at hlength
  | some rule =>
    refine ⟨config, rule, rfl, ?_⟩
    simp [ParseState.close] at hlength
    omega

theorem AddsLine.significant {line : List Char} (hline : content line ≠ []) {index : Nat} {base file : String}
    (h : AddsLine line index base file) :
    ∃ front back, Policy.significant base.toList = front ++ back ∧
      Policy.significant file.toList = front ++ content line :: back ∧ front.count ruleHeader = index + 1 := by
  obtain ⟨front, back, hbase, hfile, hcount⟩ := h
  refine ⟨(front.map content).filter (· ≠ []), (back.map content).filter (· ≠ []), ?_, ?_, ?_⟩
  · unfold Policy.significant
    rw [hbase, List.map_append, List.filter_append]
  · unfold Policy.significant
    rw [hfile, List.map_append, List.filter_append, List.map_cons, List.filter_cons_of_pos (by simpa using hline)]
  · rw [List.count_filter (by decide)]
    exact hcount

section Added

variable {line : List Char} (hline : content line ≠ []) (hheader : content line ≠ ruleHeader) {index : Nat}
  {base file : String}

include hline hheader

theorem readRuleKey_of_parse (h : AddsLine line index base file) {config : Config}
    (hfile : Config.parse file = .ok config) : ∃ r r', readRuleKey r (content line) = .ok r' := by
  obtain ⟨front, back, -, hlines, hcount⟩ := h.significant hline
  obtain ⟨state, hread, -, -⟩ := parse_eq_ok.mp hfile
  rw [hlines] at hread
  obtain ⟨middle, hfront, hrest⟩ := readLines_append.mp hread
  obtain ⟨before, rule, rfl, -⟩ := readLines_open hcount hfront
  obtain ⟨next, hread, -⟩ := readLines_cons.mp hrest
  obtain ⟨rule', hkey, -⟩ := (readLine_rule_eq_ok hline hheader).mp hread
  exact ⟨rule, rule', hkey⟩

/-- One line more changes the rule in whose block it stands, and nothing else. -/
theorem parse_addsLine {R : Rule → Rule → Prop} (hR : KeptByLines R)
    (hvalid : ∀ r r', R r r' → validateRule r' = validateRule r)
    (hkey : ∀ r, ∃ r', readRuleKey r (content line) = .ok r' ∧ R r r') {config : Config} {before after : List Rule}
    {rule : Rule} (hbase : Config.parse base = .ok config) (hrules : config.rules = before ++ rule :: after)
    (h : AddsLine line before.length base file) :
    ∃ rule', R rule rule' ∧ Config.parse file = .ok { config with rules := before ++ rule' :: after } := by
  obtain ⟨front, back, hlines, hlines', hcount⟩ := h.significant hline
  obtain ⟨state, hread, hok, hclose⟩ := parse_eq_ok.mp hbase
  rw [hlines] at hread
  obtain ⟨middle, hfront, hback⟩ := readLines_append.mp hread
  obtain ⟨start, opened, rfl, hlength⟩ := readLines_open hcount hfront
  have hnonempty : ∀ line ∈ back, line ≠ [] := fun line hmem => by
    have hin : line ∈ significant base.toList := hlines ▸ List.mem_append_right _ hmem
    exact of_decide_eq_true (List.mem_filter.mp hin).2
  obtain ⟨opened', hopened, hrel⟩ := hkey opened
  obtain ⟨final, final', rest, state', hfinal, hread', hleft, hright⟩ := readLines_related hR hnonempty hrel hback
  -- the rule that was open at the line is the one with this number
  have hsplit : start.rules ++ final :: rest = before ++ rule :: after := by
    rw [← hrules, ← hclose, hleft]
  obtain ⟨hbefore, hcons⟩ := List.append_inj hsplit hlength
  obtain ⟨rfl, rfl⟩ := List.cons.inj hcons
  have hclose' : state'.close = { config with rules := before ++ final' :: rest } := by
    rw [hright, ← hclose, hleft, hbefore]
  refine ⟨final', hfinal, parse_eq_ok.mpr ⟨state', ?_, ?_, hclose'⟩⟩
  · rw [hlines']
    refine readLines_append.mpr ⟨_, hfront, readLines_cons.mpr ⟨_, ?_, hread'⟩⟩
    exact (readLine_rule_eq_ok hline hheader).mpr ⟨opened', hopened, rfl⟩
  · rw [hclose] at hok
    rw [hclose']
    obtain ⟨hversion, hall⟩ := validateConfig_eq_ok.mp hok
    rw [hrules] at hall
    obtain ⟨hfirst, hrule, hlast⟩ := List.forall_mem_append.mp hall |>.imp_right List.forall_mem_cons.mp
    refine validateConfig_eq_ok.mpr ⟨hversion, List.forall_mem_append.mpr ⟨hfirst, ?_⟩⟩
    exact List.forall_mem_cons.mpr ⟨(hvalid _ _ hfinal).trans hrule, hlast⟩

end Added

/-! ## A line with a key -/

def keyLine (key value : List Char) : List Char := key ++ ' ' :: '=' :: ' ' :: value

section KeyLine

variable {key value : List Char}

/-- What follows a `#` in the value is a comment. -/
theorem content_keyLine (hkey : '#' ∉ key) :
    content (keyLine key value) = trim (keyLine key (value.takeWhile (· ≠ '#'))) := by
  have hall : ∀ c ∈ key, (decide (c ≠ '#')) = true := fun c hc => decide_eq_true fun h => hkey (h ▸ hc)
  unfold content keyLine
  rw [fst_splitOnce, List.takeWhile_append_of_pos hall]
  rfl

theorem unquote_of_notMem (h : '"' ∉ value) (line : Nat) : unquote value line = .ok (.ofList value) := by
  unfold unquote
  rw [if_neg]
  rintro (hhead | hlast)
  · exact h (List.mem_of_mem_head? hhead)
  · exact h (List.mem_of_mem_getLast? hlast)

variable (hne : key ≠ []) (htrim : trim key = key) (hvalue : trim value = value)

include hne htrim hvalue

theorem trim_keyLine : ∃ rest, trim (keyLine key value) = key ++ ' ' :: '=' :: rest ∧ trim rest = value := by
  obtain ⟨c, text, rfl⟩ := List.exists_cons_of_ne_nil hne
  have hfirst := (trim_eq_self_iff.mp htrim).1
  have hlast := (trim_eq_self_iff.mp hvalue).2
  by_cases hempty : value = []
  · subst hempty
    refine ⟨[], ?_, rfl⟩
    have hblank : keyLine (c :: text) [] = (c :: text ++ [' ', '=']) ++ [' '] := by simp [keyLine]
    rw [hblank, trim_concat (by decide)]
    refine trim_eq_self_iff.mpr ⟨hfirst, fun d hd => ?_⟩
    rw [List.getLast?_append_of_ne_nil _ (by simp)] at hd
    obtain rfl := Option.some.inj hd
    decide
  · refine ⟨' ' :: value, trim_eq_self_iff.mpr ⟨hfirst, fun d hd => hlast d ?_⟩, ?_⟩
    · have hsplit : keyLine (c :: text) value = (c :: text ++ [' ', '=', ' ']) ++ value := by simp [keyLine]
      rw [hsplit, List.getLast?_append_of_ne_nil _ hempty] at hd
      exact hd
    · rw [trim_cons (by decide)]
      exact hvalue

theorem trim_keyLine_ne : trim (keyLine key value) ≠ [] ∧ trim (keyLine key value) ≠ ruleHeader := by
  obtain ⟨rest, hline, -⟩ := trim_keyLine hne htrim hvalue
  have hequals : '=' ∈ trim (keyLine key value) := by
    rw [hline]
    simp
  exact ⟨List.ne_nil_of_mem hequals, fun h => absurd (h ▸ hequals) (by decide)⟩

theorem readRuleKey_keyLine (hequals : '=' ∉ key) (hquote : '"' ∉ value) (rule : Rule) :
    readRuleKey rule (trim (keyLine key value)) = setRuleKey rule (.ofList key) (.ofList value) 0 := by
  obtain ⟨rest, hline, hrest⟩ := trim_keyLine hne htrim hvalue
  have hsplit : splitOnce '=' (trim (keyLine key value)) = some (key ++ [' '], rest) := by
    rw [hline, List.append_cons]
    exact splitOnce_append (by simpa using hequals) rest
  unfold readRuleKey
  rw [hsplit]
  dsimp only
  rw [hrest, trim_concat (by decide), htrim, unquote_of_notMem hquote]
  rfl

end KeyLine

/-! ## The conditions of a rule -/

/-- The condition that the target selector is. -/
def targetHolds (rule : Rule) (action : Action) : Bool := rule.target.all (targetMatches · action.target)

/-- The condition that the header selectors are. -/
def headersHold (rule : Rule) (claimed : OrdMap String HeaderValue) : Bool :=
  rule.headers.entries.all fun e => claimed.get? e.1 = some (.text e.2)

/-- Both are conditions of the match, and the others do not depend on these selectors. -/
theorem ruleMatches_eq (rule : Rule) (request : Request) : ruleMatches rule request =
    (ruleMatches (rule.select none ∅) request && targetHolds rule request.action &&
      headersHold rule request.claimedHeaders) := by
  unfold ruleMatches targetHolds headersHold Rule.select
  simp only [Option.all_none, OrdMap.entries_empty, List.all_nil, Bool.and_true]

theorem headersHold_iff {rule : Rule} {claimed : OrdMap String HeaderValue} : headersHold rule claimed = true ↔
    ∀ name value, rule.headers.get? name = some value → claimed.get? name = some (.text value) := by
  unfold headersHold
  rw [List.all_eq_true]
  refine ⟨fun h name value hget => ?_, fun h e he => ?_⟩
  · exact of_decide_eq_true (h (name, value) (OrdMap.mem_entries_iff.mpr hget))
  · exact decide_eq_true (h e.1 e.2 (OrdMap.mem_entries_iff.mp he))

theorem isWhitespace_of_isNameChar {c : Char} (h : IsNameChar c) : isWhitespace c = false := by
  obtain ⟨hlow, hhigh, -⟩ := h
  simp [isWhitespace]
  omega

theorem trim_of_isNameChar {text : List Char} (h : ∀ c ∈ text, IsNameChar c) : trim text = text :=
  trim_eq_self_iff.mpr ⟨fun c hc => isWhitespace_of_isNameChar (h c (List.mem_of_mem_head? hc)),
    fun c hc => isWhitespace_of_isNameChar (h c (List.mem_of_mem_getLast? hc))⟩

/-! ## Target selectors -/

def targetLine (c : Channel) : List Char := keyLine "target".toList c.asStr.toList

/-- The file is accepted, and of the operations on channels its rule number `index` selects those on `c`. -/
def SelectsChannel (file : String) (index : Nat) (c : Channel) : Prop :=
  ∃ config rule, Config.parse file = .ok config ∧ config.rules[index]? = some rule ∧
    ∀ action channel, action = .subscribe channel ∨ action = .publish channel →
      (targetHolds rule action = true ↔ channel = c)

/-- The part of a channel that a policy file does not take for a comment. -/
def uncommented (c : Channel) : String := .ofList (c.asStr.toList.takeWhile (· ≠ '#'))

section Target

variable {c : Channel}

theorem uncommented_toList (c : Channel) : (uncommented c).toList = c.asStr.toList.takeWhile (· ≠ '#') :=
  String.toList_ofList

theorem uncommented_isNameChar : ∀ d ∈ (uncommented c).toList, IsNameChar d := by
  intro d hd
  rw [uncommented_toList] at hd
  exact (validateName_eq_ok.mp c.valid).2.2 d ((List.takeWhile_prefix _).subset hd)

theorem uncommented_eq_iff : uncommented c = c.asStr ↔ '#' ∉ c.asStr.toList := by
  rw [← String.toList_inj, uncommented_toList, List.takeWhile_eq_self_iff]
  refine ⟨fun h hmem => ?_, fun h d hd => decide_eq_true fun heq => h (heq ▸ hd)⟩
  exact of_decide_eq_true (h '#' hmem) rfl

theorem uncommented_valid (h : (uncommented c).toList ≠ []) : validateName (uncommented c) = .ok () := by
  refine validateName_eq_ok.mpr ⟨h, ?_, uncommented_isNameChar⟩
  rw [uncommented_toList]
  exact (List.takeWhile_prefix _).length_le.trans (validateName_eq_ok.mp c.valid).2.1

theorem content_targetLine (c : Channel) :
    content (targetLine c) = trim (keyLine "target".toList (uncommented c).toList) := by
  rw [uncommented_toList]
  exact content_keyLine (by decide)

theorem readRuleKey_target (hquote : '"' ∉ c.asStr.toList) (rule : Rule) :
    readRuleKey rule (content (targetLine c)) = .ok { rule with target := some (uncommented c) } := by
  have hquote' : '"' ∉ (uncommented c).toList := fun hmem => by
    rw [uncommented_toList] at hmem
    exact hquote ((List.takeWhile_prefix _).subset hmem)
  rw [content_targetLine, readRuleKey_keyLine (by decide) (by decide) (trim_of_isNameChar uncommented_isNameChar)
    (by decide) hquote', String.ofList_toList, String.ofList_toList]
  rfl

theorem content_targetLine_ne (c : Channel) : content (targetLine c) ≠ [] ∧ content (targetLine c) ≠ ruleHeader := by
  rw [content_targetLine]
  exact trim_keyLine_ne (by decide) (by decide) (trim_of_isNameChar uncommented_isNameChar)

/-- A selector without a star at its end selects the channel of this name only. -/
theorem targetMatches_exact {selector : String} (h : selector.toList.getLast? ≠ some '*') (target : String) :
    targetMatches selector (some target) = true ↔ selector = target := by
  unfold targetMatches
  dsimp only
  rw [if_neg h, decide_eq_true_iff]

theorem targetMatches_self (selector : String) : targetMatches selector (some selector) = true := by
  by_cases h : selector.toList.getLast? = some '*'
  · unfold targetMatches
    dsimp only
    rw [if_pos h]
    exact List.isPrefixOf_iff_prefix.mpr (List.dropLast_prefix _)
  · exact (targetMatches_exact h _).mpr rfl

/-- What is left of a channel selects this channel only, exactly when nothing was removed. -/
theorem uncommented_selects_iff (hstar : c.asStr.toList.getLast? ≠ some '*') :
    (∀ channel : Channel, targetMatches (uncommented c) (some channel.asStr) = true ↔ channel = c) ↔
      '#' ∉ c.asStr.toList := by
  rw [← uncommented_eq_iff]
  refine ⟨fun h => ?_, fun h channel => ?_⟩
  · by_cases hend : (uncommented c).toList.getLast? = some '*'
    · -- a wildcard: it selects the channel that it is itself
      have hne : (uncommented c).toList ≠ [] := fun hnil => by
        rw [hnil] at hend
        cases hend
      have hself := (h ⟨uncommented c, uncommented_valid hne⟩).mp (targetMatches_self _)
      exact congrArg Channel.asStr hself
    · exact (targetMatches_exact hend _).mp ((h c).mpr rfl)
  · rw [h, targetMatches_exact hstar]
    exact ⟨fun heq => Channel.ext heq.symm, fun heq => heq ▸ rfl⟩

/-- A line `target = c` in a rule without a target: it selects the channel `c`, exactly when `c` has no `#`. -/
theorem target_selector_iff {base file : String} {config : Config} {before after : List Rule} {rule : Rule}
    (hbase : Config.parse base = .ok config) (hrules : config.rules = before ++ rule :: after)
    (hfile : AddsLine (targetLine c) before.length base file) (htarget : rule.target = none)
    (hquote : '"' ∉ c.asStr.toList) (hstar : c.asStr.toList.getLast? ≠ some '*') :
    SelectsChannel file before.length c ↔ '#' ∉ c.asStr.toList := by
  obtain ⟨hne, hheader⟩ := content_targetLine_ne c
  have hkey : ∀ r, ∃ r', readRuleKey r (content (targetLine c)) = .ok r' ∧ SetsTarget (uncommented c) r r' :=
    fun r => ⟨_, readRuleKey_target hquote r, ⟨_, rfl⟩, fun _ => rfl⟩
  have hvalid : ∀ r r', SetsTarget (uncommented c) r r' → validateRule r' = validateRule r := by
    rintro r _ ⟨⟨target, rfl⟩, -⟩
    rfl
  obtain ⟨rule', hsets, hparse⟩ :=
    parse_addsLine hne hheader (setsTarget_kept _) hvalid hkey hbase hrules hfile
  have hholds : ∀ action, targetHolds rule' action = targetMatches (uncommented c) action.target := by
    intro action
    unfold targetHolds
    rw [hsets.2 htarget]
    rfl
  have hindex : (before ++ rule' :: after)[before.length]? = some rule' := by simp
  rw [← uncommented_selects_iff hstar]
  refine ⟨fun ⟨config', found, hparse', hfound, hall⟩ channel => ?_, fun h => ⟨_, rule', hparse, hindex, ?_⟩⟩
  · obtain rfl := Except.ok.inj (hparse.symm.trans hparse')
    obtain rfl := Option.some.inj (hindex.symm.trans hfound)
    rw [← hall (.subscribe channel) channel (.inl rfl), hholds]
    rfl
  · rintro _ channel (rfl | rfl)
    · rw [hholds, ← h channel]
      rfl
    · rw [hholds, ← h channel]
      rfl

end Target

def oneRule : String := "version = 1\n[[rule]]\neffect = allow"

def allowRule : Rule := { Rule.default with effect := some .allow }

theorem parse_oneRule : Config.parse oneRule = .ok ⟨1, .deny, [] ++ allowRule :: []⟩ := by decide +kernel

def equalsChannel : Channel := ⟨"jobs=done", by decide +kernel⟩

theorem target_selector_iff_equals :
    SelectsChannel (oneRule ++ "\ntarget = jobs=done") 0 equalsChannel ↔ '#' ∉ equalsChannel.asStr.toList := by
  have hfile : AddsLine (targetLine equalsChannel) ([] : List Rule).length oneRule
      (oneRule ++ "\ntarget = jobs=done") :=
    ⟨lines oneRule.toList, [], by decide +kernel, by decide +kernel, by decide +kernel⟩
  exact target_selector_iff parse_oneRule rfl hfile rfl (by decide +kernel) (by decide +kernel)

def hashChannel : Channel := ⟨"jobs#done", by decide +kernel⟩

def starHashChannel : Channel := ⟨"jobs*#done", by decide +kernel⟩

/-- The rest of the line is a comment: the rule selects another channel, or all channels with a common start. -/
theorem hash_target_misdirected :
    (∃ config rule, Config.parse (oneRule ++ "\ntarget = jobs#done") = .ok config ∧ config.rules[0]? = some rule ∧
      targetHolds rule (.subscribe hashChannel) = false ∧
      targetHolds rule (.subscribe ⟨"jobs", by decide +kernel⟩) = true) ∧
    ∃ config rule, Config.parse (oneRule ++ "\ntarget = jobs*#done") = .ok config ∧ config.rules[0]? = some rule ∧
      targetHolds rule (.publish starHashChannel) = true ∧ targetHolds rule (.publish equalsChannel) = true :=
  ⟨⟨⟨1, .deny, [{ allowRule with target := some "jobs" }]⟩, _, by decide +kernel, rfl, by decide +kernel,
      by decide +kernel⟩,
    ⟨1, .deny, [{ allowRule with target := some "jobs*" }]⟩, _, by decide +kernel, rfl, by decide +kernel,
      by decide +kernel⟩

/-! ## Header selectors -/

def headerStart : List Char := "header.".toList

def headerLine (n v : String) : List Char := keyLine (headerStart ++ n.toList) v.toList

/-- The name of the selector that a line `header.n = v` adds. -/
def selectorName (n : String) : List Char := trimStartMatches headerStart (headerStart ++ n.toList)

theorem setRuleKey_header (rule : Rule) (n value : String) (line : Nat) :
    setRuleKey rule (.ofList (headerStart ++ n.toList)) value line =
      if (selectorName n).isEmpty then .error ⟨line, "header selector needs a name"⟩
      else .ok { rule with headers := rule.headers.insert (.ofList (selectorName n)) value } := by
  have hstart : headerStart <+: (String.ofList (headerStart ++ n.toList)).toList := by
    rw [String.toList_ofList]
    exact List.prefix_append _ _
  have hother : ∀ key : String, ¬ headerStart <+: key.toList → String.ofList (headerStart ++ n.toList) ≠ key :=
    fun key hkey heq => hkey (heq ▸ hstart)
  unfold setRuleKey selectorName
  rw [show "header.".toList = headerStart from rfl, if_neg (hother _ (by decide)), if_neg (hother _ (by decide)),
    if_neg (hother _ (by decide)), if_neg (hother _ (by decide)), if_neg (hother _ (by decide)),
    if_neg (hother _ (by decide)), if_neg (hother _ (by decide)), if_neg (hother _ (by decide)),
    if_neg (hother _ (by decide)),
    if_pos (List.isPrefixOf_iff_prefix.mpr hstart), String.toList_ofList]

theorem headerKey_ne (n : String) : headerStart ++ n.toList ≠ [] :=
  List.append_ne_nil_of_left_ne_nil (by decide) _

/-- A name and a value that a header selector can be written with: a valid name, and none of the characters that the
format itself uses. -/
structure PlainHeader (n v : String) : Prop where
  name : validateName n = .ok ()
  equals : '=' ∉ n.toList
  hash : '#' ∉ n.toList
  comment : '#' ∉ v.toList
  quote : '"' ∉ v.toList
  trimmed : trim v.toList = v.toList

section Header

variable {n v : String} (h : PlainHeader n v)

include h

theorem PlainHeader.isNameChar : ∀ c ∈ headerStart ++ n.toList, IsNameChar c := by
  intro c hc
  rcases List.mem_append.mp hc with hstart | hn
  · have hall : headerStart.all (IsNameChar ·) = true := by decide
    exact of_decide_eq_true (List.all_eq_true.mp hall c hstart)
  · exact (validateName_eq_ok.mp h.name).2.2 c hn

theorem PlainHeader.content : content (headerLine n v) = trim (headerLine n v) := by
  have hkey : '#' ∉ headerStart ++ n.toList := fun hmem =>
    (List.mem_append.mp hmem).elim (by decide) h.hash
  have hall : v.toList.takeWhile (· ≠ '#') = v.toList :=
    List.takeWhile_eq_self_iff.mpr fun c hc => decide_eq_true fun heq => h.comment (heq ▸ hc)
  unfold headerLine
  rw [content_keyLine hkey, hall]

theorem PlainHeader.content_ne :
    Policy.content (headerLine n v) ≠ [] ∧ Policy.content (headerLine n v) ≠ ruleHeader := by
  rw [h.content]
  exact trim_keyLine_ne (headerKey_ne n) (trim_of_isNameChar h.isNameChar) h.trimmed

theorem readRuleKey_header (rule : Rule) : readRuleKey rule (content (headerLine n v)) =
    if (selectorName n).isEmpty then .error ⟨0, "header selector needs a name"⟩
    else .ok { rule with headers := rule.headers.insert (.ofList (selectorName n)) v } := by
  have hkey : '=' ∉ headerStart ++ n.toList := fun hmem =>
    (List.mem_append.mp hmem).elim (by decide) h.equals
  rw [h.content, headerLine, readRuleKey_keyLine (headerKey_ne n) (trim_of_isNameChar h.isNameChar) h.trimmed hkey
    h.quote, String.ofList_toList, setRuleKey_header]

/-- Of a name that does not start with `header.` all is kept. -/
theorem readRuleKey_header_kept (hstart : ¬ headerStart <+: n.toList) (rule : Rule) :
    readRuleKey rule (content (headerLine n v)) = .ok { rule with headers := rule.headers.insert n v } := by
  have hkept : selectorName n = n.toList := trimStartMatches_append (by decide) hstart
  have hne : n.toList.isEmpty = false := List.isEmpty_eq_false_iff.mpr (validateName_eq_ok.mp h.name).1
  rw [readRuleKey_header h, hkept, hne, String.ofList_toList]
  rfl

theorem readRuleKey_header_ok {rule rule' : Rule} (hread : readRuleKey rule (content (headerLine n v)) = .ok rule')
    (r : Rule) : readRuleKey r (content (headerLine n v)) =
      .ok { r with headers := r.headers.insert (.ofList (selectorName n)) v } := by
  rw [readRuleKey_header h] at hread ⊢
  split_ifs at hread ⊢
  rfl

end Header

/-- Of any other name at least one repetition of it is missing. -/
theorem selectorName_ne {n : String} (h : headerStart <+: n.toList) : String.ofList (selectorName n) ≠ n := by
  intro heq
  have hlength := length_trimStartMatches_lt (by decide) h
  have hsame : selectorName n = n.toList := by
    rw [← String.toList_inj, String.toList_ofList] at heq
    exact heq
  rw [selectorName] at hsame
  rw [hsame] at hlength
  omega

theorem setsHeader_insert (name value : String) (r : Rule) :
    SetsHeader name value r { r with headers := r.headers.insert name value } := by
  refine ⟨⟨_, rfl⟩, fun k hk => ?_, fun _ => ?_⟩
  · simp only [OrdMap.get?_insert]
    rw [if_neg hk]
  · simp only [OrdMap.get?_insert, if_true]

theorem SetsHeader.eq_insert {name value : String} {r r' : Rule} (h : SetsHeader name value r r')
    (hfree : r.headers.get? name = none) : r' = { r with headers := r.headers.insert name value } := by
  obtain ⟨⟨headers, rfl⟩, hothers, hnone⟩ := h
  have heq : headers = r.headers.insert name value := by
    refine OrdMap.ext_get? fun k => ?_
    rw [OrdMap.get?_insert]
    split_ifs with hk
    · rw [hk]
      exact hnone hfree
    · exact hothers k hk
  rw [heq]

theorem headersHold_insert {rule : Rule} {n : String} (hfree : rule.headers.get? n = none) (v : String)
    (claimed : OrdMap String HeaderValue) :
    headersHold { rule with headers := rule.headers.insert n v } claimed = true ↔
      claimed.get? n = some (.text v) ∧ headersHold rule claimed = true := by
  rw [headersHold_iff, headersHold_iff]
  simp only [OrdMap.get?_insert]
  refine ⟨fun h => ⟨h n v (by rw [if_pos rfl]), fun name value hget => h name value ?_⟩,
    fun ⟨hn, h⟩ name value hget => ?_⟩
  · have hne : name ≠ n := fun heq => by
      rw [heq, hfree] at hget
      cases hget
    rw [if_neg hne]
    exact hget
  · split_ifs at hget with heq
    · obtain rfl := Option.some.inj hget
      rw [heq]
      exact hn
    · exact h name value hget

/-- In every rule the line adds the selector `n` for `v`, and nothing else. -/
def LineAddsSelector (n v : String) : Prop :=
  ∀ (config : Config) (rule : Rule) (number : Nat), readLine ⟨config, some rule⟩ (content (headerLine n v)) number =
    .ok ⟨config, some { rule with headers := rule.headers.insert n v }⟩

/-- The file is read as `config` with the selector `n` for `v` added to the rule after `before`, which then asks for
this header besides the others. -/
def FileAddsSelector (file : String) (config : Config) (before : List Rule) (rule : Rule) (after : List Rule)
    (n v : String) : Prop :=
  Config.parse file =
      .ok { config with rules := before ++ { rule with headers := rule.headers.insert n v } :: after } ∧
    ∀ claimed, headersHold { rule with headers := rule.headers.insert n v } claimed = true ↔
      claimed.get? n = some (.text v) ∧ headersHold rule claimed = true

section HeaderSelector

variable {n v : String} (h : PlainHeader n v)

include h

theorem lineAddsSelector_iff : LineAddsSelector n v ↔ ¬ headerStart <+: n.toList := by
  obtain ⟨hne, hheader⟩ := h.content_ne
  refine ⟨fun hline hstart => ?_, fun hstart config rule number => ?_⟩
  · obtain ⟨rule, hkey, hrule⟩ := (readLine_rule_eq_ok hne hheader).mp (hline .initial .default 0)
    obtain rfl := Except.ok.inj (hkey.symm.trans (readRuleKey_header_ok h hkey .default))
    have hheaders := congrArg (fun state => (state.rule.getD .default).headers.get? n) hrule
    dsimp only [Option.getD_some] at hheaders
    rw [OrdMap.get?_insert, OrdMap.get?_insert, if_neg (selectorName_ne hstart).symm, if_pos rfl] at hheaders
    cases hheaders
  · refine (readLine_alike _ _ 0 number).eq_ok ?_
    exact (readLine_rule_eq_ok hne hheader).mpr ⟨_, readRuleKey_header_kept h hstart rule, rfl⟩

theorem fileAddsSelector_iff {base file : String} {config : Config} {before after : List Rule} {rule : Rule}
    (hbase : Config.parse base = .ok config) (hrules : config.rules = before ++ rule :: after)
    (hfile : AddsLine (headerLine n v) before.length base file) (hfree : rule.headers.get? n = none) :
    FileAddsSelector file config before rule after n v ↔ ¬ headerStart <+: n.toList := by
  obtain ⟨hne, hheader⟩ := h.content_ne
  have hvalid : ∀ name r r', SetsHeader name v r r' → validateRule r' = validateRule r := by
    rintro name r _ ⟨⟨headers, rfl⟩, -⟩
    rfl
  refine ⟨fun ⟨hparse, _⟩ hstart => ?_, fun hstart => ⟨?_, headersHold_insert hfree v⟩⟩
  · obtain ⟨r, r', hkey⟩ := readRuleKey_of_parse hne hheader hfile hparse
    obtain ⟨rule', hsets, hparse'⟩ := parse_addsLine hne hheader (setsHeader_kept (.ofList (selectorName n)) v)
      (hvalid _) (fun r => ⟨_, readRuleKey_header_ok h hkey r, setsHeader_insert _ v r⟩) hbase hrules hfile
    -- the name that was added is another one, so `n` is not there
    have hget : rule'.headers.get? n = none := (hsets.2.1 n (selectorName_ne hstart).symm).trans hfree
    have hsame := congrArg Config.rules (Except.ok.inj (hparse'.symm.trans hparse))
    obtain ⟨-, hcons⟩ := List.append_inj hsame rfl
    rw [(List.cons.inj hcons).1] at hget
    simp at hget
  · obtain ⟨rule', hsets, hparse⟩ := parse_addsLine hne hheader (setsHeader_kept n v) (hvalid n)
      (fun r => ⟨_, readRuleKey_header_kept h hstart r, setsHeader_insert n v r⟩) hbase hrules hfile
    rw [hsets.eq_insert hfree] at hparse
    exact hparse

/-- A line `header.n = v`: in every rule, and in every file, it adds the selector `n` for `v`, exactly when `n` does not
itself start with `header.`. -/
theorem header_selector_iff {base file : String} {config : Config} {before after : List Rule} {rule : Rule}
    (hbase : Config.parse base = .ok config) (hrules : config.rules = before ++ rule :: after)
    (hfile : AddsLine (headerLine n v) before.length base file) (hfree : rule.headers.get? n = none) :
    (LineAddsSelector n v ↔ ¬ headerStart <+: n.toList) ∧
      (FileAddsSelector file config before rule after n v ↔ ¬ headerStart <+: n.toList) :=
  ⟨lineAddsSelector_iff h, fileAddsSelector_iff h hbase hrules hfile hfree⟩

end HeaderSelector

theorem header_selector_iff_role :
    (LineAddsSelector "role" "a = b" ↔ ¬ headerStart <+: "role".toList) ∧
      (FileAddsSelector (oneRule ++ "\nheader.role = a = b") ⟨1, .deny, [] ++ allowRule :: []⟩ [] allowRule [] "role"
        "a = b" ↔ ¬ headerStart <+: "role".toList) := by
  have hfile : AddsLine (headerLine "role" "a = b") ([] : List Rule).length oneRule
      (oneRule ++ "\nheader.role = a = b") :=
    ⟨lines oneRule.toList, [], by decide +kernel, by decide +kernel, by decide +kernel⟩
  have hplain : PlainHeader "role" "a = b" :=
    ⟨by decide +kernel, by decide, by decide, by decide, by decide, by decide⟩
  exact header_selector_iff hplain parse_oneRule rfl hfile rfl

/-- Two names fall together, and the later line takes the place of the earlier one; a name of which nothing is left is
an error. -/
theorem header_names_collapse :
    (∃ config rule, Config.parse (oneRule ++ "\nheader.role = a\nheader.header.role = b") = .ok config ∧
      config.rules[0]? = some rule ∧ rule.headers.entries = [("role", "b")]) ∧
    validateName "header.role" = .ok () ∧ validateName "header." = .ok () ∧
    Config.parse (oneRule ++ "\nheader.header. = a") = .error ⟨4, "header selector needs a name"⟩ := by
  refine ⟨⟨⟨1, .deny, [{ allowRule with headers := OrdMap.empty.insert "role" "b" }]⟩, _, ?_, rfl, ?_⟩, ?_, ?_, ?_⟩
  all_goals decide +kernel

end Busd.Policy
