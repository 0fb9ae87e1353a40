import Busd.Policy.Config
import Busd.Lib.Codec

/-!
# Policy files one after the other

A file that begins with a rule can be appended to another one: its rules come after those that are there.

* `significant` : the lines of a file that are neither blank nor comments;
* `parse_eq_ok` : what a file is read as depends on these lines only, not on their numbers;
* `significant_append` : the lines of two files with a line break in between;
* `blocks_rules` : one rule for each block, in file order;
* `parse_append` : the rules of both, in order, and the decisions of the policy.
-/

namespace Busd.Policy

open Text
open Codec (bind_eq_ok map_eq_ok forM_eq_ok)

/-! ## The numbers of the lines -/

section Numbers

variable (value : String) (number number' : Nat)

theorem parseEffect_alike : Alike (parseEffect value number) (parseEffect value number') :=
  .ite .rfl (.ite .rfl alike_error)

theorem parseNumber_alike (name : String) : Alike (parseNumber value number name) (parseNumber value number' name) := by
  unfold parseNumber
  split
  · exact alike_error
  · exact .rfl

theorem parseVersion_alike : Alike (parseVersion value number) (parseVersion value number') := by
  unfold parseVersion
  split
  · exact alike_error
  · exact .rfl

theorem unquote_alike (value : List Char) : Alike (unquote value number) (unquote value number') :=
  .ite (.ite alike_error .rfl) .rfl

theorem setRuleKey_alike (rule : Rule) (key : String) :
    Alike (setRuleKey rule key value number) (setRuleKey rule key value number') :=
  .ite ((parseEffect_alike value number number').map _) <| .ite .rfl <|
    .ite ((parseNumber_alike value number number' _).map _) <|
    .ite ((parseNumber_alike value number number' _).map _) <|
    .ite .rfl <| .ite .rfl <| .ite .rfl <| .ite .rfl <| .ite .rfl <| .ite (.ite alike_error .rfl) alike_error

theorem setTopKey_alike (config : Config) (key : String) :
    Alike (setTopKey config key value number) (setTopKey config key value number') :=
  .ite ((parseVersion_alike value number number').map _) <|
    .ite ((parseEffect_alike value number number').map _) alike_error

end Numbers

/-- A line is read alike whatever its number is. -/
theorem readLine_alike (state : ParseState) (line : List Char) (number number' : Nat) :
    Alike (readLine state line number) (readLine state line number') := by
  refine .ite .rfl (.ite .rfl ?_)
  split
  · exact alike_error
  · refine .bind (unquote_alike number number' _) fun value => ?_
    split
    · exact (setTopKey_alike value number number' _ _).map _
    · exact (setRuleKey_alike value number number' _ _).map _

/-! ## The lines that count -/

/-- The contents of the lines that are neither blank nor comments. -/
def significant (text : List Char) : List (List Char) := ((lines text).map content).filter (· ≠ [])

/-- A carriage return at the end is white space, or part of a comment. -/
theorem content_dropReturn (line : List Char) : content (dropReturn line) = content line := by
  rcases dropReturn_cases line with heq | heq
  · rw [heq]
  · conv_rhs => rw [heq]
    unfold content
    rw [splitOnce_concat (by decide)]
    cases splitOnce '#' (dropReturn line) with
    | none => exact (trim_concat (by decide) _).symm
    | some p => rfl

theorem filter_content_last (last : List Char) :
    [content (dropReturn last)].filter (· ≠ []) =
      (((some last).filter (· ≠ [])).toList.map content).filter (· ≠ []) := by
  rw [content_dropReturn]
  by_cases hempty : last = []
  · subst hempty
    rfl
  · rw [Option.filter_some, if_pos (by simpa using hempty)]
    rfl

theorem significant_append (text text' : List Char) :
    significant (text ++ '\n' :: text') = significant text ++ significant text' := by
  unfold significant
  rw [lines_append, List.map_append, List.filter_append]
  congr 1
  obtain ⟨front, last, hsplit⟩ : ∃ front last, text.splitOn '\n' = front ++ [last] :=
    ⟨_, _, (List.dropLast_append_getLast (List.splitOn_ne_nil '\n' text)).symm⟩
  unfold lines
  rw [hsplit, List.map_append, List.map_append, List.filter_append, List.dropLast_concat, List.getLast?_concat,
    List.map_append, List.filter_append]
  congr 1
  exact filter_content_last last

def readLines (state : ParseState) (contents : List (List Char)) : Except ConfigError ParseState :=
  contents.foldlM (fun state line => readLine state line 0) state

theorem readLines_alike (raws : List (List Char)) (start : Nat) (state : ParseState) :
    Alike ((raws.zipIdx start).foldlM (fun state line => readLine state (content line.1) (line.2 + 1)) state)
      (readLines state ((raws.map content).filter (· ≠ []))) := by
  induction raws generalizing start state with
  | nil => exact .rfl
  | cons raw raws ih =>
    rw [List.zipIdx_cons, List.foldlM_cons, List.map_cons]
    by_cases hblank : content raw = []
    · rw [List.filter_cons_of_neg (by simpa using hblank), hblank]
      exact ih (start + 1) state
    · rw [List.filter_cons_of_pos (by simpa using hblank)]
      exact .bind (readLine_alike state (content raw) (start + 1) 0) fun state' => ih (start + 1) state'

def ParseState.initial : ParseState := ⟨.initial, none⟩

/-- What a file is read as depends on its significant lines only. -/
theorem parse_eq_ok {input : String} {config : Config} : Config.parse input = .ok config ↔
    ∃ state, readLines .initial (significant input.toList) = .ok state ∧
      validateConfig state.close = .ok () ∧ state.close = config := by
  have halike := readLines_alike (lines input.toList) 0 .initial
  refine bind_eq_ok.trans (exists_congr fun state => and_congr ⟨halike.eq_ok, halike.symm.eq_ok⟩ ?_)
  refine bind_eq_ok.trans ⟨fun ⟨_, hvalid, hclose⟩ => ⟨hvalid, Except.ok.inj hclose⟩, fun ⟨hvalid, hclose⟩ => ?_⟩
  exact ⟨(), hvalid, congrArg _ hclose⟩

/-! ## Rules -/

def readRuleKey (rule : Rule) (line : List Char) : Except ConfigError Rule :=
  match splitOnce '=' line with
  | none => .error ⟨0, "expected key = value"⟩
  | some (key, rawValue) => unquote (trim rawValue) 0 >>= fun value => setRuleKey rule (.ofList (trim key)) value 0

def readTopKey (config : Config) (line : List Char) : Except ConfigError Config :=
  match splitOnce '=' line with
  | none => .error ⟨0, "expected key = value"⟩
  | some (key, rawValue) => unquote (trim rawValue) 0 >>= fun value => setTopKey config (.ofList (trim key)) value 0

theorem readLine_header (state : ParseState) : readLine state ruleHeader 0 = .ok ⟨state.close, some .default⟩ := rfl

section Key

variable {line : List Char} (hline : line ≠ []) (hheader : line ≠ ruleHeader)

include hline hheader

theorem readLine_rule (config : Config) (rule : Rule) : readLine ⟨config, some rule⟩ line 0 =
    (readRuleKey rule line).map fun rule => ⟨config, some rule⟩ := by
  unfold readLine readRuleKey
  rw [if_neg (by simpa using hline), if_neg hheader]
  cases splitOnce '=' line with
  | none => rfl
  | some pair =>
    dsimp only
    cases unquote (trim pair.2) 0 <;> rfl

theorem readLine_top (config : Config) : readLine ⟨config, none⟩ line 0 =
    (readTopKey config line).map fun config => ⟨config, none⟩ := by
  unfold readLine readTopKey
  rw [if_neg (by simpa using hline), if_neg hheader]
  cases splitOnce '=' line with
  | none => rfl
  | some pair =>
    dsimp only
    cases unquote (trim pair.2) 0 <;> rfl

theorem readLine_rule_eq_ok {config : Config} {rule : Rule} {state : ParseState} :
    readLine ⟨config, some rule⟩ line 0 = .ok state ↔
      ∃ rule', readRuleKey rule line = .ok rule' ∧ ⟨config, some rule'⟩ = state := by
  rw [readLine_rule hline hheader]
  exact map_eq_ok

theorem readLine_top_eq_ok {config : Config} {state : ParseState} :
    readLine ⟨config, none⟩ line 0 = .ok state ↔
      ∃ config', readTopKey config line = .ok config' ∧ ⟨config', none⟩ = state := by
  rw [readLine_top hline hheader]
  exact map_eq_ok

end Key

/-- Within a rule a line leaves what was read before alone, apart from the rule that a header closes. -/
theorem readLine_within {config : Config} {rule : Rule} {line : List Char} {state : ParseState}
    (h : readLine ⟨config, some rule⟩ line 0 = .ok state) :
    ∃ closed rule', state = ⟨{ config with rules := config.rules ++ closed }, some rule'⟩ ∧
      ∀ other : Config, readLine ⟨other, some rule⟩ line 0 =
        .ok ⟨{ other with rules := other.rules ++ closed }, some rule'⟩ := by
  by_cases hline : line = []
  · subst hline
    obtain rfl := Except.ok.inj h
    exact ⟨[], rule, by rw [List.append_nil], fun other => by rw [List.append_nil]; rfl⟩
  by_cases hheader : line = ruleHeader
  · subst hheader
    obtain rfl := Except.ok.inj h
    exact ⟨[rule], .default, rfl, fun other => rfl⟩
  obtain ⟨rule', hread, rfl⟩ := (readLine_rule_eq_ok hline hheader).mp h
  refine ⟨[], rule', by rw [List.append_nil], fun other => ?_⟩
  rw [List.append_nil]
  exact (readLine_rule_eq_ok hline hheader).mpr ⟨rule', hread, rfl⟩

theorem readLines_within {contents : List (List Char)} {config : Config} {rule : Rule} {state : ParseState}
    (h : readLines ⟨config, some rule⟩ contents = .ok state) :
    ∃ closed rule', state = ⟨{ config with rules := config.rules ++ closed }, some rule'⟩ ∧
      ∀ other : Config, readLines ⟨other, some rule⟩ contents =
        .ok ⟨{ other with rules := other.rules ++ closed }, some rule'⟩ := by
  induction contents generalizing config rule with
  | nil =>
    obtain rfl := Except.ok.inj h
    exact ⟨[], rule, by rw [List.append_nil], fun other => by rw [List.append_nil]; rfl⟩
  | cons line contents ih =>
    obtain ⟨middle, hline, hrest⟩ := bind_eq_ok.mp ((List.foldlM_cons ..).symm.trans h)
    obtain ⟨closed, rule', rfl, hother⟩ := readLine_within hline
    obtain ⟨closed', rule'', rfl, hothers⟩ := ih hrest
    refine ⟨closed ++ closed', rule'', by rw [← List.append_assoc], fun other => ?_⟩
    refine (List.foldlM_cons ..).trans (bind_eq_ok.mpr ⟨_, hother other, ?_⟩)
    rw [← List.append_assoc]
    exact hothers _

/-! ## One rule for each block -/

/-- The rule that the lines after a header describe. -/
def readBlock (block : List (List Char)) : Except ConfigError Rule := block.foldlM readRuleKey .default

/-- The blocks of a file: the significant lines after each header. -/
def blocks (text : List Char) : List (List (List Char)) := ((significant text).splitOn ruleHeader).tail

theorem splitOn_header (contents : List (List Char)) :
    (ruleHeader :: contents).splitOn ruleHeader = [] :: contents.splitOn ruleHeader :=
  List.splitOn_append_cons_self [] contents

theorem splitOn_line {line : List Char} (hheader : line ≠ ruleHeader) (contents : List (List Char)) :
    (line :: contents).splitOn ruleHeader = (contents.splitOn ruleHeader).modifyHead (line :: ·) := by
  rw [List.splitOn_cons_eq_if_modifyHead, if_neg (by simpa using hheader)]

theorem readLines_cons {line : List Char} {contents : List (List Char)} {state state' : ParseState} :
    readLines state (line :: contents) = .ok state' ↔
      ∃ middle, readLine state line 0 = .ok middle ∧ readLines middle contents = .ok state' := by
  unfold readLines
  rw [List.foldlM_cons]
  exact bind_eq_ok

theorem readLines_append {contents contents' : List (List Char)} {state state' : ParseState} :
    readLines state (contents ++ contents') = .ok state' ↔
      ∃ middle, readLines state contents = .ok middle ∧ readLines middle contents' = .ok state' := by
  unfold readLines
  rw [List.foldlM_append]
  exact bind_eq_ok

/-- From within a rule: the lines up to the next header go on with this rule, the blocks after it are rules. -/
theorem readLines_blocks {contents : List (List Char)} (hlines : ∀ line ∈ contents, line ≠ []) {config : Config}
    {rule : Rule} {state : ParseState} (h : readLines ⟨config, some rule⟩ contents = .ok state) :
    ∃ block rest rule' rules, contents.splitOn ruleHeader = block :: rest ∧
      block.foldlM readRuleKey rule = .ok rule' ∧
      List.Forall₂ (fun block rule => readBlock block = .ok rule) rest rules ∧
      state.close.rules = config.rules ++ rule' :: rules := by
  induction contents generalizing config rule with
  | nil =>
    obtain rfl := Except.ok.inj h
    exact ⟨[], [], rule, [], rfl, rfl, .nil, rfl⟩
  | cons line contents ih =>
    obtain ⟨hline, hothers⟩ := List.forall_mem_cons.mp hlines
    obtain ⟨middle, hread, hrest⟩ := readLines_cons.mp h
    by_cases hheader : line = ruleHeader
    · subst hheader
      obtain rfl := Except.ok.inj hread
      obtain ⟨block, rest, rule', rules, hsplit, hblock, hrules, hclose⟩ := ih hothers hrest
      refine ⟨[], block :: rest, rule, rule' :: rules, by rw [splitOn_header, hsplit], rfl, .cons hblock hrules, ?_⟩
      rw [hclose]
      exact List.append_assoc ..
    · obtain ⟨middleRule, hkey, rfl⟩ := (readLine_rule_eq_ok hline hheader).mp hread
      obtain ⟨block, rest, rule', rules, hsplit, hblock, hrules, hclose⟩ := ih hothers hrest
      refine ⟨line :: block, rest, rule', rules, by rw [splitOn_line hheader, hsplit]; rfl, ?_, hrules, hclose⟩
      rw [List.foldlM_cons]
      exact bind_eq_ok.mpr ⟨middleRule, hkey, hblock⟩

theorem readTopKey_rules {config config' : Config} {line : List Char} (h : readTopKey config line = .ok config') :
    config'.rules = config.rules := by
  unfold readTopKey at h
  split at h
  · cases h
  · obtain ⟨value, -, hset⟩ := bind_eq_ok.mp h
    unfold setTopKey at hset
    split_ifs at hset
    · obtain ⟨_, -, rfl⟩ := map_eq_ok.mp hset
      rfl
    · obtain ⟨_, -, rfl⟩ := map_eq_ok.mp hset
      rfl

/-- From the start: each header begins a rule, and nothing else does. -/
theorem readLines_rules {contents : List (List Char)} (hlines : ∀ line ∈ contents, line ≠ []) {config : Config}
    (hrules : config.rules = []) {state : ParseState} (h : readLines ⟨config, none⟩ contents = .ok state) :
    List.Forall₂ (fun block rule => readBlock block = .ok rule) (contents.splitOn ruleHeader).tail
      state.close.rules := by
  have hclosed : ∀ config : Config, config.rules = [] → (ParseState.close ⟨config, none⟩).rules = [] := by
    intro config hrules
    exact (List.append_nil _).trans hrules
  induction contents generalizing config with
  | nil =>
    obtain rfl := Except.ok.inj h
    rw [hclosed config hrules]
    exact .nil
  | cons line contents ih =>
    obtain ⟨hline, hothers⟩ := List.forall_mem_cons.mp hlines
    obtain ⟨middle, hread, hrest⟩ := readLines_cons.mp h
    by_cases hheader : line = ruleHeader
    · subst hheader
      obtain rfl := Except.ok.inj hread
      obtain ⟨block, rest, rule', rules, hsplit, hblock, hblocks, hclose⟩ := readLines_blocks hothers hrest
      rw [splitOn_header, hsplit, hclose, hclosed config hrules]
      exact .cons hblock hblocks
    · obtain ⟨config', hkey, rfl⟩ := (readLine_top_eq_ok hline hheader).mp hread
      rw [splitOn_line hheader, List.tail_modifyHead]
      exact ih hothers ((readTopKey_rules hkey).trans hrules) hrest

/-! ## Two files -/

theorem validateConfig_eq_ok {config : Config} : validateConfig config = .ok () ↔
    config.version = 1 ∧ ∀ rule ∈ config.rules, validateRule rule = .ok () := by
  unfold validateConfig
  split_ifs with hversion
  · exact iff_of_false (fun h => by cases h) fun h => hversion h.1
  · rw [forM_eq_ok]
    exact (and_iff_right (not_not.mp hversion)).symm

/-- The two configurations one after the other; the default is that of the first. -/
def Config.append (a b : Config) : Config := { a with rules := a.rules ++ b.rules }

theorem parse_append_config {a b : String} {ca cb : Config} (ha : Config.parse a = .ok ca)
    (hb : Config.parse b = .ok cb) (hfirst : (significant b.toList).head? = some ruleHeader) :
    Config.parse (a ++ "\n" ++ b) = .ok (ca.append cb) := by
  obtain ⟨sa, hsa, hva, rfl⟩ := parse_eq_ok.mp ha
  obtain ⟨sb, hsb, hvb, rfl⟩ := parse_eq_ok.mp hb
  obtain ⟨rest, hrest⟩ := List.head?_eq_some_iff.mp hfirst
  rw [hrest] at hsb
  obtain ⟨middle, hheader, hblocks⟩ := readLines_cons.mp hsb
  obtain rfl := Except.ok.inj ((readLine_header _).symm.trans hheader)
  obtain ⟨closed, rule, rfl, hother⟩ := readLines_within hblocks
  -- what the second file adds after its first header, it adds to the first file as well
  have hboth : readLines .initial (significant (a ++ "\n" ++ b).toList) =
      .ok ⟨{ sa.close with rules := sa.close.rules ++ closed }, some rule⟩ := by
    have htext : (a ++ "\n" ++ b).toList = a.toList ++ '\n' :: b.toList := by simp
    rw [htext, significant_append, hrest]
    exact readLines_append.mpr ⟨sa, hsa, readLines_cons.mpr ⟨_, readLine_header sa, hother sa.close⟩⟩
  have hclose : ParseState.close ⟨{ sa.close with rules := sa.close.rules ++ closed }, some rule⟩ =
      sa.close.append (ParseState.close
        ⟨{ ParseState.initial.close with rules := ParseState.initial.close.rules ++ closed }, some rule⟩) := by
    unfold ParseState.close Config.append
    simp [ParseState.initial, Config.initial]
  refine parse_eq_ok.mpr ⟨_, hboth, ?_, hclose⟩
  rw [hclose]
  obtain ⟨hversion, hrules⟩ := validateConfig_eq_ok.mp hva
  have hrules' := (validateConfig_eq_ok.mp hvb).2
  exact validateConfig_eq_ok.mpr ⟨hversion, List.forall_mem_append.mpr ⟨hrules, hrules'⟩⟩

theorem blocks_append {text text' : List Char} (hfirst : (significant text').head? = some ruleHeader) :
    blocks (text ++ '\n' :: text') = blocks text ++ blocks text' := by
  obtain ⟨rest, hrest⟩ := List.head?_eq_some_iff.mp hfirst
  unfold blocks
  rw [significant_append, hrest, splitOn_header, List.splitOn_append_cons_self,
    List.tail_append_of_ne_nil (List.splitOn_ne_nil _ _), List.tail_cons]

/-- A file that is accepted has one rule for each of its blocks, in file order. -/
theorem blocks_rules {input : String} {config : Config} (h : Config.parse input = .ok config) :
    List.Forall₂ (fun block rule => readBlock block = .ok rule) (blocks input.toList) config.rules := by
  obtain ⟨state, hstate, -, rfl⟩ := parse_eq_ok.mp h
  refine readLines_rules (fun line hline => ?_) rfl hstate
  exact of_decide_eq_true (List.mem_filter.mp hline).2

/-! ## Decisions -/

theorem ConfigPolicy.parse_of_config {input : String} {config : Config} (h : Config.parse input = .ok config) :
    ∃ policy, ConfigPolicy.parse input = .ok policy ∧ policy.config = config := by
  obtain ⟨state, -, hvalid, rfl⟩ := parse_eq_ok.mp h
  refine ⟨⟨state.close, hvalid⟩, bind_eq_ok.mpr ⟨state.close, h, ?_⟩, rfl⟩
  unfold ConfigPolicy.new
  split
  · next hnew => exact absurd (hvalid.symm.trans hnew) (fun h => by cases h)
  · rfl

theorem ConfigPolicy.effect_isSome (policy : ConfigPolicy) {rule : Rule} (h : rule ∈ policy.config.rules) :
    ∃ effect, rule.effect = some effect := by
  have hvalid := (validateConfig_eq_ok.mp policy.valid).2 rule h
  cases heffect : rule.effect with
  | none =>
    unfold validateRule at hvalid
    rw [heffect] at hvalid
    cases hvalid
  | some effect => exact ⟨effect, rfl⟩

section Permits

variable {policy : ConfigPolicy} {request : Request}

theorem permits_of_some {rule : Rule} (h : policy.config.rules.find? (ruleMatches · request) = some rule) :
    Policy.permits policy request = decide (rule.effect = some .allow) := by
  obtain ⟨effect, heffect⟩ := policy.effect_isSome (List.mem_of_find?_eq_some h)
  show decide (((policy.config.rules.find? (ruleMatches · request)).bind Rule.effect).getD _ = .allow) = _
  rw [h, Option.bind_some, heffect, Option.getD_some]
  exact decide_eq_decide.mpr Option.some_inj.symm

theorem permits_of_none (h : policy.config.rules.find? (ruleMatches · request) = none) :
    Policy.permits policy request = decide (policy.config.default = .allow) := by
  show decide (((policy.config.rules.find? (ruleMatches · request)).bind Rule.effect).getD _ = .allow) = _
  rw [h, Option.bind_none, Option.getD_none]

end Permits

/-- The second file is asked where no rule of the first one matches, and its default never is. -/
theorem permits_append {policy first : ConfigPolicy} {second : Config}
    (happend : policy.config = first.config.append second) (request : Request) :
    Policy.permits policy request =
      if first.config.rules.any (ruleMatches · request) then Policy.permits first request
      else match second.rules.find? (ruleMatches · request) with
        | some rule => decide (rule.effect = some .allow)
        | none => decide (first.config.default = .allow) := by
  have hfind : policy.config.rules.find? (ruleMatches · request) =
      (first.config.rules.find? (ruleMatches · request)).or (second.rules.find? (ruleMatches · request)) := by
    rw [happend]
    exact List.find?_append
  rw [← List.isSome_find?]
  cases hfirst : first.config.rules.find? (ruleMatches · request) with
  | some rule =>
    rw [hfirst] at hfind
    rw [permits_of_some hfind, permits_of_some hfirst]
    rfl
  | none =>
    rw [hfirst, Option.none_or] at hfind
    cases hsecond : second.rules.find? (ruleMatches · request) with
    | some rule => exact permits_of_some (hfind.trans hsecond)
    | none =>
      rw [permits_of_none (hfind.trans hsecond), happend]
      rfl

/-- Two files with a line break in between are read as one policy: one rule for each block, in file order. A rule of the
first file that matches decides as it did, then the first one of the second file, then the default of the first file. -/
theorem parse_append {a b : String} {first second : Config} (ha : Config.parse a = .ok first)
    (hb : Config.parse b = .ok second) (hheader : (significant b.toList).head? = some ruleHeader) :
    ∃ policy alone : ConfigPolicy, ConfigPolicy.parse (a ++ "\n" ++ b) = .ok policy ∧
      ConfigPolicy.parse a = .ok alone ∧
      (∀ request : Request, Policy.permits policy request =
        if first.rules.any (ruleMatches · request) then Policy.permits alone request
        else match second.rules.find? (ruleMatches · request) with
          | some rule => decide (rule.effect = some .allow)
          | none => decide (first.default = .allow)) ∧
      policy.config.rules = first.rules ++ second.rules ∧
      List.Forall₂ (fun block rule => readBlock block = .ok rule) (blocks a.toList ++ blocks b.toList)
        policy.config.rules := by
  have hboth := parse_append_config ha hb hheader
  obtain ⟨policy, hpolicy, happend⟩ := ConfigPolicy.parse_of_config hboth
  obtain ⟨alone, halone, rfl⟩ := ConfigPolicy.parse_of_config ha
  refine ⟨policy, alone, hpolicy, halone, permits_append happend, congrArg Config.rules happend, ?_⟩
  have htext : (a ++ "\n" ++ b).toList = a.toList ++ '\n' :: b.toList := by simp
  rw [← blocks_append hheader, ← htext, happend]
  exact blocks_rules hboth

/-- Everything is allowed but the claims of the first file, of which the second one would allow some. -/
def deniedClaims : String := "default = allow\n[[rule]]\neffect = deny\nactions = claim-namespace\n"

def allowedClaims : String := "# local rules\r\n[[rule]] # one\r\neffect = allow\r\ntarget = com.example.*"

def denyClaims : Rule := { Rule.default with effect := some .deny, actions := ["claim-namespace"] }

def allowExample : Rule := { Rule.default with effect := some .allow, target := some "com.example.*" }

theorem parse_append_claims : ∃ policy alone : ConfigPolicy,
    ConfigPolicy.parse (deniedClaims ++ "\n" ++ allowedClaims) = .ok policy ∧
      ConfigPolicy.parse deniedClaims = .ok alone ∧
      (∀ request : Request, Policy.permits policy request =
        if [denyClaims].any (ruleMatches · request) then Policy.permits alone request
        else match [allowExample].find? (ruleMatches · request) with
          | some rule => decide (rule.effect = some .allow)
          | none => decide (Effect.allow = .allow)) ∧
      policy.config.rules = [denyClaims, allowExample] ∧
      List.Forall₂ (fun block rule => readBlock block = .ok rule)
        (blocks deniedClaims.toList ++ blocks allowedClaims.toList) policy.config.rules :=
  @parse_append deniedClaims allowedClaims ⟨1, .allow, [denyClaims]⟩ ⟨1, .deny, [allowExample]⟩
    (by decide +kernel) (by decide +kernel) (by decide +kernel)

end Busd.Policy
