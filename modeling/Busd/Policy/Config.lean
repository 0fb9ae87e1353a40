import Busd.Broker.State
import Busd.Lib.Text

/-!
# Policy files

The `busd-policy/1` format, which is read line by line, and the policy that evaluates what was read: the first rule
that matches a request decides.

* `Config.parse` : the reader, with the rule that is open between two lines as its state;
* `validateConfig`, `ConfigPolicy` : what a configuration must satisfy to be used as a policy;
* `ruleMatches`, `targetMatches` : the selectors of a rule.
-/

namespace Busd.Policy

open Busd.Protocol

/-! ## Configurations -/

inductive Effect where
  | allow
  | deny
  deriving DecidableEq, Repr

/-- One ordered authorization rule; every populated selector has to match. -/
structure Rule where
  effect : Option Effect
  actions : List String
  uid : Option UInt32
  gid : Option UInt32
  executable : Option String
  securityLabel : Option String
  cgroup : Option String
  clientId : Option String
  target : Option String
  headers : OrdMap String String
  deriving DecidableEq

def Rule.default : Rule := ⟨none, [], none, none, none, none, none, none, none, ∅⟩

structure Config where
  version : UInt8
  default : Effect
  rules : List Rule
  deriving DecidableEq

def Config.initial : Config := ⟨1, .deny, []⟩

/-- An error with the number of its line, which is 0 if it is about the whole file. -/
structure ConfigError where
  line : Nat
  message : String
  deriving DecidableEq, Repr

def actionNames : List String :=
  ["connect", "claim-namespace", "subscribe", "publish", "send-peer", "send-namespace", "send-client", "broadcast",
    "acknowledge", "monitor", "register-dbus-name"]

def validateRule (rule : Rule) : Except ConfigError Unit :=
  if rule.effect.isNone then .error ⟨0, "every rule requires an effect"⟩
  else if rule.actions.any fun action => !actionNames.contains action then .error ⟨0, "unknown action"⟩
  else .ok ()

def validateConfig (config : Config) : Except ConfigError Unit :=
  if config.version ≠ 1 then .error ⟨0, "unsupported policy version"⟩
  else config.rules.forM validateRule

/-! ## The reader -/

def parseEffect (value : String) (line : Nat) : Except ConfigError Effect :=
  if value = "allow" then .ok .allow
  else if value = "deny" then .ok .deny
  else .error ⟨line, "effect must be allow or deny"⟩

def parseNumber (value : String) (line : Nat) (name : String) : Except ConfigError UInt32 :=
  match Text.parseUnsigned (2 ^ 32) value.toList with
  | none => .error ⟨line, name ++ " must be an unsigned integer"⟩
  | some number => .ok (.ofNat number)

def parseVersion (value : String) (line : Nat) : Except ConfigError UInt8 :=
  match Text.parseUnsigned (2 ^ 8) value.toList with
  | none => .error ⟨line, "version must be an integer"⟩
  | some number => .ok (.ofNat number)

def unquote (value : List Char) (line : Nat) : Except ConfigError String :=
  if value.head? = some '"' ∨ value.getLast? = some '"' then
    if value.length < 2 ∨ value.head? ≠ some '"' ∨ value.getLast? ≠ some '"' then
      .error ⟨line, "strings must use matching double quotes"⟩
    else .ok (.ofList (value.drop 1).dropLast)
  else .ok (.ofList value)

def listItems (value : String) : List String :=
  (((value.toList.splitOn ',').map Text.trim).filter fun item => !item.isEmpty).map String.ofList

def setRuleKey (rule : Rule) (key value : String) (line : Nat) : Except ConfigError Rule :=
  if key = "effect" then (parseEffect value line).map fun effect => { rule with effect := some effect }
  else if key = "actions" then .ok { rule with actions := listItems value }
  else if key = "uid" then (parseNumber value line "uid").map fun uid => { rule with uid := some uid }
  else if key = "gid" then (parseNumber value line "gid").map fun gid => { rule with gid := some gid }
  else if key = "executable" then .ok { rule with executable := some value }
  else if key = "security-label" then .ok { rule with securityLabel := some value }
  else if key = "cgroup" then .ok { rule with cgroup := some value }
  else if key = "client-id" then .ok { rule with clientId := some value }
  else if key = "target" then .ok { rule with target := some value }
  else if "header.".toList.isPrefixOf key.toList then
    let name := Text.trimStartMatches "header.".toList key.toList
    if name.isEmpty then .error ⟨line, "header selector needs a name"⟩
    else .ok { rule with headers := rule.headers.insert (.ofList name) value }
  else .error ⟨line, "unknown rule key"⟩

def setTopKey (config : Config) (key value : String) (line : Nat) : Except ConfigError Config :=
  if key = "version" then (parseVersion value line).map fun version => { config with version }
  else if key = "default" then (parseEffect value line).map fun effect => { config with default := effect }
  else .error ⟨line, "unknown top-level key"⟩

/-- What was read, and the rule that is still open. -/
structure ParseState where
  config : Config
  rule : Option Rule
  deriving DecidableEq

def ParseState.close (state : ParseState) : Config :=
  { state.config with rules := state.config.rules ++ state.rule.toList }

/-- What stands on a line: no comment, no white space around it. -/
def content (line : List Char) : List Char :=
  Text.trim ((Text.splitOnce '#' line).elim line Prod.fst)

def ruleHeader : List Char := "[[rule]]".toList

/-- One line of the file, given by its content. -/
def readLine (state : ParseState) (line : List Char) (number : Nat) : Except ConfigError ParseState :=
  if line.isEmpty then .ok state
  else if line = ruleHeader then .ok ⟨state.close, some .default⟩
  else
    match Text.splitOnce '=' line with
    | none => .error ⟨number, "expected key = value"⟩
    | some (key, rawValue) => do
      let value ← unquote (Text.trim rawValue) number
      match state.rule with
      | none => (setTopKey state.config (.ofList (Text.trim key)) value number).map fun config => ⟨config, none⟩
      | some rule =>
        (setRuleKey rule (.ofList (Text.trim key)) value number).map fun rule => ⟨state.config, some rule⟩

def Config.parse (input : String) : Except ConfigError Config := do
  let state ← (Text.lines input.toList).zipIdx.foldlM
    (fun state line => readLine state (content line.1) (line.2 + 1)) ⟨.initial, none⟩
  validateConfig state.close
  return state.close

/-! ## The policy -/

def Action.name : Action → String
  | .connect => "connect"
  | .claimNamespace _ => "claim-namespace"
  | .subscribe _ => "subscribe"
  | .publish _ => "publish"
  | .sendPeer _ => "send-peer"
  | .sendNamespace _ => "send-namespace"
  | .sendClient _ => "send-client"
  | .broadcast => "broadcast"
  | .acknowledge => "acknowledge"
  | .monitor => "monitor"
  | .registerDbusName _ => "register-dbus-name"

def Action.target : Action → Option String
  | .claimNamespace ns | .sendNamespace ns => some ns.asStr
  | .subscribe channel | .publish channel => some channel.asStr
  | .sendPeer peer => some (Broker.peerLabel peer)
  | .sendClient clientId => some clientId.asStr
  | .registerDbusName name => some name
  | .connect | .broadcast | .acknowledge | .monitor => none

/-- A selector is the target itself, or the start of it if it ends in `*`. -/
def targetMatches (selector : String) (target : Option String) : Bool :=
  match target with
  | none => false
  | some target =>
    if selector.toList.getLast? = some '*' then selector.toList.dropLast.isPrefixOf target.toList
    else selector = target

def ruleMatches (rule : Rule) (request : Request) : Bool :=
  (rule.actions.isEmpty || rule.actions.any (· = request.action.name)) &&
    rule.uid.all (· = request.credentials.uid) &&
    rule.gid.all (· = request.credentials.gid) &&
    rule.executable.all (request.credentials.executable = some ·) &&
    rule.securityLabel.all (request.credentials.securityLabel = some ·) &&
    rule.cgroup.all (request.credentials.cgroup = some ·) &&
    rule.clientId.all (fun value => request.clientId.any fun clientId => clientId.asStr = value) &&
    rule.target.all (targetMatches · request.action.target) &&
    rule.headers.entries.all fun e => request.claimedHeaders.get? e.1 = some (.text e.2)

/-- A policy that evaluates a validated configuration. -/
structure ConfigPolicy where
  config : Config
  valid : validateConfig config = .ok ()

def ConfigPolicy.new (config : Config) : Except ConfigError ConfigPolicy :=
  match h : validateConfig config with
  | .error error => .error error
  | .ok () => .ok ⟨config, h⟩

def ConfigPolicy.parse (input : String) : Except ConfigError ConfigPolicy := do
  ConfigPolicy.new (← Config.parse input)

instance : Policy ConfigPolicy where
  permits policy request :=
    ((policy.config.rules.find? (ruleMatches · request)).bind Rule.effect).getD policy.config.default = .allow

end Busd.Policy
