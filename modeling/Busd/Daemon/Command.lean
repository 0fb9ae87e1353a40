import Busd.Daemon.Provenance
import Busd.Policy.Config

/-!
# The command line, and what the daemon starts with

`parse_command` reads the arguments one option at a time, and the last value of an option counts. `run_daemon` takes its
policy and its limits from the result.

* `Setting` : one option with its value, `settled` : what a list of settings comes to;
* `command_line` : which command lines are accepted, and as what;
* `safe_by_default` : a daemon that was started without a policy option never delivers a broadcast.
-/

namespace Busd.Daemon

open Words Machine Busd.Protocol Busd.Policy Busd.Broker

/-! ## Commands -/

/-- An argument as the operating system passes it: bytes that need not be text. -/
abbrev OsString := List UInt8

/-- `OsStr::to_str`. -/
def toStr (argument : OsString) : Option String := ofUtf8? argument

def defaultSocket : OsString := utf8Bytes "/run/busd/busd.sock"

inductive PolicySource where
  | safeDefaults
  | file (path : OsString)
  | unsafeAllowAll
  deriving DecidableEq

structure DaemonCommand where
  socket : OsString
  policy : PolicySource
  limits : Limits
  maximumFrameSize : Nat
  deriving DecidableEq

inductive Command where
  | daemon (command : DaemonCommand)
  | health (socket : OsString)
  deriving DecidableEq

def usage : String :=
  "usage: busd daemon [--socket PATH] [--policy PATH | --unsafe-allow-all] [--maximum-frame-size BYTES] " ++
  "[--maximum-queued-bytes BYTES] [--maximum-queued-messages COUNT] [--maximum-in-flight-requests COUNT] " ++
  "[--maximum-subscriptions COUNT] [--maximum-namespace-claims COUNT] | busd health [--socket PATH]"

/-- A positive `usize` in decimal. -/
def parseLimit (value : OsString) : Except String Nat :=
  match toStr value with
  | none => .error usage
  | some text =>
    match Text.parseUnsigned (2 ^ 64) text.toList with
    | none => .error usage
    | some limit => if limit = 0 then .error usage else .ok limit

inductive LimitOption where
  | frameSize | queuedBytes | queuedMessages | inFlightRequests | subscriptions | namespaceClaims
  deriving DecidableEq

namespace LimitOption

def all : List LimitOption :=
  [.frameSize, .queuedBytes, .queuedMessages, .inFlightRequests, .subscriptions, .namespaceClaims]

def flag : LimitOption → String
  | frameSize => "--maximum-frame-size"
  | queuedBytes => "--maximum-queued-bytes"
  | queuedMessages => "--maximum-queued-messages"
  | inFlightRequests => "--maximum-in-flight-requests"
  | subscriptions => "--maximum-subscriptions"
  | namespaceClaims => "--maximum-namespace-claims"

def set (limit : Nat) (command : DaemonCommand) : LimitOption → DaemonCommand
  | frameSize => { command with maximumFrameSize := limit }
  | queuedBytes => { command with limits.maximumQueuedBytes := limit }
  | queuedMessages => { command with limits.maximumQueuedMessages := limit }
  | inFlightRequests => { command with limits.maximumInFlightRequests := limit }
  | subscriptions => { command with limits.maximumSubscriptions := limit }
  | namespaceClaims => { command with limits.maximumNamespaceClaims := limit }

def get (command : DaemonCommand) : LimitOption → Nat
  | frameSize => command.maximumFrameSize
  | queuedBytes => command.limits.maximumQueuedBytes
  | queuedMessages => command.limits.maximumQueuedMessages
  | inFlightRequests => command.limits.maximumInFlightRequests
  | subscriptions => command.limits.maximumSubscriptions
  | namespaceClaims => command.limits.maximumNamespaceClaims

end LimitOption

/-- The loop of `parse_daemon_command`. -/
def parseOptions (command : DaemonCommand) : List OsString → Except String DaemonCommand
  | [] => .ok command
  | argument :: arguments =>
    if toStr argument = some "--socket" then
      match arguments with
      | [] => .error usage
      | path :: arguments => parseOptions { command with socket := path } arguments
    else if toStr argument = some "--policy" then
      if command.policy = .unsafeAllowAll then .error usage
      else
        match arguments with
        | [] => .error usage
        | path :: arguments => parseOptions { command with policy := .file path } arguments
    else if toStr argument = some "--unsafe-allow-all" then
      match command.policy with
      | .file _ => .error usage
      | _ => parseOptions { command with policy := .unsafeAllowAll } arguments
    else
      match LimitOption.all.find? fun option => toStr argument = some option.flag with
      | none => .error usage
      | some option =>
        match arguments with
        | [] => .error usage
        | value :: arguments =>
          match parseLimit value with
          | .error error => .error error
          | .ok limit => parseOptions (option.set limit command) arguments

def DaemonCommand.default : DaemonCommand :=
  ⟨defaultSocket, .safeDefaults, .default, FrameLimits.default.maximumFrameSize⟩

def parseDaemonCommand (arguments : List OsString) : Except String Command :=
  (parseOptions .default arguments).map .daemon

/-- The loop of `parse_health_command`. -/
def parseHealthOptions (socket : OsString) : List OsString → Except String OsString
  | [] => .ok socket
  | argument :: arguments =>
    if argument = utf8Bytes "--socket" then
      match arguments with
      | [] => .error usage
      | path :: arguments => parseHealthOptions path arguments
    else .error usage

def parseHealthCommand (arguments : List OsString) : Except String Command :=
  (parseHealthOptions defaultSocket arguments).map .health

def parseCommand : List OsString → Except String Command
  | [] => .error usage
  | argument :: arguments =>
    if toStr argument = some "daemon" then parseDaemonCommand arguments
    else if toStr argument = some "health" then parseHealthCommand arguments
    else .error usage

/-! ## Settings -/

/-- An option of the daemon with its value. -/
inductive Setting where
  | socket (path : OsString)
  | policy (path : OsString)
  | unsafeAllowAll
  | limit (option : LimitOption) (value : OsString)

namespace Setting

def arguments : Setting → List OsString
  | socket path => [utf8Bytes "--socket", path]
  | policy path => [utf8Bytes "--policy", path]
  | unsafeAllowAll => [utf8Bytes "--unsafe-allow-all"]
  | limit option value => [utf8Bytes option.flag, value]

def Valid : Setting → Prop
  | limit _ value => ∃ number, parseLimit value = .ok number
  | _ => True

def path? : Setting → Option OsString
  | socket path => some path
  | _ => none

def source? : Setting → Option PolicySource
  | policy path => some (.file path)
  | unsafeAllowAll => some .unsafeAllowAll
  | _ => none

def limit? (option : LimitOption) : Setting → Option Nat
  | limit option' value => if option' = option then (parseLimit value).toOption else none
  | _ => none

end Setting

def lastLimit (settings : List Setting) (option : LimitOption) : Nat :=
  (settings.filterMap (Setting.limit? option)).getLast?.getD (option.get .default)

/-- What the settings come to. -/
def settled (settings : List Setting) : DaemonCommand where
  socket := (settings.filterMap Setting.path?).getLast?.getD defaultSocket
  policy := (settings.filterMap Setting.source?).getLast?.getD .safeDefaults
  limits := {
    maximumQueuedBytes := lastLimit settings .queuedBytes
    maximumQueuedMessages := lastLimit settings .queuedMessages
    maximumInFlightRequests := lastLimit settings .inFlightRequests
    maximumSubscriptions := lastLimit settings .subscriptions
    maximumNamespaceClaims := lastLimit settings .namespaceClaims }
  maximumFrameSize := lastLimit settings .frameSize

/-- No settings ask both for a policy file and for no policy. -/
def Exclusive (settings : List Setting) : Prop :=
  .unsafeAllowAll ∈ settings → ∀ path, .policy path ∉ settings

/-! ## One setting at a time -/

theorem toStr_eq_some {argument : OsString} {text : String} : toStr argument = some text ↔ argument = utf8Bytes text :=
  ofUtf8?_eq_some.trans eq_comm

/-- The command after one more setting. -/
def Setting.apply (command : DaemonCommand) : Setting → DaemonCommand
  | .socket path => { command with socket := path }
  | .policy path => { command with policy := .file path }
  | .unsafeAllowAll => { command with policy := .unsafeAllowAll }
  | .limit option value =>
    match parseLimit value with
    | .ok number => option.set number command
    | .error _ => command

/-- The setting is accepted after those that led to the command. -/
def Setting.Allowed (command : DaemonCommand) : Setting → Prop
  | .socket _ => True
  | .policy _ => command.policy ≠ .unsafeAllowAll
  | .unsafeAllowAll => ∀ path, command.policy ≠ .file path
  | .limit _ value => ∃ number, parseLimit value = .ok number

theorem find?_flag (option : LimitOption) :
    (LimitOption.all.find? fun option' => toStr (utf8Bytes option.flag) = some option'.flag) = some option := by
  simp only [toStr_eq_some.mpr rfl, Option.some.injEq]
  cases option <;> decide

theorem flag_ne (option : LimitOption) :
    option.flag ≠ "--socket" ∧ option.flag ≠ "--policy" ∧ option.flag ≠ "--unsafe-allow-all" := by
  cases option <;> decide

theorem parseOptions_setting {command : DaemonCommand} {setting : Setting} (h : setting.Allowed command)
    (rest : List OsString) :
    parseOptions command (setting.arguments ++ rest) = parseOptions (setting.apply command) rest := by
  have htext : ∀ text, toStr (utf8Bytes text) = some text := fun text => toStr_eq_some.mpr rfl
  cases setting with
  | socket path =>
    show parseOptions command (utf8Bytes "--socket" :: path :: rest) = _
    rw [parseOptions, if_pos (htext _)]
    rfl
  | policy path =>
    show parseOptions command (utf8Bytes "--policy" :: path :: rest) = _
    rw [parseOptions, if_neg (by rw [htext]; decide), if_pos (htext _), if_neg h]
    rfl
  | unsafeAllowAll =>
    show parseOptions command (utf8Bytes "--unsafe-allow-all" :: rest) = _
    rw [parseOptions.eq_def]
    dsimp only
    rw [if_neg (by rw [htext]; decide), if_neg (by rw [htext]; decide), if_pos (htext _)]
    split
    · next path hpath => exact absurd hpath (h path)
    · rfl
  | limit option value =>
    obtain ⟨hsocket, hpolicy, hallow⟩ := flag_ne option
    obtain ⟨number, hnumber⟩ := h
    show parseOptions command (utf8Bytes option.flag :: value :: rest) = _
    rw [parseOptions, if_neg (by rwa [htext, Option.some.injEq]), if_neg (by rwa [htext, Option.some.injEq]),
      if_neg (by rwa [htext, Option.some.injEq]), find?_flag]
    simp only [hnumber, Setting.apply]

theorem setting_of_parseOptions {command result : DaemonCommand} {arguments : List OsString}
    (h : parseOptions command arguments = .ok result) (hne : arguments ≠ []) :
    ∃ (setting : Setting) (rest : List OsString), arguments = setting.arguments ++ rest ∧
      setting.Allowed command := by
  obtain ⟨argument, arguments, rfl⟩ := List.exists_cons_of_ne_nil hne
  rw [parseOptions.eq_def] at h
  dsimp only at h
  split_ifs at h with hsocket hpolicy hallow hflag
  · split at h
    · cases h
    · next path rest => exact ⟨.socket path, rest, by rw [toStr_eq_some.mp hsocket]; rfl, trivial⟩
  · split at h
    · cases h
    · next path rest => exact ⟨.policy path, rest, by rw [toStr_eq_some.mp hpolicy]; rfl, hallow⟩
  · split at h
    · cases h
    · next hfile => exact ⟨.unsafeAllowAll, arguments, by rw [toStr_eq_some.mp hflag]; rfl, hfile⟩
  · split at h
    · cases h
    · next option hfind =>
      have hflag : toStr argument = some option.flag := by simpa using List.find?_some hfind
      split at h
      · cases h
      · split at h
        · cases h
        · next value rest _ number hnumber =>
          exact ⟨.limit option value, rest, by rw [toStr_eq_some.mp hflag]; rfl, number, hnumber⟩

def AllAllowed : DaemonCommand → List Setting → Prop
  | _, [] => True
  | command, setting :: settings => setting.Allowed command ∧ AllAllowed (setting.apply command) settings

theorem parseOptions_iff {command result : DaemonCommand} {arguments : List OsString} :
    parseOptions command arguments = .ok result ↔ ∃ settings : List Setting,
      arguments = settings.flatMap Setting.arguments ∧ AllAllowed command settings ∧
        result = settings.foldl Setting.apply command := by
  constructor
  · intro h
    -- every setting takes an argument away
    induction hlength : arguments.length using Nat.strong_induction_on generalizing command arguments with
    | _ n ih =>
      by_cases hnil : arguments = []
      · subst hnil
        exact ⟨[], rfl, trivial, (Except.ok.inj h).symm⟩
      obtain ⟨setting, rest, rfl, hallowed⟩ := setting_of_parseOptions h hnil
      rw [parseOptions_setting hallowed] at h
      have hshorter : rest.length < n := by
        rw [← hlength, List.length_append]
        have hpos : 0 < setting.arguments.length := by cases setting <;> exact Nat.succ_pos _
        omega
      obtain ⟨settings, rfl, hall, rfl⟩ := ih rest.length hshorter h rfl
      exact ⟨setting :: settings, rfl, ⟨hallowed, hall⟩, rfl⟩
  · rintro ⟨settings, rfl, hall, rfl⟩
    induction settings generalizing command with
    | nil => rfl
    | cons setting settings ih =>
      rw [List.flatMap_cons, parseOptions_setting hall.1, List.foldl_cons]
      exact ih hall.2

/-! ## All settings together -/

theorem apply_socket (command : DaemonCommand) (setting : Setting) :
    (setting.apply command).socket = setting.path?.getD command.socket := by
  cases setting with
  | limit option value =>
    simp only [Setting.apply]
    split
    · cases option <;> rfl
    · rfl
  | _ => rfl

theorem apply_policy (command : DaemonCommand) (setting : Setting) :
    (setting.apply command).policy = setting.source?.getD command.policy := by
  cases setting with
  | limit option value =>
    simp only [Setting.apply]
    split
    · cases option <;> rfl
    · rfl
  | _ => rfl

theorem get_set (option option' : LimitOption) (number : Nat) (command : DaemonCommand) :
    option.get (option'.set number command) = if option' = option then number else option.get command := by
  cases option <;> cases option' <;> rfl

theorem apply_limit (option : LimitOption) (command : DaemonCommand) (setting : Setting) :
    option.get (setting.apply command) = (setting.limit? option).getD (option.get command) := by
  cases setting with
  | limit option' value =>
    simp only [Setting.apply, Setting.limit?]
    cases parseLimit value with
    | ok number =>
      dsimp only
      rw [get_set]
      split_ifs with heq
      · rfl
      · rfl
    | error _ =>
      dsimp only
      split_ifs with heq
      · rfl
      · rfl
  | socket path => cases option <;> rfl
  | policy path => cases option <;> rfl
  | unsafeAllowAll => cases option <;> rfl

/-- The last value of each option counts. -/
theorem foldl_apply (settings : List Setting) : settings.foldl Setting.apply .default = settled settings := by
  have hlimit : ∀ option, LimitOption.get (settings.foldl Setting.apply .default) option =
      lastLimit settings option := fun option =>
    @foldl_lastWrite _ _ _ Setting.apply (LimitOption.get · option) (Setting.limit? option) (apply_limit option)
      settings DaemonCommand.default
  have hsocket := foldl_lastWrite apply_socket settings .default
  have hpolicy := foldl_lastWrite apply_policy settings .default
  have hbytes := hlimit .queuedBytes
  have hmessages := hlimit .queuedMessages
  have hrequests := hlimit .inFlightRequests
  have hsubscriptions := hlimit .subscriptions
  have hclaims := hlimit .namespaceClaims
  have hframe := hlimit .frameSize
  generalize settings.foldl Setting.apply .default = command at *
  obtain ⟨socket, policy, ⟨bytes, messages, requests, subscriptions, claims⟩, frame⟩ := command
  simp only [LimitOption.get] at *
  subst hsocket hpolicy hbytes hmessages hrequests hsubscriptions hclaims hframe
  rfl

theorem allAllowed_iff (settings : List Setting) (command : DaemonCommand) :
    AllAllowed command settings ↔ (∀ setting ∈ settings, setting.Valid) ∧ Exclusive settings ∧
      (command.policy = .unsafeAllowAll → ∀ path, .policy path ∉ settings) ∧
      ((∃ path, command.policy = .file path) → .unsafeAllowAll ∉ settings) := by
  induction settings generalizing command with
  | nil => simp [AllAllowed, Exclusive]
  | cons setting settings ih =>
    rw [AllAllowed, ih, apply_policy]
    cases setting with
    | socket path => simp [Setting.Allowed, Setting.Valid, Setting.source?, Exclusive]
    | policy path => grind [Setting.Allowed, Setting.Valid, Setting.source?, Exclusive]
    | unsafeAllowAll => grind [Setting.Allowed, Setting.Valid, Setting.source?, Exclusive]
    | limit option value => simp [Setting.Allowed, Setting.Valid, Setting.source?, Exclusive, and_assoc]

theorem parseDaemonCommand_iff {arguments : List OsString} {command : Command} :
    parseDaemonCommand arguments = .ok command ↔ ∃ settings : List Setting,
      arguments = settings.flatMap Setting.arguments ∧ (∀ setting ∈ settings, setting.Valid) ∧ Exclusive settings ∧
        command = .daemon (settled settings) := by
  unfold parseDaemonCommand
  rw [Codec.map_eq_ok]
  constructor
  · rintro ⟨result, hparse, rfl⟩
    obtain ⟨settings, rfl, hall, rfl⟩ := parseOptions_iff.mp hparse
    obtain ⟨hvalid, hexclusive, -⟩ := (allAllowed_iff _ _).mp hall
    exact ⟨settings, rfl, hvalid, hexclusive, by rw [foldl_apply]⟩
  · rintro ⟨settings, rfl, hvalid, hexclusive, rfl⟩
    refine ⟨_, parseOptions_iff.mpr ⟨settings, rfl, ?_, rfl⟩, by rw [foldl_apply]⟩
    exact (allAllowed_iff _ _).mpr ⟨hvalid, hexclusive, fun h => (by cases h), fun ⟨_, h⟩ => (by cases h)⟩

theorem parseHealthOptions_iff {arguments : List OsString} {socket result : OsString} :
    parseHealthOptions socket arguments = .ok result ↔ ∃ paths : List OsString,
      arguments = paths.flatMap (fun path => [utf8Bytes "--socket", path]) ∧ result = paths.getLast?.getD socket := by
  constructor
  · intro h
    induction hlength : arguments.length using Nat.strong_induction_on generalizing socket arguments with
    | _ n ih =>
      rw [parseHealthOptions.eq_def] at h
      split at h
      · exact ⟨[], rfl, (Except.ok.inj h).symm⟩
      · next argument rest =>
        split_ifs at h with hflag
        split at h
        · cases h
        · next path rest =>
          have hshorter : rest.length < n := by
            rw [← hlength, List.length_cons, List.length_cons]
            omega
          obtain ⟨paths, rfl, rfl⟩ := ih rest.length hshorter h rfl
          refine ⟨path :: paths, by rw [hflag]; rfl, ?_⟩
          rw [List.getLast?_cons, Option.getD_some]
  · rintro ⟨paths, rfl, rfl⟩
    induction paths generalizing socket with
    | nil => rfl
    | cons path paths ih =>
      show parseHealthOptions socket (utf8Bytes "--socket" :: path :: List.flatMap _ paths) = _
      rw [parseHealthOptions, if_pos rfl, ih, List.getLast?_cons, Option.getD_some]

theorem parseHealthCommand_iff {arguments : List OsString} {command : Command} :
    parseHealthCommand arguments = .ok command ↔ ∃ paths : List OsString,
      arguments = paths.flatMap (fun path => [utf8Bytes "--socket", path]) ∧
        command = .health (paths.getLast?.getD defaultSocket) := by
  unfold parseHealthCommand
  rw [Codec.map_eq_ok]
  constructor
  · rintro ⟨result, hparse, rfl⟩
    obtain ⟨paths, rfl, rfl⟩ := parseHealthOptions_iff.mp hparse
    exact ⟨paths, rfl, rfl⟩
  · rintro ⟨paths, rfl, rfl⟩
    exact ⟨_, parseHealthOptions_iff.mpr ⟨paths, rfl, rfl⟩, rfl⟩

theorem parseLimit_error {value : OsString} {error : String} (h : parseLimit value = .error error) : error = usage := by
  unfold parseLimit at h
  split at h
  · exact (Except.error.inj h).symm
  · split at h
    · exact (Except.error.inj h).symm
    · split_ifs at h
      exact (Except.error.inj h).symm

theorem parseOptions_error {command : DaemonCommand} {arguments : List OsString} {error : String}
    (h : parseOptions command arguments = .error error) : error = usage := by
  fun_induction parseOptions command arguments with
  | case1 => cases h
  | case2 | case4 | case5 | case7 | case9 | case10 => exact (Except.error.inj h).symm
  | case11 =>
    obtain rfl := Except.error.inj h
    exact parseLimit_error (by assumption)
  | case3 | case6 | case8 | case12 =>
    rename_i ih
    exact ih h

theorem parseHealthOptions_error {socket : OsString} {arguments : List OsString} {error : String}
    (h : parseHealthOptions socket arguments = .error error) : error = usage := by
  fun_induction parseHealthOptions socket arguments with
  | case1 => cases h
  | case2 => exact (Except.error.inj h).symm
  | case3 _ _ _ ih => exact ih h
  | case4 => exact (Except.error.inj h).symm

theorem error_of_map {α β : Type} {x : Except String α} {f : α → β} {error : String} (h : x.map f = .error error) :
    x = .error error := by
  cases x with
  | ok a => cases h
  | error _ =>
    cases h
    rfl

/-- A command line is accepted exactly if it is `daemon` with settings that are valid and do not exclude each other, or
`health` with sockets; the last value of each option counts. Every other one gets the usage. -/
theorem command_line (arguments : List OsString) :
    (∀ command, parseCommand arguments = .ok command ↔
      (∃ settings : List Setting, arguments = utf8Bytes "daemon" :: settings.flatMap Setting.arguments ∧
        (∀ setting ∈ settings, setting.Valid) ∧ Exclusive settings ∧ command = .daemon (settled settings)) ∨
      ∃ paths : List OsString,
        arguments = utf8Bytes "health" :: paths.flatMap (fun path => [utf8Bytes "--socket", path]) ∧
        command = .health (paths.getLast?.getD defaultSocket)) ∧
    ∀ error, parseCommand arguments = .error error → error = usage := by
  have hhealth : utf8Bytes "health" ≠ utf8Bytes "daemon" := by decide
  unfold parseCommand
  split
  · refine ⟨fun command => iff_of_false (fun h => by cases h) ?_, fun error h => (Except.error.inj h).symm⟩
    rintro (⟨_, h, -⟩ | ⟨_, h, -⟩)
    · cases h
    · cases h
  · next argument arguments =>
    simp only [toStr_eq_some, List.cons.injEq]
    split_ifs with hdaemon hother
    · subst hdaemon
      refine ⟨fun command => parseDaemonCommand_iff.trans ?_, fun error h => parseOptions_error (error_of_map h)⟩
      simp only [true_and, hhealth.symm, false_and, exists_false, or_false]
    · subst hother
      refine ⟨fun command => parseHealthCommand_iff.trans ?_, fun error h => parseHealthOptions_error (error_of_map h)⟩
      simp only [true_and, hhealth, false_and, exists_false, false_or]
    · refine ⟨fun command => iff_of_false (fun h => by cases h) ?_, fun error h => (Except.error.inj h).symm⟩
      rintro (⟨_, ⟨h, -⟩, -⟩ | ⟨_, ⟨h, -⟩, -⟩)
      · exact hdaemon h
      · exact hother h

/-! ## The daemon that a command starts -/

inductive DaemonPolicy where
  | safeDefaults (policy : SafeDefaults)
  | file (policy : ConfigPolicy)
  | unsafeAllowAll (policy : AllowAll)

instance : Policy DaemonPolicy where
  permits
    | .safeDefaults policy, request => Policy.permits policy request
    | .file policy, request => Policy.permits policy request
    | .unsafeAllowAll policy, request => Policy.permits policy request

/-- Why the daemon does not start: the policy file cannot be read, or is not accepted. -/
inductive StartError where
  | unreadable
  | config (error : ConfigError)

/-- The policy of `run_daemon`; `contents` are the texts of the files that can be read. -/
def PolicySource.load (contents : OsString → Option String) : PolicySource → Except StartError DaemonPolicy
  | .safeDefaults => .ok (.safeDefaults .mk)
  | .file path =>
    match contents path with
    | none => .error .unreadable
    | some text => ((ConfigPolicy.parse text).mapError .config).map .file
  | .unsafeAllowAll => .ok (.unsafeAllowAll .mk)

def DaemonCommand.frameLimits (command : DaemonCommand) : FrameLimits :=
  { FrameLimits.default with maximumFrameSize := command.maximumFrameSize }

/-- The state in which `run_daemon` starts to listen. -/
def runDaemon (contents : OsString → Option String) (command : DaemonCommand) :
    Except StartError (State DaemonPolicy) :=
  (command.policy.load contents).map fun policy =>
    State.initial (.withLimits policy command.limits) command.frameLimits

/-- Without the two options that choose a policy the safe one is taken, whatever the other arguments are. -/
theorem policy_of_not_mem {settings : List Setting}
    (hpolicy : utf8Bytes "--policy" ∉ settings.flatMap Setting.arguments)
    (hallow : utf8Bytes "--unsafe-allow-all" ∉ settings.flatMap Setting.arguments) :
    (settled settings).policy = .safeDefaults := by
  have hnone : settings.filterMap Setting.source? = [] := by
    refine List.filterMap_eq_nil_iff.mpr fun setting hmem => ?_
    cases setting with
    | policy path => exact absurd (List.mem_flatMap.mpr ⟨_, hmem, List.mem_cons_self⟩) hpolicy
    | unsafeAllowAll => exact absurd (List.mem_flatMap.mpr ⟨_, hmem, List.mem_cons_self⟩) hallow
    | _ => rfl
  simp only [settled, hnone, List.getLast?_nil, Option.getD_none]

theorem policy_of_parse {arguments : List OsString} {command : DaemonCommand}
    (hparse : parseCommand arguments = .ok (.daemon command)) (hpolicy : utf8Bytes "--policy" ∉ arguments)
    (hallow : utf8Bytes "--unsafe-allow-all" ∉ arguments) : command.policy = .safeDefaults := by
  unfold parseCommand at hparse
  split at hparse
  · cases hparse
  · split_ifs at hparse with hdaemon hhealth
    · obtain ⟨settings, rfl, -, -, hcommand⟩ := parseDaemonCommand_iff.mp hparse
      obtain rfl := Command.daemon.inj hcommand
      exact policy_of_not_mem (fun h => hpolicy (List.mem_cons_of_mem _ h)) fun h => hallow (List.mem_cons_of_mem _ h)
    · obtain ⟨_, -, hcommand⟩ := parseHealthCommand_iff.mp hparse
      cases hcommand

theorem start_of_safe {contents : OsString → Option String} {command : DaemonCommand} {start : State DaemonPolicy}
    (hsafe : command.policy = .safeDefaults) (hstart : runDaemon contents command = .ok start) :
    start = State.initial (.withLimits (.safeDefaults .mk) command.limits) command.frameLimits := by
  unfold runDaemon at hstart
  rw [hsafe] at hstart
  exact (Except.ok.inj hstart).symm

/-- A daemon that was started by a command line without the options `--policy` and `--unsafe-allow-all`, in every run
and under any interleaving of its threads: no packet that leaves carries a broadcast, except for a response, which goes
to the connection of the peer that asked for it. -/
theorem safe_by_default {arguments : List OsString} {command : DaemonCommand}
    (hparse : parseCommand arguments = .ok (.daemon command)) (hpolicy : utf8Bytes "--policy" ∉ arguments)
    (hallow : utf8Bytes "--unsafe-allow-all" ∉ arguments) {contents : OsString → Option String}
    {start state : State DaemonPolicy} (hstart : runDaemon contents command = .ok start)
    {history : List (Turn × Output)} (hrun : Run step start history state) :
    ∀ turn output, (turn, output) ∈ history → ∀ c packet, (c, packet) ∈ output.packets →
      ∀ m, Frame.decodeWithLimits packet command.frameLimits = .ok (.message m) → m.destination = .broadcast →
        m.kind = .response ∧ ∃ before after, history = before ++ (turn, output) :: after ∧
          Requested start before c m.correlationId := by
  intro turn output hmem c packet hpacket m hdecode hbroadcast
  obtain rfl := start_of_safe (policy_of_parse hparse hpolicy hallow) hstart
  obtain ⟨before, after, rfl⟩ := List.append_of_mem hmem
  by_cases hkind : m.kind = .response
  · exact ⟨hkind, before, after, rfl, run_requested hrun hpacket hdecode hkind⟩
  cases run_provenance hrun hpacket hdecode hkind with
  | submitted _ _ _ _ _ _ peer action _ _ _ _ _ _ _ haction hpermits _ =>
    rw [hbroadcast] at haction
    cases haction
    cases hpermits

def socketArguments : List OsString :=
  [utf8Bytes "daemon", utf8Bytes "--socket", utf8Bytes "/tmp/busd.sock"]

def socketCommand : DaemonCommand := { DaemonCommand.default with socket := utf8Bytes "/tmp/busd.sock" }

def socketDaemon : State DaemonPolicy :=
  State.initial (.withLimits (.safeDefaults .mk) socketCommand.limits) socketCommand.frameLimits

/-- Two clients join, and the first one tries to broadcast. -/
def deniedBroadcast : List (Turn × Output) × State DaemonPolicy :=
  run step socketDaemon
    ([.accept, .accept] ++ joins 0 ++ joins 1 ++ submits 0 (.message smallRequest) ++ [.serve 0 calmIo])

theorem safe_by_default_deniedBroadcast :
    parseCommand socketArguments = .ok (.daemon socketCommand) ∧
      deniedBroadcast.1.getLast?.map (fun e => e.2.packets) =
        some [(0, packetOf (.protocolError .invalidState "operation denied by policy"))] ∧
      ∀ turn output, (turn, output) ∈ deniedBroadcast.1 → ∀ c packet, (c, packet) ∈ output.packets →
        ∀ m, Frame.decodeWithLimits packet socketCommand.frameLimits = .ok (.message m) →
          m.destination = .broadcast → m.kind = .response ∧ ∃ before after,
            deniedBroadcast.1 = before ++ (turn, output) :: after ∧
              Requested socketDaemon before c m.correlationId := by
  have hparse : parseCommand socketArguments = .ok (.daemon socketCommand) := by decide +kernel
  have hrun : Run step socketDaemon deniedBroadcast.1 deniedBroadcast.2 := run_spec _ _
  have hstart : runDaemon (fun _ => none) socketCommand = .ok socketDaemon := rfl
  exact ⟨hparse, by decide +kernel, safe_by_default hparse (by decide) (by decide) hstart hrun⟩

end Busd.Daemon
