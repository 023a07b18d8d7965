import Mathlib.Data.List.AList
import BridgeMcp.Connections.HostConfig
import BridgeMcp.Lib.Checks
import BridgeMcp.Lib.OsPath
import BridgeMcp.Lib.TextScan

/-!
Loading the configuration: the hosts of the file, those found in an ssh config (`config/ssh_config.rs`)
and the checks on all of them (`config/loader.rs`).
-/
namespace BridgeMcp.Connections
open TextLib CheckLib

/-- The bytes of the permissions, and the text when it is readable. -/
structure FileEntry where
  mode : ℕ
  text : Option Text

structure Environment where
  rules : OsPath.Rules
  home : Option Text
  var : Text → Option Text
  files : Text → Option FileEntry

inductive LoadError where
  | configNotFound (path : Text)
  | configInvalid (field reason : Text)
  | sshKeyNotFound (path : Text)
  | io
  | yaml (reason : Text)
  deriving DecidableEq

abbrev Hosts := AList fun _ : Text => HostConfig

/-- `thresholds` and `patterns` are what the checks before and after those on the hosts say; they
read other sections of the file. -/
structure Config where
  hosts : Hosts
  sshConfigEnabled : Bool
  sshConfigPath : Text
  sshConfigExclude : List Text
  thresholds : Except LoadError Unit
  patterns : Except LoadError Unit

section
variable (env : Environment)

def homeExpandOrInput (input : Text) : Text :=
  if input = ['~'] then env.home.getD input
  else
    match stripPrefix ['~', '/'] input with
    | some rest => (env.home.map fun home => OsPath.push env.rules home rest).getD input
    | none => input

structure PartialHost where
  hostname : Option Text
  port : Option ℕ
  user : Option Text
  identityFile : Option Text
  proxyJump : Option Text
  deriving DecidableEq

def PartialHost.default : PartialHost := ⟨none, none, none, none, none⟩

def systemUser : Text :=
  ((env.var "USER").or (env.var "USERNAME")).getD "root"

def PartialHost.auth (host defaults : PartialHost) : AuthConfig :=
  match host.identityFile.or defaults.identityFile with
  | some keyPath =>
    if (env.files (homeExpandOrInput env keyPath)).isSome then .key keyPath none else .agent
  | none => .agent

def PartialHost.toHostConfig (host defaults : PartialHost) : Option HostConfig :=
  (host.hostname.or defaults.hostname).map fun hostname =>
    { hostname
      port := (host.port.or defaults.port).getD 22
      user := (host.user.or defaults.user).getD (systemUser env)
      auth := host.auth env defaults
      proxyJump := host.proxyJump.or defaults.proxyJump
      socksProxy := none
      protocol := .ssh
      description := some "Discovered from ~/.ssh/config"
      osType := .linux
      shell := none
      winrmUseTls := none
      winrmAcceptInvalidCerts := none
      winrmOperationTimeoutSecs := none
      winrmMaxEnvelopeSize := none }

/-- `Key Value`, split at the first blank. -/
def splitDirective (line : Text) : Option (Text × Text) :=
  let key := line.takeWhile (!isWhitespace ·)
  match line.dropWhile (!isWhitespace ·) with
  | [] => none
  | _ :: rest =>
    if trim key = [] ∨ trim rest = [] then none else some (trim key, trim rest)

/-- `Key=Value` where both sides are there, else `Key Value`. -/
def parseDirective (line : Text) : Option (Text × Text) :=
  match splitFirst ['='] line with
  | some (key, value) =>
    if trim key ≠ [] ∧ trim value ≠ [] then some (trim key, trim value) else splitDirective line
  | none => splitDirective line

def parsePort (value : Text) : Option ℕ :=
  (parseU32 value).filter fun port => port < 2 ^ 16 ∧ port ≠ 0

def PartialHost.applyDirective (host : PartialHost) (key value : Text) : PartialHost :=
  let key := lower key
  if key = "hostname" then { host with hostname := some value }
  else if key = "port" then { host with port := (parsePort value).or host.port }
  else if key = "user" then { host with user := some value }
  else if key = "identityfile" then { host with identityFile := some value }
  else if key = "proxyjump" then { host with proxyJump := some value }
  else host

structure Discovery where
  hosts : Hosts
  currentAlias : Option Text
  currentHost : PartialHost
  globalDefaults : PartialHost

def Discovery.start : Discovery := ⟨∅, none, .default, .default⟩

def Discovery.finalize (state : Discovery) : Hosts :=
  match state.currentAlias with
  | some name =>
    if name = ['*'] then state.hosts
    else
      match state.currentHost.toHostConfig env state.globalDefaults with
      | some host => state.hosts.insert name host
      | none => state.hosts
  | none => state.hosts

def Discovery.openHost (exclude : List Text) (state : Discovery) (name : Text) : Discovery :=
  let state := { state with hosts := state.finalize env, currentAlias := none }
  if '*' ∈ name ∨ '?' ∈ name then
    if name = ['*'] then { state with currentAlias := some name, currentHost := .default } else state
  else if name ∈ exclude then { state with currentHost := .default }
  else { state with currentAlias := some name, currentHost := .default }

def Discovery.line (exclude : List Text) (state : Discovery) (line : Text) : Discovery :=
  let line := trim line
  if line = [] ∨ line.head? = some '#' then state
  else
    match parseDirective line with
    | none => state
    | some (key, value) =>
      if lower key = "host" then state.openHost env exclude value
      else if state.currentAlias = some ['*'] then
        { state with globalDefaults := state.globalDefaults.applyDirective key value }
      else if state.currentAlias.isSome then
        { state with currentHost := state.currentHost.applyDirective key value }
      else state

def parseSshConfigContent (content : Text) (exclude : List Text) : Hosts :=
  ((lines content).foldl (Discovery.line env exclude) .start).finalize env

/-- The file's hosts take precedence. -/
def mergeSshConfigHosts (config : Config) : Config :=
  match (env.files (homeExpandOrInput env config.sshConfigPath)).bind FileEntry.text with
  | none => config
  | some content =>
    let discovered := parseSshConfigContent env content config.sshConfigExclude
    { config with
      hosts := discovered.entries.foldl
        (fun hosts entry => if entry.1 ∈ hosts then hosts else hosts.insert entry.1 entry.2)
        config.hosts }

def refuseIf (bad : Bool) (field reason : Text) : Except LoadError Unit :=
  if bad then .error (.configInvalid field reason) else .ok ()

def octal (mode : ℕ) : Text :=
  let digits := Nat.toDigits 8 mode
  List.replicate (4 - digits.length) '0' ++ digits

def validateProtocolAuthCompat (name : Text) (host : HostConfig) : Except LoadError Unit :=
  if !host.protocolRunsPowershell then .ok ()
  else
    let field := "hosts." ++ name ++ ".auth"
    match host.auth with
    | .key _ _ =>
      .error (.configInvalid field
        ("SSH key authentication is not supported for WinRM/PSRP protocols; " ++
          "use password, ntlm, certificate, or kerberos auth instead").toList)
    | .agent =>
      .error (.configInvalid field
        ("SSH agent authentication is not supported for WinRM/PSRP protocols; " ++
          "use password, ntlm, certificate, or kerberos auth instead").toList)
    | _ => .ok ()

def validateKey (name : Text) (host : HostConfig) : Except LoadError Unit :=
  match host.auth with
  | .key path _ =>
    match env.files (homeExpandOrInput env path) with
    | none => .error (.sshKeyNotFound path)
    | some file =>
      let mode := file.mode &&& 0o777
      refuseIf (mode &&& 0o077 != 0) ("hosts." ++ name ++ ".auth.path")
        ("SSH key file '" ++ path ++ "' has permissions " ++ octal mode ++
          "; expected 0600. Fix with: chmod 600 " ++ path)
  | _ => .ok ()

def validateHost (name : Text) (host : HostConfig) : Except LoadError Unit := do
  let field := "hosts." ++ name
  refuseIf host.hostname.isEmpty (field ++ ".hostname") "Hostname cannot be empty"
  refuseIf host.user.isEmpty (field ++ ".user") "User cannot be empty"
  refuseIf (host.proxyJump.isSome && host.socksProxy.isSome) field
    "proxy_jump and socks_proxy are mutually exclusive"
  validateProtocolAuthCompat name host
  refuseIf (host.proxyJump.isSome && host.protocolRunsPowershell) (field ++ ".proxy_jump")
    ("proxy_jump (SSH jump hosts) is not supported for WinRM/PSRP " ++
      "protocols; use a network-level proxy instead").toList
  validateKey env name host

def validateHosts : List (Sigma fun _ : Text => HostConfig) → Except LoadError Unit
  | [] => .ok ()
  | entry :: entries => do
      validateHost env entry.1 entry.2
      validateHosts entries

def validateConfig (config : Config) : Except LoadError Unit := do
  refuseIf config.hosts.entries.isEmpty "hosts" "At least one host must be defined"
  config.thresholds
  validateHosts env config.hosts.entries
  config.patterns

def validateMode (path : Text) (mode : ℕ) : Except LoadError Unit :=
  let mode := mode &&& 0o777
  refuseIf (mode &&& 0o037 != 0) "file_permissions"
    ("Config file '" ++ path ++ "' has permissions " ++ octal mode ++
      "; expected no group-write/other access (max 0640). Fix with: chmod 640 " ++ path)

/-- `parse` reads the YAML. -/
def loadConfig (parse : Text → Except LoadError Config) (path : Text) : Except LoadError Config :=
  match env.files path with
  | none => .error (.configNotFound path)
  | some file => do
      validateMode path file.mode
      match file.text with
      | none => .error .io
      | some content => do
          let config ← parse content
          let config := if config.sshConfigEnabled then mergeSshConfigHosts env config else config
          validateConfig env config
          .ok config

variable {env}

theorem validateHost_of_mem {entries : List (Sigma fun _ : Text => HostConfig)}
    (h : validateHosts env entries = .ok ()) :
    ∀ entry ∈ entries, validateHost env entry.1 entry.2 = .ok () := by
  induction entries with
  | nil => exact List.forall_mem_nil _
  | cons entry entries ih =>
    obtain ⟨hentry, hrest⟩ := ok_of_bind h
    exact List.forall_mem_cons.mpr ⟨hentry, ih hrest⟩

variable {parse : Text → Except LoadError Config}

theorem loadConfig_validates {path : Text} {config : Config}
    (h : loadConfig env parse path = .ok config) : validateConfig env config = .ok () := by
  unfold loadConfig at h
  split at h
  · cases h
  · have hread := (ok_of_bind h).2
    split at hread
    · cases hread
    · obtain ⟨parsed, -, hchecked⟩ := exists_of_bind hread
      obtain ⟨hvalid, hconfig⟩ := ok_of_bind hchecked
      rw [← Except.ok.inj hconfig]
      exact hvalid

theorem eq_false_of_refuseIf {bad : Bool} {field reason : Text}
    (h : refuseIf bad field reason = .ok ()) : bad = false := by
  unfold refuseIf at h
  split_ifs at h with hbad
  exact Bool.eq_false_iff.mpr hbad

theorem socksProxy_eq_none_of_load {path : Text}
    {config : Config} (h : loadConfig env parse path = .ok config) {name : Text} {host : HostConfig}
    (hhost : config.hosts.lookup name = some host) (hjump : host.proxyJump.isSome) :
    host.socksProxy = none := by
  have hvalid := loadConfig_validates h
  have hhosts := (ok_of_bind (ok_of_bind (ok_of_bind hvalid).2).2).1
  have hmem : ⟨name, host⟩ ∈ config.hosts.entries := AList.mem_lookup_iff.mp hhost
  have hchecked := validateHost_of_mem hhosts ⟨name, host⟩ hmem
  have hexclusive := eq_false_of_refuseIf (ok_of_bind (ok_of_bind (ok_of_bind hchecked).2).2).1
  rw [hjump, Bool.true_and] at hexclusive
  exact Option.isNone_iff_eq_none.mp (Option.isSome_eq_false_iff.mp hexclusive)

end

end BridgeMcp.Connections
