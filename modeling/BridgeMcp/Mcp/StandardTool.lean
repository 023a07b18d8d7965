import BridgeMcp.Connections.Bastion
import BridgeMcp.Lib.Json
import BridgeMcp.Lib.Utf8
import BridgeMcp.Mcp.Attempts
import BridgeMcp.Privilege
import BridgeMcp.RootScope
import BridgeMcp.Security.Validator

/-!
The pipeline of a standard tool (`mcp/standard_tool.rs`) up to the commands it executes: what a call
has passed when it comes to step 11, and what step 11 then sends.
-/
namespace BridgeMcp.Mcp.Tools
open TextLib JsonLib CheckLib TransitionLib
open BridgeMcp.Shell BridgeMcp.Connections BridgeMcp.Privilege
open BridgeMcp.Security (CommandValidator RegexCrate)

inductive ToolError where
  | missingParam (param : Text)
  | invalidRequest (reason : Text)
  | unknownHost (host : Text)
  | commandDenied (reason : Text)
  | other (message : Text)
  deriving DecidableEq

def ToolError.display : ToolError → Text
  | .missingParam param => "MCP missing parameter: " ++ param
  | .invalidRequest reason => "MCP invalid request: " ++ reason
  | .unknownHost host => "Unknown host: " ++ host
  | .commandDenied reason => "Command denied: " ++ reason
  | .other message => message

def ToolError.reason : ToolError → Text
  | .commandDenied reason => reason
  | e => e.display

structure ToolCallResult where
  text : Text
  isError : Bool
  deriving DecidableEq

structure Denial where
  tool : Text
  host : Text
  command : Text
  reason : Text
  deriving DecidableEq

inductive Ending where
  | failed (e : ToolError)
  | answered (result : ToolCallResult)
  deriving DecidableEq

structure Refusal where
  denial : Option Denial
  ending : Ending
  deriving DecidableEq

def Refusal.failed (e : ToolError) : Refusal := ⟨none, .failed e⟩

def Refusal.answered (text : Text) : Refusal := ⟨none, .answered ⟨text, true⟩⟩

structure Host extends HostConfig where
  sudoPassword : Option Text

/-- An empty password counts as absent, and only SSH can deliver one. -/
def Host.sudoPasswordForExec (host : Host) : Option Text :=
  (host.sudoPassword.filter (· ≠ [])).filter fun _ => host.protocol = .ssh

def validateSudoUser (user : Text) : Except ToolError Unit :=
  if user = [] then .error (.invalidRequest "'sudo_user' must not be empty")
  else if 32 < utf8Len user then
    .error (.invalidRequest "'sudo_user' is too long (max 32 characters)")
  else if user.head? = some '-' then
    .error (.invalidRequest
      "'sudo_user' must not start with '-': sudo would read it as a flag")
  else if user.all fun c => c.isAlphanum || c ∈ ['.', '_', '-'] then .ok ()
  else
    .error (.invalidRequest
      "'sudo_user' may contain only letters, digits, '.', '_' and '-'")

def extractSudo (display : Json → Text) : Option Json → Except ToolError Bool
  | none => .ok false
  | some (.bool b) => .ok b
  | some v => .error (.invalidRequest ("'sudo' must be a boolean, got " ++ display v))

def extractSudoUser (display : Json → Text) : Option Json → Except ToolError (Option Text)
  | none => .ok none
  | some (.string s) => (validateSudoUser s).map fun _ => some s
  | some v => .error (.invalidRequest ("'sudo_user' must be a string, got " ++ display v))

/-- `PrivilegeArgs::extract`, with what it leaves of the arguments. -/
def extractPrivilege (display : Json → Text) : Json → Except ToolError (PrivilegeArgs × Json)
  | .object members => do
      let sudo' ← extractSudo display ((Json.object members).get "sudo")
      let user ← extractSudoUser display ((Json.object members).get "sudo_user")
      pure (⟨sudo', user⟩, .object (members.filter fun member =>
        member.1 ≠ "sudo" ∧ member.1 ≠ "sudo_user"))
  | v => .ok (⟨false, none⟩, v)

def builderShell : Option OsType → ShellType
  | some .windows => .powerShell
  | some .linux => .posix
  | none => .posix

def powershellHint : Text :=
  (" If this host's commands do run in PowerShell (an OpenSSH DefaultShell set to PowerShell, say), " ++
    "set `shell: powershell` for it.").toList

def shellMismatch (tool : Text) (toolShell : ShellType) (host : HostConfig) : Option Text :=
  if host.effectiveShell = toolShell then none
  else
    let hint := if toolShell = .powerShell ∧ host.effectiveShell = .cmd then powershellHint else []
    some ("Tool '" ++ tool ++ "' quotes its arguments for " ++ shellName toolShell ++
      ", but this host runs commands in " ++ shellName host.effectiveShell ++
      ", where that quoting does not hold: refused." ++ hint)

/-- A tool. `parse` is the deserialisation into its arguments, `extractFor` the lift of the reduction
parameters before it, which only the output's processing reads. -/
structure StandardTool (Args : Type) where
  name : Text
  osGuard : Option OsType
  rawCommand : Bool
  allowsElevation : Bool
  extractFor : Json → Except ToolError Json
  parse : Json → Except ToolError Args
  host : Args → Text
  timeoutSeconds : Args → Option ℕ
  buildCommand : Args → Host → Except ToolError Text
  validate : Args → Host → Except ToolError Unit
  scopedPaths : Args → List Text

/-- What a call meets: the configuration, and the answers of the rate limiter and of the tool's
`pre_execute` to this call. -/
structure ToolContext (rx : RegexCrate) (Args : Type) where
  hosts : Text → Option Host
  roots : List Text
  validator : CommandValidator rx
  rateLimiter : Text → Bool
  preExecute : Args → Except ToolError (Option ToolCallResult)
  annotations : Text → Pipeline.ToolAnnotations
  retryAttempts : ℕ
  commandTimeoutSeconds : ℕ
  hasToken : Bool
  display : Json → Text

section
variable {Args : Type} (tool : StandardTool Args) (hostName : Text)

def osRefusal (host : Host) : Option Text :=
  match tool.osGuard with
  | none => none
  | some .windows =>
    if host.osType = .windows then none
    else some ("Tool '" ++ tool.name ++
      "' is only available on Windows hosts. Use Linux-specific tools instead.")
  | some .linux =>
    if host.osType = .windows then
      some ("Tool '" ++ tool.name ++
        "' is not available on Windows hosts. Use Windows-specific tools instead.")
    else none

def checkOs (host : Host) : Except Refusal Unit :=
  match osRefusal tool host with
  | none => .ok ()
  | some text => .error (.answered text)

def checkShell (host : Host) : Except Refusal Unit :=
  if tool.rawCommand then .ok ()
  else
    match shellMismatch tool.name (builderShell tool.osGuard) host.toHostConfig with
    | none => .ok ()
    | some text => .error ⟨some ⟨tool.name, hostName, [], text⟩, .answered ⟨text, true⟩⟩

/-- A step whose error is audited beside the command known at that point. -/
def audited {α : Type} (command : Text) : Except ToolError α → Except Refusal α
  | .ok a => .ok a
  | .error e => .error ⟨some ⟨tool.name, hostName, command, e.reason⟩, .failed e⟩

/-- A step whose error is passed on. -/
def propagated {α : Type} : Except ToolError α → Except Refusal α
  | .ok a => .ok a
  | .error e => .error (.failed e)

def checkScope (roots : List Text) : List Text → Except Refusal Unit
  | [] => .ok ()
  | path :: paths =>
    match RootScope.validateRootScope roots path with
    | .ok _ => checkScope roots paths
    | .error e => .error (.failed (.invalidRequest e.reason))

def checkPreExecute : Except ToolError (Option ToolCallResult) → Except Refusal Unit
  | .ok none => .ok ()
  | .ok (some early) => .error ⟨none, .answered early⟩
  | .error e => .error (.failed e)

def elevationRefusal : Text :=
  "Tool '" ++ tool.name ++
    ("' does not accept 'sudo' or 'sudo_user'. Elevation wraps the whole built command in a root " ++
      "shell and is applied before the command blacklist, and this tool's command is not one that " ++
      "may be run that way. Drop the parameter; there is no host on which it works for this tool.").toList

/-- `Debug` of the shell, in lower case. -/
def shellWord : ShellType → Text
  | .posix => "posix"
  | .cmd => "cmd"
  | .powerShell => "powershell"

def checkElevation (host : Host) (privilege : PrivilegeArgs) (command : Text) :
    Except Refusal Unit :=
  if privilege.sudo = false then .ok ()
  else if tool.allowsElevation = false then
    .error ⟨some ⟨tool.name, hostName, command, elevationRefusal tool⟩,
      .failed (.commandDenied (elevationRefusal tool))⟩
  else if host.osType = .windows then
    .error (.answered ("'sudo' is not supported on Windows host '" ++ hostName ++ "'."))
  else if host.effectiveShell ≠ .posix then
    let reason := "'sudo' requires a POSIX shell; host '" ++ hostName ++ "' uses '" ++
      shellWord host.effectiveShell ++ "'."
    .error ⟨some ⟨tool.name, hostName, command, reason⟩, .answered ⟨reason, true⟩⟩
  else .ok ()

/-- Where elevation is not requested, the command is left as it is on every host. -/
def elevated (host : Host) (privilege : PrivilegeArgs) (command : Text) : Elevated :=
  elevateWithPassword command privilege
    (if privilege.sudo then host.sudoPasswordForExec else none)

def checkPolicy {rx : RegexCrate} (validator : CommandValidator rx) (command : Text) :
    Except Refusal Unit :=
  match validator.validateBuiltin command with
  | .ok _ => .ok ()
  | .error (.commandDenied reason) =>
    .error ⟨some ⟨tool.name, hostName, command, reason⟩, .failed (.commandDenied reason)⟩

def checkRate (accepted : Bool) : Except Refusal Unit :=
  if accepted then .ok ()
  else
    .error (.answered ("Rate limit exceeded for host '" ++ hostName ++
      "'. Please wait before sending more requests."))

def localized (host : Host) (command : Text) : Text :=
  match host.effectiveShell with
  | .posix => "export LC_ALL=C; " ++ command
  | _ => command

end

def lookupHost {rx : RegexCrate} {Args : Type} (ctx : ToolContext rx Args) (hostName : Text) :
    Except Refusal Host :=
  match ctx.hosts hostName with
  | none => .error (.failed (.unknownHost hostName))
  | some host => .ok host

def givenArguments : Option Json → Except Refusal Json
  | none => .error (.failed (.missingParam "arguments"))
  | some v => .ok v

/-- Steps 0 to 10b. -/
def StandardTool.prepare {rx : RegexCrate} {Args : Type} (tool : StandardTool Args)
    (ctx : ToolContext rx Args) (arguments : Option Json) : Except Refusal Attempts.Call := do
  let v ← givenArguments arguments
  let v ← propagated (tool.extractFor v)
  let (privilege, v) ← propagated (extractPrivilege ctx.display v)
  let args ← propagated (tool.parse v)
  let hostName := tool.host args
  let host ← lookupHost ctx hostName
  checkOs tool host
  checkShell tool hostName host
  audited tool hostName [] (tool.validate args host)
  checkScope ctx.roots (tool.scopedPaths args)
  checkPreExecute (ctx.preExecute args)
  let command ← audited tool hostName [] (tool.buildCommand args host)
  checkElevation tool hostName host privilege command
  let sent := elevated host privilege command
  checkPolicy tool hostName ctx.validator sent.command
  checkRate hostName (ctx.rateLimiter hostName)
  pure {
    host := hostName
    protocol := host.protocol
    command := localized host sent.command
    stdin := sent.stdin
    annotations := ctx.annotations tool.name
    maxAttempts := ctx.retryAttempts
    hasToken := ctx.hasToken
    commandTimeoutSeconds := (tool.timeoutSeconds args).getD ctx.commandTimeoutSeconds }

/-- `exec_with_stdin` is called with a text and a stdin in some run of the call. -/
def StandardTool.Sends {rx : RegexCrate} {Args : Type} (tool : StandardTool Args)
    (ctx : ToolContext rx Args) (arguments : Option Json) (command : Text) (stdin : Option Text) :
    Prop :=
  ∃ call, tool.prepare ctx arguments = .ok call ∧
    ∃ s : Attempts.State Pipeline.CommandOutput,
      Reaches call.step (fun _ _ => True) .start s ∧ (command, stdin) ∈ s.calls

variable {command : Text} {rx : RegexCrate}

theorem sends_iff {Args : Type} {tool : StandardTool Args} {ctx : ToolContext rx Args}
    {arguments : Option Json} {stdin : Option Text} :
    tool.Sends ctx arguments command stdin ↔
      ∃ call, tool.prepare ctx arguments = .ok call ∧ call.command = command ∧ call.stdin = stdin := by
  constructor
  · rintro ⟨call, hprepared, s, hreaches, hmem⟩
    obtain ⟨hcommand, hstdin⟩ := Prod.mk.inj ((Attempts.counted_of_reaches hreaches).calls _ hmem)
    exact ⟨call, hprepared, hcommand.symm, hstdin.symm⟩
  · rintro ⟨call, hprepared, rfl, rfl⟩
    exact ⟨call, hprepared, Attempts.exists_sent call⟩

section
variable {Args : Type} {tool : StandardTool Args} {hostName : Text} {host : Host}

theorem of_audited {α : Type} {x : Except ToolError α} {a : α}
    (h : audited tool hostName command x = .ok a) : x = .ok a := by
  cases x with
  | error e => cases h
  | ok b =>
    cases h
    rfl

theorem of_propagated {α : Type} {x : Except ToolError α} {a : α} (h : propagated x = .ok a) :
    x = .ok a := by
  cases x with
  | error e => cases h
  | ok b =>
    cases h
    rfl

theorem of_lookupHost {ctx : ToolContext rx Args}
    (h : lookupHost ctx hostName = .ok host) : ctx.hosts hostName = some host := by
  unfold lookupHost at h
  split at h
  · cases h
  · next hfound =>
      cases h
      exact hfound

theorem of_checkShell (h : checkShell tool hostName host = .ok ()) (hraw : tool.rawCommand = false) :
    host.effectiveShell = builderShell tool.osGuard := by
  unfold checkShell at h
  rw [hraw, if_neg Bool.false_ne_true] at h
  by_contra hshell
  rw [shellMismatch, if_neg hshell] at h
  cases h

theorem of_checkScope {roots paths : List Text} (h : checkScope roots paths = .ok ()) :
    ∀ path ∈ paths, RootScope.validateRootScope roots path = .ok () := by
  induction paths with
  | nil => nofun
  | cons path paths ih =>
    rw [checkScope] at h
    split at h
    · next hpath => exact List.forall_mem_cons.mpr ⟨hpath, ih h⟩
    · cases h

theorem of_checkElevation {privilege : PrivilegeArgs}
    (h : checkElevation tool hostName host privilege command = .ok ())
    (hsudo : privilege.sudo = true) :
    tool.allowsElevation = true ∧ host.osType ≠ .windows ∧ host.effectiveShell = .posix := by
  unfold checkElevation at h
  rw [hsudo, if_neg Bool.noConfusion] at h
  split_ifs at h with hallows hwindows hshell
  exact ⟨Bool.not_eq_false _ ▸ hallows, hwindows, not_not.mp hshell⟩

theorem of_checkPolicy {validator : CommandValidator rx}
    (h : checkPolicy tool hostName validator command = .ok ()) :
    validator.validateBuiltin command = .ok () := by
  unfold checkPolicy at h
  split at h
  · next hvalid => exact hvalid
  · cases h

theorem of_checkRate {accepted : Bool} (h : checkRate hostName accepted = .ok ()) :
    accepted = true := by
  unfold checkRate at h
  split_ifs at h with haccepted
  exact haccepted

theorem elevated_plain {privilege : PrivilegeArgs} (hsudo : privilege.sudo = false) (command : Text) :
    elevated host privilege command = ⟨command, none⟩ := by
  unfold elevated elevateWithPassword
  rw [hsudo]
  rfl

end

/-- What stands behind a command that is sent: the host it goes to, the built command and the text
`judged` that the policy saw. -/
structure Judged {rx : RegexCrate} {Args : Type} (tool : StandardTool Args)
    (ctx : ToolContext rx Args) (privilege : PrivilegeArgs) (args : Args) (host : Host)
    (built judged command : Text) (stdin : Option Text) : Prop where
  known : ctx.hosts (tool.host args) = some host
  builds : tool.buildCommand args host = .ok built
  accepted : ctx.validator.validateBuiltin judged = .ok ()
  sent : (host.effectiveShell = .posix ∧ command = "export LC_ALL=C; " ++ judged) ∨
    (host.effectiveShell ≠ .posix ∧ command = judged)
  plain : privilege.sudo = false → judged = built ∧ stdin = none
  wrapped : privilege.sudo = true →
    judged = (elevateWithPassword built privilege host.sudoPasswordForExec).command
  quoted : tool.rawCommand = false → host.effectiveShell = builderShell tool.osGuard
  elevatable : privilege.sudo = true →
    tool.allowsElevation = true ∧ host.osType ≠ .windows ∧ host.effectiveShell = .posix
  inScope : ∀ path ∈ tool.scopedPaths args, RootScope.validateRootScope ctx.roots path = .ok ()
  limited : ctx.rateLimiter (tool.host args) = true

theorem localized_cases (host : Host) (command : Text) :
    (host.effectiveShell = .posix ∧ localized host command = "export LC_ALL=C; " ++ command) ∨
      (host.effectiveShell ≠ .posix ∧ localized host command = command) := by
  unfold localized
  split
  · next hposix => exact Or.inl ⟨hposix, rfl⟩
  · next hother => exact Or.inr ⟨hother, rfl⟩

/-- Every command that the pipeline passes to `exec_with_stdin` is one it judged. -/
theorem sent_is_judged {rx : RegexCrate} {Args : Type} (tool : StandardTool Args)
    (ctx : ToolContext rx Args) (arguments : Option Json) (command : Text) (stdin : Option Text)
    (h : tool.Sends ctx arguments command stdin) :
    ∃ given reduced privilege rest args host built judged,
      arguments = some given ∧ tool.extractFor given = .ok reduced ∧
      extractPrivilege ctx.display reduced = .ok (privilege, rest) ∧ tool.parse rest = .ok args ∧
      Judged tool ctx privilege args host built judged command stdin := by
  obtain ⟨call, hprepared, rfl, rfl⟩ := sends_iff.mp h
  unfold StandardTool.prepare at hprepared
  obtain ⟨given, hgiven, h⟩ := exists_of_bind hprepared
  obtain ⟨reduced, hreduced, h⟩ := exists_of_bind h
  obtain ⟨⟨privilege, rest⟩, hprivilege, h⟩ := exists_of_bind h
  obtain ⟨args, hargs, h⟩ := exists_of_bind h
  obtain ⟨host, hhost, h⟩ := exists_of_bind h
  obtain ⟨-, h⟩ := ok_of_bind h
  obtain ⟨hshell, h⟩ := ok_of_bind h
  obtain ⟨-, h⟩ := ok_of_bind h
  obtain ⟨hscope, h⟩ := ok_of_bind h
  obtain ⟨-, h⟩ := ok_of_bind h
  obtain ⟨built, hbuilt, h⟩ := exists_of_bind h
  obtain ⟨helevation, h⟩ := ok_of_bind h
  obtain ⟨hpolicy, h⟩ := ok_of_bind h
  obtain ⟨hrate, h⟩ := ok_of_bind h
  have harguments : arguments = some given := by
    cases arguments with
    | none => cases hgiven
    | some v => exact congrArg some (Except.ok.inj hgiven)
  cases h
  refine ⟨given, reduced, privilege, rest, args, host, built, (elevated host privilege built).command,
    harguments, of_propagated hreduced, of_propagated hprivilege, of_propagated hargs, ?_⟩
  constructor
  · exact of_lookupHost hhost
  · exact of_audited hbuilt
  · exact of_checkPolicy hpolicy
  · exact localized_cases host _
  · intro hsudo
    rw [elevated_plain hsudo]
    exact ⟨rfl, rfl⟩
  · intro hsudo
    rw [elevated, if_pos hsudo]
  · exact of_checkShell hshell
  · exact of_checkElevation helevation
  · exact of_checkScope hscope
  · exact of_checkRate hrate

def uptime : StandardTool Text where
  name := "uptime"
  osGuard := some .linux
  rawCommand := false
  allowsElevation := true
  extractFor := .ok
  parse := fun v => match (v.get "host").bind Json.asStr with
    | some host => .ok host
    | none => .error (.invalidRequest "missing field `host`")
  host := id
  timeoutSeconds := fun _ => none
  buildCommand := fun _ _ => .ok "uptime"
  validate := fun _ _ => .ok ()
  scopedPaths := fun _ => []

def uptimeContext : ToolContext ⟨Unit, fun _ => none, fun _ _ => false, fun _ => []⟩ Text where
  hosts := fun _ => some ⟨⟨"192.0.2.1", 22, "ops", .agent, none, none, .ssh, none, .linux,
    none, none, none, none, none⟩, some "pw"⟩
  roots := []
  validator := .new _ ⟨.standard, [], []⟩
  rateLimiter := fun _ => true
  preExecute := fun _ => .ok none
  annotations := fun _ => ⟨some true, none, none⟩
  retryAttempts := 3
  commandTimeoutSeconds := 30
  hasToken := false
  display := fun _ => []

theorem sent_is_judged_uptime : ∃ privilege args host judged,
    Judged uptime uptimeContext privilege args host "uptime" judged
      "export LC_ALL=C; sudo -S -p '' bash -c 'exec 0</dev/null; uptime'"
      (some "pw\n") := by
  have hsends : uptime.Sends uptimeContext
      (some (.object [("host", .string "web"), ("sudo", .bool true)]))
      "export LC_ALL=C; sudo -S -p '' bash -c 'exec 0</dev/null; uptime'"
      (some "pw\n") := sends_iff.mpr ⟨_, rfl, rfl, rfl⟩
  obtain ⟨_, _, privilege, _, args, host, built, judged, -, -, -, -, hjudged⟩ :=
    sent_is_judged uptime uptimeContext _ _ _ hsends
  have hbuilt : built = "uptime" := (Except.ok.inj hjudged.builds).symm
  exact ⟨privilege, args, host, judged, hbuilt ▸ hjudged⟩

end BridgeMcp.Mcp.Tools
