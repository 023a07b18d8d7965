import BridgeMcp.Shell.Quoting

/-!
What the connection code reads of a host's configuration (`config/types.rs`).
-/
namespace BridgeMcp.Connections
open TextLib BridgeMcp.Shell

inductive AuthConfig where
  | key (path : Text) (passphrase : Option Text)
  | agent
  | password (password : Text)
  | ntlm (password : Text) (domain : Option Text)
  | certificate (certPath keyPath : Text)
  | kerberos
  deriving DecidableEq

inductive Protocol where
  | ssh
  | winRm
  | psrp
  | telnet
  | k8sExec
  | serial
  | ssm
  | azure
  | gcp
  deriving DecidableEq

inductive OsType where
  | linux
  | windows
  deriving DecidableEq

structure SocksProxyConfig where
  hostname : Text
  port : ℕ
  deriving DecidableEq

structure HostConfig where
  hostname : Text
  port : ℕ
  user : Text
  auth : AuthConfig
  proxyJump : Option Text
  socksProxy : Option SocksProxyConfig
  protocol : Protocol
  description : Option Text
  osType : OsType
  shell : Option ShellType
  winrmUseTls : Option Bool
  winrmAcceptInvalidCerts : Option Bool
  winrmOperationTimeoutSecs : Option ℕ
  winrmMaxEnvelopeSize : Option ℕ
  deriving DecidableEq

def HostConfig.protocolRunsPowershell (host : HostConfig) : Bool :=
  host.protocol == .winRm || host.protocol == .psrp

def ssmPowershellDocument : Text := "AWS-RunPowerShellScript"

def ssmShellDocument : Text := "AWS-RunShellScript"

def HostConfig.protocolShell (host : HostConfig) : Option ShellType :=
  if host.protocolRunsPowershell then some .powerShell
  else if host.protocol = .ssm then
    match host.description with
    | none =>
      match host.osType with
      | .windows => some .powerShell
      | .linux => some .posix
    | some document =>
      if document = ssmPowershellDocument then some .powerShell
      else if document = ssmShellDocument then some .posix
      else none
  else none

def HostConfig.effectiveShell (host : HostConfig) : ShellType :=
  (host.protocolShell.or host.shell).getD
    (match host.osType with
    | .linux => .posix
    | .windows => .cmd)

structure Login where
  hostname : Text
  port : ℕ
  user : Text
  auth : AuthConfig
  deriving DecidableEq

def HostConfig.login (host : HostConfig) : Login := ⟨host.hostname, host.port, host.user, host.auth⟩

def sampleHost (hostname password : Text) : HostConfig where
  hostname := hostname
  port := 5986
  user := "admin"
  auth := .password password
  proxyJump := none
  socksProxy := none
  protocol := .ssh
  description := none
  osType := .linux
  shell := none
  winrmUseTls := none
  winrmAcceptInvalidCerts := none
  winrmOperationTimeoutSecs := none
  winrmMaxEnvelopeSize := none

end BridgeMcp.Connections
