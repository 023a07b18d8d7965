import BridgeMcp.Connections.Load
import BridgeMcp.Connections.SshPool

/-!
How a call gets its SSH connection: directly, through a SOCKS proxy or through the jump host that
`proxy_jump` names (`ssh/client.rs`, and the lookup of the jump host at each call site).
-/
namespace BridgeMcp.Connections
open TextLib TransitionLib BridgeMcp.Shell List

structure Address where
  hostname : Text
  port : ℕ
  deriving DecidableEq

def HostConfig.address (host : HostConfig) : Address := ⟨host.hostname, host.port⟩

def SocksProxyConfig.address (socks : SocksProxyConfig) : Address := ⟨socks.hostname, socks.port⟩

def HostConfig.dialled (host : HostConfig) : Address :=
  (host.socksProxy.map SocksProxyConfig.address).getD host.address

inductive NetOp where
  /-- a network connection of the bridge's own -/
  | dial (address : Address)
  /-- asked of a SOCKS proxy -/
  | relay (target : Address)
  /-- a `direct-tcpip` channel on the SSH connection to a host -/
  | tunnel (through : Text) (target : Address)
  /-- the SSH handshake and authentication -/
  | login (hostName : Text)
  deriving DecidableEq

/-- The operations that were tried, and whether the last one succeeded too. -/
structure Attempt where
  ops : List NetOp
  succeeded : Bool
  deriving DecidableEq

def attempt (network : NetOp → Bool) : List NetOp → Attempt
  | [] => ⟨[], true⟩
  | op :: ops =>
    if network op then
      let rest := attempt network ops
      ⟨op :: rest.ops, rest.succeeded⟩
    else ⟨[op], false⟩

def connectOps (hostName : Text) (host : HostConfig) : List NetOp :=
  match host.socksProxy with
  | some socks => [.dial socks.address, .relay host.address, .login hostName]
  | none => [.dial host.address, .login hostName]

def connectViaJumpOps (hostName : Text) (host : HostConfig) (jumpName : Text) (jump : HostConfig) :
    List NetOp :=
  connectOps jumpName jump ++ [.tunnel jumpName host.address, .login hostName]

def openOps (hostName : Text) (host : HostConfig) : Option (Text × HostConfig) → List NetOp
  | some (jumpName, jump) => connectViaJumpOps hostName host jumpName jump
  | none => connectOps hostName host

def jumpHost (hosts : Hosts) (host : HostConfig) : Option (Text × HostConfig) :=
  host.proxyJump.bind fun jumpName => (hosts.lookup jumpName).map fun jump => (jumpName, jump)

def shellName : ShellType → Text
  | .posix => "a POSIX shell"
  | .cmd => "cmd.exe"
  | .powerShell => "PowerShell"

def awxHostRefusal (hostName : Text) (host : HostConfig) : Option Text :=
  let refusal := fun what : Text =>
    "`awx.ssh_host` is '" ++ hostName ++ "', " ++ what ++
      (": the AWX tools send it POSIX-quoted `curl` commands, whose quoting does not hold there, " ++
        "so they are refused. Point `awx.ssh_host` at a Linux host.").toList
  if host.osType = .windows then some (refusal "a Windows host")
  else if host.effectiveShell = .posix then none
  else some (refusal ("a host whose commands run in " ++ shellName host.effectiveShell))

inductive CallPath where
  /-- the pool: tools, resources and `bridge-mcp exec`, one host or several -/
  | pooled
  /-- the pool, as the `ssh_awx_*` tools ask it -/
  | awx
  /-- `connect_with_jump`: the SFTP tools and tunnels -/
  | dedicated
  | session
  /-- uploads and downloads of the command line -/
  | transfer
  deriving DecidableEq

def CallPath.call (hosts : Hosts) (network : NetOp → Bool) (hostName : Text) (host : HostConfig) :
    CallPath → Attempt
  | .pooled | .session | .transfer => attempt network (openOps hostName host (jumpHost hosts host))
  | .awx =>
    if (awxHostRefusal hostName host).isSome then ⟨[], false⟩
    else attempt network (openOps hostName host none)
  | .dedicated =>
    if host.protocol = .ssh then attempt network (openOps hostName host (jumpHost hosts host))
    else ⟨[], false⟩

/-- The operations that reach a host as the configuration says: each host with a `proxy_jump` inside a
tunnel on a connection to the host it names. -/
inductive Reached (hosts : Hosts) : Text → HostConfig → List NetOp → Prop where
  | direct {name : Text} {host : HostConfig} : host.proxyJump = none → host.socksProxy = none →
      Reached hosts name host [.dial host.address, .login name]
  | socks {name : Text} {host : HostConfig} {socks : SocksProxyConfig} : host.proxyJump = none →
      host.socksProxy = some socks →
      Reached hosts name host [.dial socks.address, .relay host.address, .login name]
  | jump {name jumpName : Text} {host jump : HostConfig} {ops : List NetOp} :
      host.proxyJump = some jumpName → hosts.lookup jumpName = some jump →
      Reached hosts jumpName jump ops →
      Reached hosts name host (ops ++ [.tunnel jumpName host.address, .login name])

/-- An attempt does not connect to the host itself, and is on the way the configuration says as far as
it got. -/
structure Respects (hosts : Hosts) (name : Text) (host : HostConfig) (a : Attempt) : Prop where
  noDial : ∀ op ∈ a.ops, op ≠ .dial host.address
  reached : a.succeeded = true → Reached hosts name host a.ops
  underway : a.ops = [] ∨ ∃ ops, Reached hosts name host ops ∧ a.ops <+: ops

/-- The AWX tools refuse the host; on any other path, the named host is there, has no jump host itself,
and is not connected to at the address of the host. -/
def Guarded (hosts : Hosts) (hostName : Text) (host : HostConfig) : CallPath → Prop
  | .awx => (awxHostRefusal hostName host).isSome
  | _ => ∃ jump ∈ jumpHost hosts host, jump.2.proxyJump = none ∧ jump.2.dialled ≠ host.address

section
variable {hosts : Hosts} {hostName jumpName : Text} {host jump : HostConfig}

theorem attempt_isPrefix (network : NetOp → Bool) (ops : List NetOp) :
    (attempt network ops).ops <+: ops := by
  induction ops with
  | nil => exact prefix_refl _
  | cons op ops ih =>
    unfold attempt
    split_ifs
    · exact cons_prefix_cons.mpr ⟨rfl, ih⟩
    · exact cons_prefix_cons.mpr ⟨rfl, nil_prefix⟩

theorem attempt_succeeded {network : NetOp → Bool} {ops : List NetOp}
    (h : (attempt network ops).succeeded = true) : (attempt network ops).ops = ops := by
  induction ops with
  | nil => rfl
  | cons op ops ih =>
    unfold attempt at h ⊢
    split_ifs at h ⊢
    exact congrArg (op :: ·) (ih h)

theorem attempt_up (ops : List NetOp) : attempt (fun _ => true) ops = ⟨ops, true⟩ := by
  induction ops with
  | nil => rfl
  | cons op ops ih =>
    unfold attempt
    rw [if_pos rfl, ih]

theorem reached_connectOps (hproxy : jump.proxyJump = none) :
    Reached hosts jumpName jump (connectOps jumpName jump) := by
  unfold connectOps
  split
  · next socks hsocks => exact .socks hproxy hsocks
  · next hsocks => exact .direct hproxy hsocks

theorem dialled_mem_connectOps : .dial jump.dialled ∈ connectOps jumpName jump := by
  unfold connectOps HostConfig.dialled
  split
  · next socks hsocks =>
      rw [hsocks]
      exact mem_cons_self
  · next hsocks =>
      rw [hsocks]
      exact mem_cons_self

theorem eq_dialled_of_mem {address : Address}
    (h : .dial address ∈ connectViaJumpOps hostName host jumpName jump) : address = jump.dialled := by
  unfold connectViaJumpOps connectOps at h
  unfold HostConfig.dialled
  split at h
  · next socks hsocks => simpa [hsocks] using h
  · next hsocks => simpa [hsocks] using h

theorem respects_of_guarded (hproxy : host.proxyJump = some jumpName)
    (hlookup : hosts.lookup jumpName = some jump) (hjump : jump.proxyJump = none)
    (hother : jump.dialled ≠ host.address) (network : NetOp → Bool) :
    Respects hosts hostName host
      (attempt network (connectViaJumpOps hostName host jumpName jump)) := by
  have hreached : Reached hosts hostName host (connectViaJumpOps hostName host jumpName jump) :=
    .jump hproxy hlookup (reached_connectOps hjump)
  have hpart := attempt_isPrefix network (connectViaJumpOps hostName host jumpName jump)
  refine ⟨?_, ?_, .inr ⟨_, hreached, hpart⟩⟩
  · rintro op hop rfl
    exact hother (eq_dialled_of_mem (hpart.subset hop)).symm
  · intro hsucceeded
    rw [attempt_succeeded hsucceeded]
    exact hreached

theorem proxyJump_eq_none_of_reached (h : Reached hosts jumpName jump (connectOps jumpName jump)) :
    jump.proxyJump = none := by
  generalize hops : connectOps jumpName jump = ops at h
  cases h with
  | direct hproxy _ => exact hproxy
  | socks hproxy _ => exact hproxy
  | jump _ _ _ =>
    -- the last operation but one would be a tunnel
    have hlast := congrArg (fun ops => ops.reverse[1]?) hops
    unfold connectOps at hlast
    split at hlast
    · simp at hlast
    · simp at hlast

theorem guarded_of_respects (hproxy : host.proxyJump = some jumpName)
    (hlookup : hosts.lookup jumpName = some jump)
    (h : Respects hosts hostName host ⟨connectViaJumpOps hostName host jumpName jump, true⟩) :
    jump.proxyJump = none ∧ jump.dialled ≠ host.address := by
  constructor
  · have hreached := h.reached rfl
    generalize hops : connectViaJumpOps hostName host jumpName jump = ops at hreached
    cases hreached with
    | direct hnone _ =>
      rw [hproxy] at hnone
      cases hnone
    | socks hnone _ =>
      rw [hproxy] at hnone
      cases hnone
    | jump hproxy' hlookup' hjump =>
      cases hproxy.symm.trans hproxy'
      cases hlookup.symm.trans hlookup'
      rw [← append_inj_left' hops rfl] at hjump
      exact proxyJump_eq_none_of_reached hjump
  · intro hsame
    have hmem : .dial jump.dialled ∈ connectViaJumpOps hostName host jumpName jump :=
      mem_append_left _ dialled_mem_connectOps
    exact h.noDial _ hmem (congrArg NetOp.dial hsame)

theorem not_respects_direct (hsocks : host.socksProxy = none) :
    ¬ Respects hosts hostName host ⟨connectOps hostName host, true⟩ := by
  intro h
  have hmem : .dial host.address ∈ connectOps hostName host := by
    unfold connectOps
    rw [hsocks]
    exact mem_cons_self
  exact h.noDial _ hmem rfl

theorem jumpHost_eq (hproxy : host.proxyJump = some jumpName) :
    jumpHost hosts host = (hosts.lookup jumpName).map fun jump => (jumpName, jump) := by
  rw [jumpHost, hproxy]
  rfl

theorem respects_lookup_iff (hproxy : host.proxyJump = some jumpName)
    (hsocks : host.socksProxy = none) :
    (∀ network, Respects hosts hostName host
      (attempt network (openOps hostName host (jumpHost hosts host)))) ↔
    ∃ jump ∈ jumpHost hosts host, jump.2.proxyJump = none ∧ jump.2.dialled ≠ host.address := by
  rw [jumpHost_eq hproxy]
  cases hlookup : hosts.lookup jumpName with
  | none =>
    constructor
    · intro h
      have hup := h fun _ => true
      rw [attempt_up] at hup
      exact absurd hup (not_respects_direct hsocks)
    · rintro ⟨_, hjump, -⟩
      cases hjump
  | some jump =>
    constructor
    · intro h
      have hup := h fun _ => true
      rw [attempt_up] at hup
      exact ⟨(jumpName, jump), rfl, guarded_of_respects hproxy hlookup hup⟩
    · rintro ⟨found, hfound, hjump, hother⟩ network
      cases hfound
      exact respects_of_guarded hproxy hlookup hjump hother network

theorem respects_awx_iff (hsocks : host.socksProxy = none) :
    (∀ network, Respects hosts hostName host (CallPath.call hosts network hostName host .awx)) ↔
      (awxHostRefusal hostName host).isSome := by
  simp only [CallPath.call]
  split_ifs with hrefused
  · exact iff_of_true (fun _ => ⟨forall_mem_nil _, nofun, .inl rfl⟩) hrefused
  · refine iff_of_false (fun h => ?_) hrefused
    have hup := h fun _ => true
    rw [attempt_up] at hup
    exact not_respects_direct hsocks hup

variable {env : Environment} {parse : Text → Except LoadError Config} {path : Text} {config : Config}

/-- A call respects the bastion, whatever the network does, just where the condition holds. What the
pool then keeps for the host was made through the host that was looked up. -/
theorem bastion_respected_iff (h : loadConfig env parse path = .ok config)
    (hhost : config.hosts.lookup hostName = some host) (hssh : host.protocol = .ssh)
    (hproxy : host.proxyJump = some jumpName) (callPath : CallPath) :
    ((∀ network, Respects config.hosts hostName host
        (callPath.call config.hosts network hostName host)) ↔
      Guarded config.hosts hostName host callPath) ∧
    ∀ poolConfig clock pool,
      Reaches (SshPool.ConnectionPool.step poolConfig)
        (fun _ action => ∀ host' jump, action = .begin hostName host' jump →
          host' = host ∧ jump = (jumpHost config.hosts host).map Prod.snd) (.empty clock) pool →
      ∀ guard ∈ pool.guards, guard.1 = hostName →
        guard.2.client = .of host ((jumpHost config.hosts host).map Prod.snd) := by
  have hsocks : host.socksProxy = none :=
    socksProxy_eq_none_of_load h hhost (by rw [hproxy]; rfl)
  constructor
  · cases callPath with
    | pooled | session | transfer => exact respects_lookup_iff hproxy hsocks
    | awx => exact respects_awx_iff hsocks
    | dedicated =>
      simp only [CallPath.call, if_pos hssh]
      exact respects_lookup_iff hproxy hsocks
  · intro poolConfig clock pool hrun guard hguard hname
    let routes : Text → SshPool.Route → Prop := fun name route =>
      name = hostName → route = .of host ((jumpHost config.hosts host).map Prod.snd)
    have hfiled : ∀ entry ∈ pool.guards, routes entry.1 entry.2.client := by
      apply SshPool.guards_of_begins
      apply hrun.mono
      intro _ action hallowed name host' jump haction hsame
      obtain ⟨rfl, rfl⟩ := hallowed host' jump (hsame ▸ haction)
      rfl
    exact hfiled guard hguard hname

end

def plainHost (hostname : Text) (proxyJump : Option Text) : HostConfig where
  hostname := hostname
  port := 22
  user := "admin"
  auth := .agent
  proxyJump := proxyJump
  socksProxy := none
  protocol := .ssh
  description := none
  osType := .linux
  shell := none
  winrmUseTls := none
  winrmAcceptInvalidCerts := none
  winrmOperationTimeoutSecs := none
  winrmMaxEnvelopeSize := none

def sampleConfig (hosts : List (Text × HostConfig)) : Config where
  hosts := hosts.foldl (fun hosts entry => hosts.insert entry.1 entry.2) ∅
  sshConfigEnabled := true
  sshConfigPath := "ssh_config"
  sshConfigExclude := []
  thresholds := .ok ()
  patterns := .ok ()

def sampleEnvironment (sshConfig : Text) : Environment where
  rules := .unix
  home := none
  var := fun _ => none
  files := fun path =>
    if path = "config.yaml" then some ⟨0o640, some []⟩
    else if path = "ssh_config" then some ⟨0o644, some sshConfig⟩
    else none

def sampleLoad (hosts : List (Text × HostConfig)) (sshConfig : Text) : Except LoadError Config :=
  loadConfig (sampleEnvironment sshConfig) (fun _ => .ok (sampleConfig hosts)) "config.yaml"

theorem bastion_respected_iff_one_jump :
    ∃ config host, sampleLoad [(['a'], plainHost ['x'] (some ['b'])), (['b'], plainHost ['y'] none)]
        [] = .ok config ∧
      config.hosts.lookup ['a'] = some host ∧
      ∀ network, Respects config.hosts ['a'] host
        (CallPath.call config.hosts network ['a'] host .pooled) := by
  have hload : sampleLoad
      [(['a'], plainHost ['x'] (some ['b'])), (['b'], plainHost ['y'] none)] [] = .ok _ := rfl
  refine ⟨_, _, hload, rfl, ?_⟩
  refine (bastion_respected_iff hload rfl rfl rfl .pooled).1.mpr ?_
  exact ⟨_, rfl, rfl, by decide⟩

/-- A `ProxyJump` of an ssh config that is not an alias, a jump host behind another one, and an AWX
call: the first and the last connect to the host itself, the second to a jump host that has a jump
host of its own. -/
theorem bastion_bypassed :
    (sampleLoad [(['z'], plainHost ['z'] none)]
      ("Host bastion\n  HostName b\n  User u\nHost internal\n  HostName i\n  User u\n" ++
        "  ProxyJump u@bastion:22\n").toList).toOption.any (fun config =>
      (config.hosts.lookup "internal".toList).any fun host =>
        host.proxyJump == some "u@bastion:22".toList &&
        (CallPath.call config.hosts (fun _ => true) "internal".toList host .pooled).ops ==
          [.dial ⟨['i'], 22⟩, .login "internal".toList]) = true ∧
    (sampleLoad [(['a'], plainHost ['x'] (some ['b'])), (['b'], plainHost ['y'] (some ['c'])),
      (['c'], plainHost ['z'] none)] []).toOption.any (fun config =>
      (config.hosts.lookup ['a']).any fun host =>
        (CallPath.call config.hosts (fun _ => true) ['a'] host .session).ops ==
          [.dial ⟨['y'], 22⟩, .login ['b'], .tunnel ['b'] ⟨['x'], 22⟩, .login ['a']]) = true ∧
    (sampleLoad [(['a'], plainHost ['x'] (some ['b'])), (['b'], plainHost ['y'] none)]
      []).toOption.any (fun config =>
      (config.hosts.lookup ['a']).any fun host =>
        (CallPath.call config.hosts (fun _ => true) ['a'] host .awx).ops ==
          [.dial ⟨['x'], 22⟩, .login ['a']]) = true := by
  refine ⟨?_, ?_, ?_⟩
  · decide +kernel
  · decide +kernel
  · decide +kernel

end BridgeMcp.Connections
