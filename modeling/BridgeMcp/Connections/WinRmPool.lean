import BridgeMcp.Connections.SshPool
import BridgeMcp.Lib.AssocMap
import BridgeMcp.Lib.Checks

/-!
The cache of WinRM clients (`winrm/pool.rs`) and how a client is made of a host's configuration
(`winrm/mod.rs`). A client does not know a host: the connection that wraps it brings the hostname of
the request.
-/
namespace BridgeMcp.Connections.WinRm
open TextLib TransitionLib AssocMap CheckLib

def basicOverHttp : Text :=
  ("`password` (Basic) over plain HTTP would send the password and every message in clear; use " ++
    "`ntlm`, which works on the same listener and seals the messages, or HTTPS (port 5986 or " ++
    "`winrm_use_tls: true`) with a server certificate that chains to a public root").toList

def basicUnverified : Text :=
  ("`password` (Basic) with `winrm_accept_invalid_certs` would send the password to a server whose " ++
    "certificate is not verified; use `ntlm`, or a server certificate that chains to a public root " ++
    "(winrm-rs checks the roots it bundles, not the bridge host's certificate store)").toList

structure ConfigInvalid where
  field : Text
  reason : Text
  deriving DecidableEq

inductive AuthMethod where
  | basic
  | ntlm
  | certificate
  | kerberos
  deriving DecidableEq

/-- The settings that the bridge gives; the others are the defaults. -/
structure WinrmConfig where
  port : Option ℕ
  useTls : Bool
  acceptInvalidCerts : Bool
  operationTimeoutSecs : ℕ
  maxEnvelopeSize : ℕ
  authMethod : AuthMethod
  clientCertPem : Option Text
  clientKeyPem : Option Text
  deriving DecidableEq

structure WinrmCredentials where
  username : Text
  password : Text
  domain : Text
  deriving DecidableEq

def winrmUsesTls (host : HostConfig) : Bool := host.winrmUseTls.getD (host.port == 5986)

def basicAuthRefusal (host : HostConfig) : Option Text :=
  match host.auth with
  | .password _ =>
    if !winrmUsesTls host then some basicOverHttp
    else if host.winrmAcceptInvalidCerts.getD false then some basicUnverified
    else none
  | _ => none

/-- The part of `build_winrm_config` before the credentials, by the method they turn out to need. -/
def winrmConfigOf (host : HostConfig) (authMethod : AuthMethod) : WinrmConfig where
  port := some host.port
  useTls := winrmUsesTls host
  acceptInvalidCerts := host.winrmAcceptInvalidCerts.getD false
  operationTimeoutSecs := host.winrmOperationTimeoutSecs.getD 60
  maxEnvelopeSize := host.winrmMaxEnvelopeSize.getD 153600
  authMethod := authMethod
  clientCertPem := none
  clientKeyPem := none

def buildWinrmConfig (host : HostConfig) : Except ConfigInvalid (WinrmConfig × WinrmCredentials) :=
  match basicAuthRefusal host with
  | some reason => .error ⟨"auth", reason⟩
  | none =>
    match host.auth with
    | .password password => .ok (winrmConfigOf host .basic, ⟨host.user, password, []⟩)
    | .ntlm password domain =>
      .ok (winrmConfigOf host .ntlm, ⟨host.user, password, domain.getD []⟩)
    | .certificate certPath keyPath =>
      .ok ({ winrmConfigOf host .certificate with
          clientCertPem := some certPath, clientKeyPem := some keyPath },
        ⟨host.user, [], []⟩)
    | .kerberos => .ok (winrmConfigOf host .kerberos, ⟨host.user, [], []⟩)
    | .key _ _ =>
      .error ⟨"auth",
        ("SSH key authentication is not supported for WinRM; " ++
          "use password, ntlm, certificate, or kerberos").toList⟩
    | .agent =>
      .error ⟨"auth",
        ("SSH agent authentication is not supported for WinRM; " ++
          "use password, ntlm, certificate, or kerberos").toList⟩

structure WinrmClient where
  config : WinrmConfig
  credentials : WinrmCredentials
  deriving DecidableEq

/-- `refuses` is what `WinrmClient::new` of the library has against the settings, if anything. -/
def buildWinrmClient (refuses : WinrmConfig → WinrmCredentials → Option Text) (host : HostConfig) :
    Except ConfigInvalid WinrmClient :=
  buildWinrmConfig host >>= fun (config, credentials) =>
    match refuses config credentials with
    | some reason => .error ⟨"auth", reason⟩
    | none => .ok ⟨config, credentials⟩

def WinrmClient.Uses (client : WinrmClient) (host : HostConfig) : Prop :=
  client.config.port = some host.port ∧ client.credentials.username = host.user ∧
    match host.auth with
    | .password password =>
      client.config.authMethod = .basic ∧ client.credentials.password = password
    | .ntlm password domain =>
      client.config.authMethod = .ntlm ∧ client.credentials.password = password ∧
        client.credentials.domain = domain.getD []
    | .certificate certPath keyPath =>
      client.config.authMethod = .certificate ∧ client.config.clientCertPem = some certPath ∧
        client.config.clientKeyPem = some keyPath
    | .kerberos => client.config.authMethod = .kerberos
    | .key _ _ | .agent => False

instance (client : WinrmClient) (host : HostConfig) : Decidable (client.Uses host) := by
  unfold WinrmClient.Uses
  cases host.auth <;> infer_instance

variable {host : HostConfig}

theorem buildWinrmConfig_uses {config : WinrmConfig}
    {credentials : WinrmCredentials} (h : buildWinrmConfig host = .ok (config, credentials)) :
    WinrmClient.Uses ⟨config, credentials⟩ host := by
  unfold buildWinrmConfig at h
  split at h
  · cases h
  · unfold WinrmClient.Uses
    split at h
    all_goals cases h
    all_goals simp [winrmConfigOf]

theorem buildWinrmClient_uses {refuses : WinrmConfig → WinrmCredentials → Option Text}
    {client : WinrmClient} (h : buildWinrmClient refuses host = .ok client) :
    client.Uses host := by
  obtain ⟨⟨config, credentials⟩, hbuilt, hclient⟩ := exists_of_bind h
  dsimp only at hclient
  split at hclient
  · cases hclient
  · rw [← Except.ok.inj hclient]
    exact buildWinrmConfig_uses hbuilt

structure PooledClient where
  client : WinrmClient
  lastUsed : ℕ
  deriving DecidableEq

structure WinRmConnection where
  hostName : Text
  client : WinrmClient
  deriving DecidableEq

/-- A `get_connection` that waits for the write lock: to note the use of a client it found, or to
file one it made. -/
structure Pending where
  hostName : Text
  host : HostConfig
  client : WinrmClient
  found : Bool

/-- `handed` are the connections handed out, each beside the configuration it was asked with. -/
structure WinRmPool where
  inner : AList fun _ : Text => PooledClient
  pending : List Pending
  clock : ℕ
  handed : List (HostConfig × WinRmConnection)

def WinRmPool.empty (clock : ℕ) : WinRmPool := ⟨∅, [], clock, []⟩

inductive Action where
  | getConnection (hostName : Text) (host : HostConfig)
  | finish (i : ℕ)
  | evict (hostName : Text)
  /-- with the instant it read before it had the lock -/
  | cleanup (now : ℕ)
  | closeAll
  | wait (duration : ℕ)

section
variable (maxIdle : ℕ) (refuses : WinrmConfig → WinrmCredentials → Option Text)

def WinRmPool.fresh (pool : WinRmPool) (hostName : Text) : Option WinrmClient :=
  (pool.inner.lookup hostName).bind fun entry =>
    if pool.clock - entry.lastUsed ≤ maxIdle then some entry.client else none

/-- A request up to the point where it waits for the write lock; `none` where the host is refused. -/
def WinRmPool.getConnection (pool : WinRmPool) (hostName : Text) (host : HostConfig) :
    Option Pending :=
  match pool.fresh maxIdle hostName with
  | some client => some ⟨hostName, host, client, true⟩
  | none => (buildWinrmClient refuses host).toOption.map fun client => ⟨hostName, host, client, false⟩

def WinRmPool.finish (pool : WinRmPool) (request : Pending) : WinRmPool :=
  let inner :=
    if request.found then
      match pool.inner.lookup request.hostName with
      | some entry => pool.inner.insert request.hostName { entry with lastUsed := pool.clock }
      | none => pool.inner
    else pool.inner.insert request.hostName ⟨request.client, pool.clock⟩
  { pool with
    inner
    handed := (request.host, ⟨request.host.hostname, request.client⟩) :: pool.handed }

def WinRmPool.step (pool : WinRmPool) : Action → Option WinRmPool
  | .getConnection hostName host =>
    some { pool with
      pending := (pool.getConnection maxIdle refuses hostName host).toList ++ pool.pending }
  | .finish i =>
    pool.pending[i]?.map fun request =>
      { pool with pending := pool.pending.eraseIdx i }.finish request
  | .evict hostName => some { pool with inner := pool.inner.erase hostName }
  | .cleanup now =>
    if now ≤ pool.clock then
      some { pool with inner := retain (fun entry => now - entry.2.lastUsed ≤ maxIdle) pool.inner }
    else none
  | .closeAll => some { pool with inner := ∅ }
  | .wait duration => some { pool with clock := pool.clock + duration }

/-- At a request, a client that is found fresh has the port, user and credentials of the request. -/
def Meets (pool : WinRmPool) : Action → Prop
  | .getConnection hostName host => ∀ client ∈ pool.fresh maxIdle hostName, client.Uses host
  | _ => True

instance (pool : WinRmPool) (action : Action) : Decidable (Meets maxIdle pool action) := by
  unfold Meets
  cases action <;> infer_instance

structure Matching (pool : WinRmPool) : Prop where
  pending : ∀ request ∈ pool.pending, request.client.Uses request.host
  handed : ∀ entry ∈ pool.handed, entry.2.hostName = entry.1.hostname ∧ entry.2.client.Uses entry.1

variable {maxIdle refuses} {pool pool' : WinRmPool}

theorem getConnection_uses {hostName : Text} {request : Pending}
    (hmeets : Meets maxIdle pool (.getConnection hostName host))
    (h : pool.getConnection maxIdle refuses hostName host = some request) :
    request.client.Uses request.host := by
  unfold WinRmPool.getConnection at h
  split at h
  · next client hfresh =>
      cases h
      exact hmeets client hfresh
  · obtain ⟨client, hbuilt, rfl⟩ := Option.map_eq_some_iff.mp h
    cases hresult : buildWinrmClient refuses host with
    | error e =>
      rw [hresult] at hbuilt
      cases hbuilt
    | ok built =>
      rw [hresult] at hbuilt
      cases hbuilt
      exact buildWinrmClient_uses hresult

theorem Matching.step (h : Matching pool) {action : Action} (hmeets : Meets maxIdle pool action)
    (hstep : pool.step maxIdle refuses action = some pool') : Matching pool' := by
  cases action with
  | getConnection hostName host =>
    cases hstep
    refine ⟨?_, h.handed⟩
    intro request hmem
    cases List.mem_append.mp hmem with
    | inl hnew => exact getConnection_uses hmeets (Option.mem_toList.mp hnew)
    | inr hold => exact h.pending request hold
  | finish i =>
    obtain ⟨request, hrequest, rfl⟩ := Option.map_eq_some_iff.mp hstep
    refine ⟨fun other hother => h.pending other (List.mem_of_mem_eraseIdx hother), ?_⟩
    exact List.forall_mem_cons.mpr
      ⟨⟨rfl, h.pending request (List.mem_of_getElem? hrequest)⟩, h.handed⟩
  | cleanup now =>
    simp only [WinRmPool.step] at hstep
    split_ifs at hstep
    cases hstep
    exact ⟨h.pending, h.handed⟩
  | evict hostName | closeAll | wait duration =>
    cases hstep
    exact ⟨h.pending, h.handed⟩

theorem handed_of_meets {clock : ℕ}
    (h : Reaches (WinRmPool.step maxIdle refuses) (Meets maxIdle) (.empty clock) pool) :
    ∀ entry ∈ pool.handed,
      entry.2.hostName = entry.1.hostname ∧ entry.2.client.Uses entry.1 := by
  have hstart : Matching (.empty clock) := by
    constructor <;> exact List.forall_mem_nil _
  have hmatching : Matching pool :=
    h.invariant hstart fun _ _ _ hkept hmeets hstep => hkept.step hmeets hstep
  exact hmatching.handed

theorem handed_of_fresh {hostName : Text} (host : HostConfig) {client : WinrmClient}
    (hfresh : pool.fresh maxIdle hostName = some client) :
    ∃ begun pool', pool.step maxIdle refuses (.getConnection hostName host) = some begun ∧
      begun.step maxIdle refuses (.finish 0) = some pool' ∧
      pool'.handed = (host, ⟨host.hostname, client⟩) :: pool.handed := by
  have hrequest : pool.getConnection maxIdle refuses hostName host =
      some ⟨hostName, host, client, true⟩ := by
    rw [WinRmPool.getConnection, hfresh]
  have hbegun : pool.step maxIdle refuses (.getConnection hostName host) =
      some { pool with pending := ⟨hostName, host, client, true⟩ :: pool.pending } := by
    rw [WinRmPool.step, hrequest]
    rfl
  exact ⟨_, _, hbegun, rfl, rfl⟩

end

end BridgeMcp.Connections.WinRm

namespace BridgeMcp.Connections
open TextLib TransitionLib

/-- While every request for an alias finds only connections of the route it asks for and clients with
its port, user and credentials, each pool hands out what is asked for; a request that finds another
one can get it. -/
theorem pooled_belong (config : SshPool.PoolConfig) (maxIdle : ℕ)
    (refuses : WinRm.WinrmConfig → WinRm.WinrmCredentials → Option Text) :
    (∀ clock pool,
      Reaches (SshPool.ConnectionPool.step config.clamped) (SshPool.Meets config.clamped)
        (.empty clock) pool →
      ∀ entry ∈ pool.handed, entry.2.client = entry.1) ∧
    (∀ pool hostName host jumpHost,
      ¬ SshPool.Meets config.clamped pool (.begin hostName host jumpHost) →
      ∃ begun pool' conn,
        pool.step config.clamped (.begin hostName host jumpHost) = some begun ∧
        Reaches (SshPool.ConnectionPool.step config.clamped) (fun _ _ => True) begun pool' ∧
        pool'.handed = (SshPool.Route.of host jumpHost, conn) :: pool.handed ∧
        conn.client ≠ SshPool.Route.of host jumpHost) ∧
    (∀ clock pool,
      Reaches (WinRm.WinRmPool.step maxIdle refuses) (WinRm.Meets maxIdle) (.empty clock) pool →
      ∀ entry ∈ pool.handed,
        entry.2.hostName = entry.1.hostname ∧ entry.2.client.Uses entry.1) ∧
    ∀ pool hostName host, ¬ WinRm.Meets maxIdle pool (.getConnection hostName host) →
      ∃ begun pool' client,
        pool.step maxIdle refuses (.getConnection hostName host) = some begun ∧
        begun.step maxIdle refuses (.finish 0) = some pool' ∧
        pool'.handed = (host, ⟨host.hostname, client⟩) :: pool.handed ∧
        ¬ client.Uses host := by
  refine ⟨fun _ _ => SshPool.handed_of_meets, ?_, fun _ _ => WinRm.handed_of_meets, ?_⟩
  · intro pool hostName host jumpHost hmeets
    simp only [SshPool.Meets, not_forall] at hmeets
    obtain ⟨conn, hmem, hfresh, hother⟩ := hmeets
    obtain ⟨begun, pool', hbegun, hrun, hhanded⟩ := SshPool.handed_of_fresh host jumpHost hmem hfresh
    exact ⟨begun, pool', _, hbegun, hrun, hhanded, hother⟩
  · intro pool hostName host hmeets
    simp only [WinRm.Meets, not_forall] at hmeets
    obtain ⟨client, hfresh, hother⟩ := hmeets
    obtain ⟨begun, pool', hbegun, hdone, hhanded⟩ := WinRm.handed_of_fresh host hfresh
    exact ⟨begun, pool', client, hbegun, hdone, hhanded, hother⟩

theorem pooled_belong_unchanged :
    (∃ pool, Reaches (SshPool.ConnectionPool.step (SshPool.PoolConfig.clamped ⟨2, 300, 3600⟩))
        (SshPool.Meets (SshPool.PoolConfig.clamped ⟨2, 300, 3600⟩)) (.empty 0) pool ∧
      pool.handed.length = 2 ∧ ∀ entry ∈ pool.handed, entry.2.client = entry.1) ∧
    ∃ pool, Reaches (WinRm.WinRmPool.step 120000000000 fun _ _ => none)
        (WinRm.Meets 120000000000) (.empty 0) pool ∧
      pool.handed.length = 2 ∧ ∀ entry ∈ pool.handed,
        entry.2.hostName = entry.1.hostname ∧ entry.2.client.Uses entry.1 := by
  let host := sampleHost ['a'] ['x']
  have hbelong := pooled_belong ⟨2, 300, 3600⟩ 120000000000 fun _ _ => none
  constructor
  · obtain ⟨pool, hrun, hlength⟩ := exists_reaches
      (SshPool.ConnectionPool.step (SshPool.PoolConfig.clamped ⟨2, 300, 3600⟩))
      (SshPool.Meets (SshPool.PoolConfig.clamped ⟨2, 300, 3600⟩)) (.empty 0)
      (fun pool => pool.handed.length == 2)
      [.begin "web" host none, .conclude 0, .connect 0 true, .drop 0, .giveBack 0,
        .begin "web" host none, .examine 0 true, .conclude 0] rfl
    exact ⟨pool, hrun, beq_iff_eq.mp hlength, hbelong.1 0 pool hrun⟩
  · obtain ⟨pool, hrun, hlength⟩ := exists_reaches
      (WinRm.WinRmPool.step 120000000000 fun _ _ => none) (WinRm.Meets 120000000000) (.empty 0)
      (fun pool => pool.handed.length == 2)
      [.getConnection "web" host, .finish 0, .getConnection "web" host, .finish 0] rfl
    exact ⟨pool, hrun, beq_iff_eq.mp hlength, hbelong.2.2.1 0 pool hrun⟩

/-- The alias `web` is first the host `a` and then the host `b`, with another password. The SSH pool
answers the request for `b` with the connection to `a`; the WinRM pool sends the password of `a` to
`b`. -/
theorem reloaded_alias_keeps_client :
    (∃ pool, Reaches (SshPool.ConnectionPool.step (SshPool.PoolConfig.clamped ⟨2, 300, 3600⟩))
        (fun _ _ => True) (.empty 0) pool ∧
      pool.handed.any (fun entry =>
        entry.1.target.hostname == ['b'] && entry.2.client.target.hostname == ['a']) = true) ∧
    ∃ pool, Reaches (WinRm.WinRmPool.step 120000000000 fun _ _ => none) (fun _ _ => True)
        (.empty 0) pool ∧
      pool.handed.any (fun entry =>
        entry.1.auth == .password ['y'] && entry.2.hostName == ['b'] &&
          entry.2.client.credentials.password == ['x']) = true := by
  let old := sampleHost ['a'] ['x']
  let new := sampleHost ['b'] ['y']
  constructor
  · exact exists_reaches _ _ _ _
      [.begin "web" old none, .conclude 0, .connect 0 true, .drop 0, .giveBack 0,
        .begin "web" new none, .examine 0 true, .conclude 0] rfl
  · exact exists_reaches _ _ _ _
      [.getConnection "web" old, .finish 0, .getConnection "web" new, .finish 0] rfl

end BridgeMcp.Connections
