import BridgeMcp.Connections.HostConfig
import BridgeMcp.Lib.Transition

/-!
The SSH connection pool (`ssh/pool.rs`) under every interleaving of requests, returns, clean-ups and
health checks. Entries are filed under the alias of a host; the configuration that a request brings
for the alias may be another one each time.
-/
namespace BridgeMcp.Connections.SshPool
open TextLib TransitionLib List Option

/-- The login a connection was made with, and that of the jump host it goes through. -/
structure Route where
  target : Login
  jump : Option Login
  deriving DecidableEq

def Route.of (host : HostConfig) (jumpHost : Option HostConfig) : Route :=
  ⟨host.login, jumpHost.map HostConfig.login⟩

/-- The client is known by its route. Instants are in nanoseconds. -/
structure PooledConnection where
  client : Route
  createdAt : ℕ
  lastUsed : ℕ
  deriving DecidableEq

structure PoolConfig where
  maxConnectionsPerHost : ℕ
  maxIdleSeconds : ℕ
  maxAgeSeconds : ℕ

def PoolConfig.clamped (config : PoolConfig) : PoolConfig :=
  { config with maxConnectionsPerHost := max config.maxConnectionsPerHost 1 }

def PooledConnection.expired (conn : PooledConnection) (config : PoolConfig) (now : ℕ) : Bool :=
  now - conn.lastUsed > config.maxIdleSeconds * 1000000000 ||
    now - conn.createdAt > config.maxAgeSeconds * 1000000000

/-- A `try_get_existing` under way: the candidates it took, those it will put back, and the one it
found. -/
structure Request where
  hostName : Text
  route : Route
  candidates : List PooledConnection
  toReturn : List PooledConnection
  result : Option PooledConnection

/-- The map is a list of its connections, each beside its key. Guards are in the hands of callers;
`returning` are those dropped, whose task has not run yet; `checks` the health checks under way.
`handed` are the connections handed out, each beside the route it was asked for. -/
structure ConnectionPool where
  connections : List (Text × PooledConnection)
  requests : List Request
  connecting : List (Text × Route)
  guards : List (Text × PooledConnection)
  returning : List (Text × PooledConnection)
  checks : List (List (Text × PooledConnection))
  clock : ℕ
  handed : List (Route × PooledConnection)

open ConnectionPool

def ConnectionPool.empty (clock : ℕ) : ConnectionPool := ⟨[], [], [], [], [], [], clock, []⟩

def ConnectionPool.under (pool : ConnectionPool) (hostName : Text) : List PooledConnection :=
  (pool.connections.filter fun entry => entry.1 = hostName).map Prod.snd

inductive Action where
  /-- a request takes the candidates -/
  | begin (hostName : Text) (host : HostConfig) (jumpHost : Option HostConfig)
  /-- a request looks at its next candidate -/
  | examine (i : ℕ) (isConnected : Bool)
  /-- a request has looked at all -/
  | conclude (i : ℕ)
  | connect (i : ℕ) (succeeds : Bool)
  | exec (i : ℕ)
  | drop (i : ℕ)
  | markFailed (i : ℕ)
  /-- the task of a dropped guard -/
  | giveBack (i : ℕ)
  | cleanup
  | beginHealthCheck
  /-- with which of the connections answer -/
  | endHealthCheck (i : ℕ) (isConnected : ℕ → Bool)
  | closeAll
  | wait (duration : ℕ)

def Request.examine (config : PoolConfig) (now : ℕ) (isConnected : Bool) (request : Request) :
    Request :=
  match request.candidates with
  | [] => request
  | conn :: candidates =>
    let request := { request with candidates }
    if request.result.isSome then { request with toReturn := request.toReturn ++ [conn] }
    else if conn.expired config now then request
    else if !isConnected then request
    else { request with result := some { conn with lastUsed := now } }

def ConnectionPool.handOut (pool : ConnectionPool) (hostName : Text) (route : Route)
    (conn : PooledConnection) : ConnectionPool :=
  { pool with
    guards := (hostName, conn) :: pool.guards
    handed := (route, conn) :: pool.handed }

section
variable (config : PoolConfig)

def ConnectionPool.conclude (pool : ConnectionPool) (i : ℕ) (request : Request) : ConnectionPool :=
  let pool := { pool with
    requests := pool.requests.eraseIdx i
    connections := pool.connections ++ request.toReturn.map fun conn => (request.hostName, conn) }
  match request.result with
  | some conn => pool.handOut request.hostName request.route conn
  | none => { pool with connecting := (request.hostName, request.route) :: pool.connecting }

def ConnectionPool.step (pool : ConnectionPool) : Action → Option ConnectionPool
  | .begin hostName host jumpHost =>
    some { pool with
      connections := pool.connections.filter fun entry => entry.1 ≠ hostName
      requests :=
        ⟨hostName, Route.of host jumpHost, pool.under hostName, [], none⟩ :: pool.requests }
  | .examine i isConnected =>
    pool.requests[i]?.map fun request =>
      { pool with
        requests := pool.requests.set i (request.examine config pool.clock isConnected) }
  | .conclude i =>
    pool.requests[i]?.bind fun request =>
      if request.candidates.isEmpty then some (pool.conclude i request) else none
  | .connect i succeeds =>
    pool.connecting[i]?.map fun (hostName, route) =>
      let pool := { pool with connecting := pool.connecting.eraseIdx i }
      if succeeds then pool.handOut hostName route ⟨route, pool.clock, pool.clock⟩ else pool
  | .exec i =>
    pool.guards[i]?.map fun (hostName, conn) =>
      { pool with
        guards := pool.guards.set i (hostName, { conn with lastUsed := pool.clock }) }
  | .drop i =>
    pool.guards[i]?.map fun guard =>
      { pool with guards := pool.guards.eraseIdx i, returning := guard :: pool.returning }
  | .markFailed i =>
    pool.guards[i]?.map fun _ => { pool with guards := pool.guards.eraseIdx i }
  | .giveBack i =>
    pool.returning[i]?.map fun (hostName, conn) =>
      let returned := { pool with returning := pool.returning.eraseIdx i }
      if (pool.under hostName).length < config.maxConnectionsPerHost then
        { returned with connections := pool.connections ++ [(hostName, conn)] }
      else returned
  | .cleanup =>
    some { pool with
      connections := pool.connections.filter fun entry => !entry.2.expired config pool.clock }
  | .beginHealthCheck =>
    some { pool with connections := [], checks := pool.connections :: pool.checks }
  | .endHealthCheck i isConnected =>
    pool.checks[i]?.map fun check =>
      { pool with
        checks := pool.checks.eraseIdx i
        connections := pool.connections ++
          (check.zipIdx.filter fun entry => isConnected entry.2).map Prod.fst }
  | .closeAll => some { pool with connections := [] }
  | .wait duration => some { pool with clock := pool.clock + duration }

/-- At a request, the connections that could be handed out were made by its route. -/
def Meets (pool : ConnectionPool) : Action → Prop
  | .begin hostName host jumpHost => ∀ conn ∈ pool.under hostName,
      conn.expired config pool.clock = false → conn.client = Route.of host jumpHost
  | _ => True

instance (pool : ConnectionPool) (action : Action) : Decidable (Meets config pool action) := by
  unfold Meets
  cases action <;> infer_instance

/-- What a request may still hand out, and what has been handed out, was made by the route asked
for. -/
structure Matching (pool : ConnectionPool) : Prop where
  candidates : ∀ request ∈ pool.requests, ∀ conn ∈ request.candidates,
    conn.expired config pool.clock = false → conn.client = request.route
  result : ∀ request ∈ pool.requests, ∀ conn ∈ request.result, conn.client = request.route
  handed : ∀ entry ∈ pool.handed, entry.2.client = entry.1

variable {config} {pool pool' : ConnectionPool}

variable {now i clock : ℕ}

theorem expired_mono {conn : PooledConnection} {later : ℕ} (hle : now ≤ later)
    (h : conn.expired config later = false) : conn.expired config now = false := by
  simp only [PooledConnection.expired, Bool.or_eq_false_iff, decide_eq_false_iff_not] at h ⊢
  omega

variable {request : Request}

theorem examine_matching {request : Request} {now : ℕ} (isConnected : Bool)
    (hcandidates : ∀ conn ∈ request.candidates, conn.expired config now = false →
      conn.client = request.route)
    (hresult : ∀ conn ∈ request.result, conn.client = request.route) :
    (request.examine config now isConnected).route = request.route ∧
      (request.examine config now isConnected).candidates ⊆ request.candidates ∧
      ∀ conn ∈ (request.examine config now isConnected).result, conn.client = request.route := by
  unfold Request.examine
  split
  · exact ⟨rfl, List.Subset.refl _, hresult⟩
  · rename_i conn candidates hlist
    have hsubset : candidates ⊆ request.candidates := by
      rw [hlist]
      exact subset_cons_self _ _
    dsimp only
    split_ifs with hfound hexpired hdead
    · exact ⟨rfl, hsubset, hresult⟩
    · exact ⟨rfl, hsubset, hresult⟩
    · exact ⟨rfl, hsubset, hresult⟩
    · refine ⟨rfl, hsubset, ?_⟩
      intro found hmem
      cases hmem
      exact hcandidates conn (hlist ▸ mem_cons_self) (Bool.eq_false_iff.mpr hexpired)

theorem forall_mem_set {α : Type*} {p : α → Prop} {l : List α} {a : α} (h : ∀ x ∈ l, p x)
    (ha : p a) : ∀ x ∈ l.set i a, p x := by
  intro x hx
  rcases mem_or_eq_of_mem_set hx with hx | rfl
  · exact h x hx
  · exact ha

theorem Matching.examine (h : Matching config pool) {isConnected : Bool}
    (hrequest : pool.requests[i]? = some request) :
    Matching config { pool with
      requests := pool.requests.set i (request.examine config pool.clock isConnected) } := by
  have hmem := mem_of_getElem? hrequest
  obtain ⟨hroute, hsubset, hresult⟩ := examine_matching isConnected
    (h.candidates request hmem) (h.result request hmem)
  rw [← hroute] at hresult
  refine ⟨forall_mem_set h.candidates ?_, forall_mem_set h.result hresult, h.handed⟩
  intro conn hconn
  rw [hroute]
  exact h.candidates request hmem conn (hsubset hconn)

theorem Matching.conclude (h : Matching config pool) (hrequest : pool.requests[i]? = some request) :
    Matching config (pool.conclude i request) := by
  have hold : ∀ other ∈ pool.requests.eraseIdx i, other ∈ pool.requests :=
    fun other hother => mem_of_mem_eraseIdx hother
  have hcandidates := fun other hother => h.candidates other (hold other hother)
  have hresult := fun other hother => h.result other (hold other hother)
  unfold ConnectionPool.conclude
  cases hfound : request.result with
  | none => exact ⟨hcandidates, hresult, h.handed⟩
  | some conn =>
    refine ⟨hcandidates, hresult, ?_⟩
    exact forall_mem_cons.mpr
      ⟨h.result request (mem_of_getElem? hrequest) conn hfound, h.handed⟩

theorem Matching.step (h : Matching config pool) {action : Action} (hmeets : Meets config pool action)
    (hstep : pool.step config action = some pool') : Matching config pool' := by
  cases action with
  | begin hostName host jumpHost =>
    cases hstep
    refine ⟨?_, ?_, h.handed⟩
    · exact forall_mem_cons.mpr ⟨hmeets, h.candidates⟩
    · exact forall_mem_cons.mpr ⟨nofun, h.result⟩
  | examine i isConnected =>
    obtain ⟨request, hrequest, rfl⟩ := map_eq_some_iff.mp hstep
    exact h.examine hrequest
  | conclude i =>
    obtain ⟨request, hrequest, hdone⟩ := bind_eq_some_iff.mp hstep
    split_ifs at hdone
    cases hdone
    exact h.conclude hrequest
  | connect i succeeds =>
    obtain ⟨⟨hostName, route⟩, -, rfl⟩ := map_eq_some_iff.mp hstep
    cases succeeds with
    | false => exact { h with }
    | true => exact { h with handed := forall_mem_cons.mpr ⟨rfl, h.handed⟩ }
  | giveBack i =>
    obtain ⟨⟨hostName, conn⟩, -, rfl⟩ := map_eq_some_iff.mp hstep
    dsimp only
    split_ifs <;> exact { h with }
  | wait duration =>
    cases hstep
    refine ⟨?_, h.result, h.handed⟩
    intro request hrequest conn hconn hfresh
    exact h.candidates request hrequest conn hconn (expired_mono (Nat.le_add_right _ _) hfresh)
  | exec i | drop i | markFailed i | endHealthCheck i isConnected =>
    obtain ⟨_, -, rfl⟩ := map_eq_some_iff.mp hstep
    exact { h with }
  | cleanup | beginHealthCheck | closeAll =>
    cases hstep
    exact { h with }

theorem handed_of_meets
    (h : Reaches (step config) (Meets config) (.empty clock) pool) :
    ∀ entry ∈ pool.handed, entry.2.client = entry.1 := by
  have hstart : Matching config (.empty clock) := by
    constructor <;> exact forall_mem_nil _
  have hmatching : Matching config pool :=
    h.invariant hstart fun _ _ _ hkept hmeets hstep => hkept.step hmeets hstep
  exact hmatching.handed

def Request.examineAll (config : PoolConfig) (now : ℕ) (answers : List Bool) (request : Request) :
    Request :=
  answers.foldl (fun request isConnected => request.examine config now isConnected) request

theorem examineAll_reaches (pool : ConnectionPool) (answers : List Bool) {requests : List Request}
    (hrequests : pool.requests = request :: requests) :
    Reaches (step config) (fun _ _ => True) pool
      { pool with requests := request.examineAll config pool.clock answers :: requests } := by
  induction answers generalizing pool request with
  | nil =>
    rw [Request.examineAll, foldl_nil, ← hrequests]
    exact .refl
  | cons isConnected answers ih =>
    have hstep : pool.step config (.examine 0 isConnected) =
        some { pool with requests := request.examine config pool.clock isConnected :: requests } := by
      simp only [step, hrequests, getElem?_cons_zero, map_some,
        set_cons_zero]
    exact (Reaches.refl.tail trivial hstep).trans (ih _ rfl)

theorem examineAll_append (now : ℕ) (first second : List Bool) (request : Request) :
    request.examineAll config now (first ++ second) =
      (request.examineAll config now first).examineAll config now second :=
  foldl_append

theorem examineAll_dead (now : ℕ) {dead rest : List PooledConnection}
    (hcandidates : request.candidates = dead ++ rest) (hresult : request.result = none) :
    request.examineAll config now (replicate dead.length false) =
      { request with candidates := rest } := by
  induction dead generalizing request with
  | nil =>
    rw [nil_append] at hcandidates
    rw [← hcandidates]
    rfl
  | cons conn dead ih =>
    have hnext : request.examine config now false = { request with candidates := dead ++ rest } := by
      unfold Request.examine
      rw [hcandidates]
      simp [hresult]
    rw [length_cons, replicate_succ, Request.examineAll, foldl_cons, hnext]
    exact ih rfl hresult

theorem examineAll_found {rest : List PooledConnection} (hcandidates : request.candidates = rest)
    (hresult : request.result.isSome) :
    request.examineAll config now (replicate rest.length false) =
      { request with candidates := [], toReturn := request.toReturn ++ rest } := by
  induction rest generalizing request with
  | nil =>
    cases request
    cases hcandidates
    rw [append_nil]
    rfl
  | cons conn rest ih =>
    have hnext : request.examine config now false =
        { request with candidates := rest, toReturn := request.toReturn ++ [conn] } := by
      unfold Request.examine
      rw [hcandidates]
      simp [hresult]
    have hrest : Request.examineAll config now (replicate rest.length false)
        { request with candidates := rest, toReturn := request.toReturn ++ [conn] } = _ :=
      ih rfl hresult
    rw [append_assoc, singleton_append] at hrest
    rw [length_cons, replicate_succ, Request.examineAll, foldl_cons, hnext]
    exact hrest

theorem handed_of_fresh {hostName : Text} (host : HostConfig) (jumpHost : Option HostConfig)
    {conn : PooledConnection} (hmem : conn ∈ pool.under hostName)
    (hfresh : conn.expired config pool.clock = false) :
    ∃ begun pool', pool.step config (.begin hostName host jumpHost) = some begun ∧
      Reaches (step config) (fun _ _ => True) begun pool' ∧
      pool'.handed =
        (Route.of host jumpHost, { conn with lastUsed := pool.clock }) :: pool.handed := by
  obtain ⟨dead, rest, hunder⟩ := append_of_mem hmem
  let request : Request := ⟨hostName, Route.of host jumpHost, pool.under hostName, [], none⟩
  let begun : ConnectionPool := { pool with
    connections := pool.connections.filter fun entry => entry.1 ≠ hostName
    requests := request :: pool.requests }
  -- the connections before it do not answer, it does
  let answers := replicate dead.length false ++ true :: replicate rest.length false
  let answered : Request := { request with
    candidates := [], toReturn := rest, result := some { conn with lastUsed := pool.clock } }
  have hanswered : request.examineAll config pool.clock answers = answered := by
    rw [examineAll_append, examineAll_dead pool.clock hunder rfl, Request.examineAll,
      foldl_cons]
    simp only [Request.examine, request, hfresh]
    exact examineAll_found rfl rfl
  have hexamined : Reaches (step config) (fun _ _ => True) begun
      { begun with requests := answered :: pool.requests } := by
    rw [← hanswered]
    exact examineAll_reaches begun answers rfl
  have hconclude : ({ begun with requests := answered :: pool.requests } : ConnectionPool).step config
      (.conclude 0) =
        some (({ begun with requests := answered :: pool.requests } : ConnectionPool).conclude 0
          answered) := rfl
  exact ⟨begun, _, rfl, hexamined.tail trivial hconclude, rfl⟩

structure Request.Filed (P : Text → Route → Prop) (request : Request) : Prop where
  route : P request.hostName request.route
  candidates : ∀ conn ∈ request.candidates, P request.hostName conn.client
  toReturn : ∀ conn ∈ request.toReturn, P request.hostName conn.client
  result : ∀ conn ∈ request.result, P request.hostName conn.client

structure Filed (P : Text → Route → Prop) (pool : ConnectionPool) : Prop where
  connections : ∀ entry ∈ pool.connections, P entry.1 entry.2.client
  requests : ∀ request ∈ pool.requests, request.Filed P
  connecting : ∀ entry ∈ pool.connecting, P entry.1 entry.2
  guards : ∀ entry ∈ pool.guards, P entry.1 entry.2.client
  returning : ∀ entry ∈ pool.returning, P entry.1 entry.2.client
  checks : ∀ check ∈ pool.checks, ∀ entry ∈ check, P entry.1 entry.2.client

variable {P : Text → Route → Prop}

theorem Request.Filed.examine (h : request.Filed P) (now : ℕ) (isConnected : Bool) :
    (request.examine config now isConnected).Filed P := by
  unfold Request.examine
  split
  · exact h
  · rename_i conn candidates hlist
    have hcandidates := h.candidates
    rw [hlist] at hcandidates
    obtain ⟨hconn, hrest⟩ := forall_mem_cons.mp hcandidates
    dsimp only
    split_ifs
    · exact { h with
        candidates := hrest
        toReturn := forall_mem_append.mpr
          ⟨h.toReturn, forall_mem_singleton.mpr hconn⟩ }
    · exact { h with candidates := hrest }
    · exact { h with candidates := hrest }
    · exact { h with candidates := hrest, result := fun _ hfound => some.inj hfound ▸ hconn }

theorem Filed.conclude (h : Filed P pool) (hrequest : pool.requests[i]? = some request) :
    Filed P (pool.conclude i request) := by
  have hfiled := h.requests request (mem_of_getElem? hrequest)
  have hrequests : ∀ other ∈ pool.requests.eraseIdx i, other.Filed P :=
    fun other hother => h.requests other (mem_of_mem_eraseIdx hother)
  have hconnections : ∀ entry ∈ pool.connections ++
      request.toReturn.map (fun conn => (request.hostName, conn)), P entry.1 entry.2.client := by
    refine forall_mem_append.mpr ⟨h.connections, ?_⟩
    exact forall_mem_map.mpr hfiled.toReturn
  unfold ConnectionPool.conclude
  cases hfound : request.result with
  | none =>
    exact { h with
      connections := hconnections
      requests := hrequests
      connecting := forall_mem_cons.mpr ⟨hfiled.route, h.connecting⟩ }
  | some conn =>
    exact { h with
      connections := hconnections
      requests := hrequests
      guards := forall_mem_cons.mpr ⟨hfiled.result conn hfound, h.guards⟩ }

theorem Filed.step (h : Filed P pool) {action : Action}
    (hbegin : ∀ hostName host jumpHost, action = .begin hostName host jumpHost →
      P hostName (Route.of host jumpHost))
    (hstep : pool.step config action = some pool') : Filed P pool' := by
  cases action with
  | begin hostName host jumpHost =>
    cases hstep
    have hunder : ∀ conn ∈ pool.under hostName, P hostName conn.client := by
      intro conn hconn
      obtain ⟨entry, hentry, rfl⟩ := mem_map.mp hconn
      obtain ⟨hmem, hname⟩ := mem_filter.mp hentry
      exact of_decide_eq_true hname ▸ h.connections entry hmem
    have hrequest : Request.Filed P
        ⟨hostName, Route.of host jumpHost, pool.under hostName, [], none⟩ :=
      ⟨hbegin _ _ _ rfl, hunder, forall_mem_nil _, nofun⟩
    exact { h with
      connections := fun entry hentry => h.connections entry (mem_of_mem_filter hentry)
      requests := forall_mem_cons.mpr ⟨hrequest, h.requests⟩ }
  | examine i isConnected =>
    obtain ⟨request, hrequest, rfl⟩ := map_eq_some_iff.mp hstep
    have hfiled := h.requests request (mem_of_getElem? hrequest)
    exact { h with requests := forall_mem_set h.requests (hfiled.examine _ _) }
  | conclude i =>
    obtain ⟨request, hrequest, hdone⟩ := bind_eq_some_iff.mp hstep
    split_ifs at hdone
    cases hdone
    exact h.conclude hrequest
  | connect i succeeds =>
    obtain ⟨⟨hostName, route⟩, hentry, rfl⟩ := map_eq_some_iff.mp hstep
    have hroute := h.connecting _ (mem_of_getElem? hentry)
    have hconnecting := fun entry hentry =>
      h.connecting entry (mem_of_mem_eraseIdx (i := i) hentry)
    cases succeeds with
    | false => exact { h with connecting := hconnecting }
    | true =>
      exact { h with
        connecting := hconnecting
        guards := forall_mem_cons.mpr ⟨hroute, h.guards⟩ }
  | exec i =>
    obtain ⟨⟨hostName, conn⟩, hentry, rfl⟩ := map_eq_some_iff.mp hstep
    have hguard := h.guards (hostName, conn) (mem_of_getElem? hentry)
    exact { h with guards := forall_mem_set h.guards hguard }
  | drop i =>
    obtain ⟨guard, hentry, rfl⟩ := map_eq_some_iff.mp hstep
    have hguard := h.guards guard (mem_of_getElem? hentry)
    exact { h with
      guards := fun entry hmem => h.guards entry (mem_of_mem_eraseIdx hmem)
      returning := forall_mem_cons.mpr ⟨hguard, h.returning⟩ }
  | markFailed i =>
    obtain ⟨guard, -, rfl⟩ := map_eq_some_iff.mp hstep
    exact { h with guards := fun entry hmem => h.guards entry (mem_of_mem_eraseIdx hmem) }
  | giveBack i =>
    obtain ⟨⟨hostName, conn⟩, hentry, rfl⟩ := map_eq_some_iff.mp hstep
    have hconn := h.returning _ (mem_of_getElem? hentry)
    have hreturning := fun entry hmem =>
      h.returning entry (mem_of_mem_eraseIdx (i := i) hmem)
    dsimp only
    split_ifs
    · exact { h with
        connections := forall_mem_append.mpr
          ⟨h.connections, forall_mem_singleton.mpr hconn⟩
        returning := hreturning }
    · exact { h with returning := hreturning }
  | cleanup =>
    cases hstep
    exact { h with
      connections := fun entry hmem => h.connections entry (mem_of_mem_filter hmem) }
  | beginHealthCheck =>
    cases hstep
    exact { h with
      connections := forall_mem_nil _
      checks := forall_mem_cons.mpr ⟨h.connections, h.checks⟩ }
  | endHealthCheck i isConnected =>
    obtain ⟨check, hentry, rfl⟩ := map_eq_some_iff.mp hstep
    have hcheck := h.checks check (mem_of_getElem? hentry)
    exact { h with
      connections := forall_mem_append.mpr ⟨h.connections, forall_mem_map.mpr
        fun _ hindexed => hcheck _ (fst_mem_of_mem_zipIdx (mem_of_mem_filter hindexed))⟩
      checks := fun other hother => h.checks other (mem_of_mem_eraseIdx hother) }
  | closeAll =>
    cases hstep
    exact { h with connections := forall_mem_nil _ }
  | wait duration =>
    cases hstep
    exact { h with }

theorem guards_of_begins {clock : ℕ}
    (h : Reaches (step config)
      (fun _ action => ∀ hostName host jumpHost, action = .begin hostName host jumpHost →
        P hostName (Route.of host jumpHost)) (.empty clock) pool) :
    ∀ entry ∈ pool.guards, P entry.1 entry.2.client := by
  have hstart : Filed P (.empty clock) := by
    constructor <;> exact forall_mem_nil _
  have hfiled : Filed P pool :=
    h.invariant hstart fun _ _ _ hkept hbegin hstep => hkept.step hbegin hstep
  exact hfiled.guards

end

end BridgeMcp.Connections.SshPool
