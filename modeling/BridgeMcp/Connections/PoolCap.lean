import BridgeMcp.Connections.SshPool

/-!
The cap on the idle connections of a host. Only the return of a guard is measured against it: what a
request or a health check took out goes back whatever was returned meanwhile.
-/
namespace BridgeMcp.Connections.SshPool
open TextLib TransitionLib List

def countUnder (entries : List (Text × PooledConnection)) (hostName : Text) : ℕ :=
  (entries.filter fun entry => entry.1 = hostName).length

theorem countUnder_append (front back : List (Text × PooledConnection)) (hostName : Text) :
    countUnder (front ++ back) hostName = countUnder front hostName + countUnder back hostName := by
  rw [countUnder, filter_append, length_append]
  rfl

theorem countUnder_le {entries entries' : List (Text × PooledConnection)}
    (h : entries'.Sublist entries) (hostName : Text) :
    countUnder entries' hostName ≤ countUnder entries hostName :=
  (h.filter _).length_le

theorem countUnder_eq_zero {entries : List (Text × PooledConnection)} {hostName : Text}
    (h : ∀ entry ∈ entries, entry.1 ≠ hostName) : countUnder entries hostName = 0 := by
  rw [countUnder, length_eq_zero_iff, filter_eq_nil_iff]
  intro entry hentry
  simpa using h entry hentry

theorem length_under (pool : ConnectionPool) (hostName : Text) :
    (pool.under hostName).length = countUnder pool.connections hostName :=
  length_map _

def Capped (config : PoolConfig) (pool : ConnectionPool) : Prop :=
  ∀ hostName, (pool.under hostName).length ≤ config.maxConnectionsPerHost

def putBack (pool : ConnectionPool) : Action → List (Text × PooledConnection)
  | .conclude i =>
    match pool.requests[i]? with
    | some request => request.toReturn.map fun conn => (request.hostName, conn)
    | none => []
  | .endHealthCheck i isConnected =>
    match pool.checks[i]? with
    | some check => (check.zipIdx.filter fun entry => isConnected entry.2).map Prod.fst
    | none => []
  | _ => []

/-- The idle connections of a host and those put back for it are no more than configured. -/
def Room (config : PoolConfig) (pool : ConnectionPool) (action : Action) : Prop :=
  ∀ entry ∈ putBack pool action,
    (pool.under entry.1).length + countUnder (putBack pool action) entry.1 ≤
      config.maxConnectionsPerHost

instance (config : PoolConfig) (pool : ConnectionPool) (action : Action) :
    Decidable (Room config pool action) :=
  inferInstanceAs (Decidable (∀ entry ∈ putBack pool action, _))

section
variable {config : PoolConfig} {pool pool' : ConnectionPool} {action : Action}

theorem conclude_connections (i : ℕ) (request : Request) :
    (pool.conclude i request).connections =
      pool.connections ++ request.toReturn.map fun conn => (request.hostName, conn) := by
  unfold ConnectionPool.conclude
  cases request.result <;> rfl

theorem connections_step (hstep : pool.step config action = some pool') :
    (putBack pool action = [] ∧ pool'.connections.Sublist pool.connections) ∨
      (putBack pool action = [] ∧ ∃ hostName conn,
        (pool.under hostName).length < config.maxConnectionsPerHost ∧
          pool'.connections = pool.connections ++ [(hostName, conn)]) ∨
      pool'.connections = pool.connections ++ putBack pool action := by
  cases action with
  | begin hostName host jumpHost =>
    cases hstep
    exact .inl ⟨rfl, filter_sublist⟩
  | conclude i =>
    obtain ⟨request, hrequest, hdone⟩ := Option.bind_eq_some_iff.mp hstep
    split_ifs at hdone
    cases hdone
    refine .inr (.inr ?_)
    rw [conclude_connections, putBack, hrequest]
  | connect i succeeds =>
    obtain ⟨⟨hostName, route⟩, -, rfl⟩ := Option.map_eq_some_iff.mp hstep
    cases succeeds <;> exact .inl ⟨rfl, .refl _⟩
  | giveBack i =>
    obtain ⟨⟨hostName, conn⟩, -, rfl⟩ := Option.map_eq_some_iff.mp hstep
    dsimp only
    split_ifs with hroom
    · exact .inr (.inl ⟨rfl, hostName, conn, hroom, rfl⟩)
    · exact .inl ⟨rfl, .refl _⟩
  | cleanup =>
    cases hstep
    exact .inl ⟨rfl, filter_sublist⟩
  | beginHealthCheck | closeAll =>
    cases hstep
    exact .inl ⟨rfl, nil_sublist _⟩
  | endHealthCheck i isConnected =>
    obtain ⟨check, hcheck, rfl⟩ := Option.map_eq_some_iff.mp hstep
    refine .inr (.inr ?_)
    rw [putBack, hcheck]
  | wait duration =>
    cases hstep
    exact .inl ⟨rfl, .refl _⟩
  | examine i isConnected | exec i | drop i | markFailed i =>
    obtain ⟨_, -, rfl⟩ := Option.map_eq_some_iff.mp hstep
    exact .inl ⟨rfl, .refl _⟩

theorem capped_step_iff (hcapped : Capped config pool)
    (hstep : pool.step config action = some pool') :
    Capped config pool' ↔ Room config pool action := by
  simp only [Capped, Room, length_under] at hcapped ⊢
  obtain ⟨hnone, htaken⟩ | ⟨hnone, name, conn, hroom, hreturned⟩ | hback := connections_step hstep
  · rw [hnone]
    refine iff_of_true (fun hostName => ?_) (forall_mem_nil _)
    exact (countUnder_le htaken hostName).trans (hcapped hostName)
  · rw [hnone, hreturned]
    refine iff_of_true (fun hostName => ?_) (forall_mem_nil _)
    rw [length_under] at hroom
    rw [countUnder_append]
    by_cases hname : name = hostName
    · subst hname
      have hone : countUnder [(name, conn)] name = 1 := by simp [countUnder]
      omega
    · rw [countUnder_eq_zero (forall_mem_singleton.mpr hname)]
      exact hcapped hostName
  · rw [hback]
    constructor
    · intro hafter entry _
      have hentry := hafter entry.1
      rwa [countUnder_append] at hentry
    · intro hroom hostName
      rw [countUnder_append]
      by_cases hput : ∃ entry ∈ putBack pool action, entry.1 = hostName
      · obtain ⟨entry, hentry, rfl⟩ := hput
        exact hroom entry hentry
      · have hnone : ∀ entry ∈ putBack pool action, entry.1 ≠ hostName :=
          fun entry hentry hname => hput ⟨entry, hentry, hname⟩
        rw [countUnder_eq_zero hnone]
        exact hcapped hostName

/-- As long as there is room whenever connections are put back, the pool is within its cap; the
first time there is not, it no longer is. -/
theorem capped_iff_room (config : PoolConfig) (clock : ℕ)
    (h : Reaches (ConnectionPool.step config.clamped) (Room config.clamped) (.empty clock) pool) :
    Capped config.clamped pool ∧
      ∀ action pool', pool.step config.clamped action = some pool' →
        (Capped config.clamped pool' ↔ Room config.clamped pool action) := by
  have hstart : Capped config.clamped (.empty clock) := fun _ => Nat.zero_le _
  have hcapped : Capped config.clamped pool :=
    h.invariant hstart fun _ _ _ hkept hroom hstep => (capped_step_iff hkept hstep).mpr hroom
  exact ⟨hcapped, fun _ _ hstep => capped_step_iff hcapped hstep⟩

theorem capped_iff_room_checked :
    ∃ pool, Reaches (ConnectionPool.step (PoolConfig.clamped ⟨0, 300, 3600⟩))
        (Room (PoolConfig.clamped ⟨0, 300, 3600⟩)) (.empty 0) pool ∧
      pool.connections.length = 1 ∧ Capped (PoolConfig.clamped ⟨0, 300, 3600⟩) pool := by
  let host := sampleHost ['a'] ['x']
  obtain ⟨pool, hrun, hlength⟩ := exists_reaches
    (ConnectionPool.step (PoolConfig.clamped ⟨0, 300, 3600⟩))
    (Room (PoolConfig.clamped ⟨0, 300, 3600⟩)) (.empty 0)
    (fun pool => pool.connections.length == 1)
    [.begin "web" host none, .conclude 0, .connect 0 true, .drop 0, .giveBack 0,
      .beginHealthCheck, .begin "web" host none, .endHealthCheck 0 fun _ => true] rfl
  exact ⟨pool, hrun, beq_iff_eq.mp hlength, (capped_iff_room ⟨0, 300, 3600⟩ 0 hrun).1⟩

/-- With a cap of one, a connection of `web` is returned while a health check holds another one. -/
theorem checked_connection_exceeds_cap :
    ∃ pool, Reaches (ConnectionPool.step (PoolConfig.clamped ⟨1, 300, 3600⟩)) (fun _ _ => True)
        (.empty 0) pool ∧
      (pool.under "web").length = 2 := by
  let host := sampleHost ['a'] ['x']
  obtain ⟨pool, hrun, hlength⟩ := exists_reaches
    (ConnectionPool.step (PoolConfig.clamped ⟨1, 300, 3600⟩)) (fun _ _ => True) (.empty 0)
    (fun pool => (pool.under "web").length == 2)
    [.begin "web" host none, .conclude 0, .connect 0 true,
      .begin "web" host none, .conclude 0, .connect 0 true,
      .drop 0, .giveBack 0, .beginHealthCheck, .drop 0, .giveBack 0,
      .endHealthCheck 0 fun _ => true] rfl
  exact ⟨pool, hrun, beq_iff_eq.mp hlength⟩

end

end BridgeMcp.Connections.SshPool
