import BridgeMcp.Lib.TextScan
import BridgeMcp.Lib.Transition

/-!
Port forwarding (`domain/use_cases/tunnel.rs`, `mcp/tool_handlers/ssh_tunnel_create.rs`): who can end
the task of a listener, from the call that binds it to the drop of the task.
-/
namespace BridgeMcp.Tunnel
open TextLib TransitionLib List

/-- The number tells apart two listeners that have one port after each other. -/
structure Listener where
  serial : ℕ
  host : Text
  localPort : ℕ
  remotePort : ℕ
  deriving DecidableEq

def Listener.tunnelId (l : Listener) : Text :=
  "tunnel-" ++ l.host ++ '-' :: Nat.toDigits 10 l.localPort ++ '-' :: Nat.toDigits 10 l.remotePort

/-- Who has the listener or the handle of its task. A `call` has not spawned the task yet. A task
that was `refused` or `closed` is aborted, not dropped; `nobody` can end a task whose handle was
dropped. -/
inductive Owner where
  | call | register | manager | refused | closed | nobody
  deriving DecidableEq

structure State where
  owner : Listener → Option Owner
  /-- Tasks that an accept error has ended -/
  ended : List Listener
  tunnels : List Listener
  connections : List Listener
  /-- The connections of tunnels that were closed -/
  orphans : List Listener

def State.start : State := ⟨fun _ => none, [], [], [], []⟩

/-- A create call goes from `bind` by `connected` to `register`. It is dropped at one of these awaits,
or cannot connect, in `abandon`, and is dropped at the lock of the manager in `drop`. -/
inductive Action where
  | bind (l : Listener) | connected (l : Listener) | abandon (l : Listener) | register (l : Listener)
  | drop (l : Listener) | close (tunnelId : Text) | closeAll | reap (l : Listener)
  | accept (l : Listener) | acceptError (l : Listener) | hangUp (l : Listener) (closed : Bool)

namespace State

def set (s : State) (l : Listener) (o : Option Owner) : State :=
  { s with owner := Function.update s.owner l o }

/-- Takes the entries with `p` out of the map; their handles end up with `o`. -/
def release (s : State) (p : Listener → Bool) (o : Owner) : State :=
  { s with
    owner := fun l => if l ∈ s.tunnels ∧ p l then (s.owner l).map fun _ => o else s.owner l
    tunnels := s.tunnels.filter fun l => !p l }

def closeWhere (s : State) (p : Listener → Bool) : State :=
  { s.release p .closed with
    connections := s.connections.filter fun l => !(s.tunnels.contains l && p l)
    orphans := s.orphans ++ s.connections.filter fun l => s.tunnels.contains l && p l }

def step (maxTunnels : ℕ) (s : State) : Action → Option State
  | .bind l => if s.owner l = none then some (s.set l (some .call)) else none
  | .connected l => if s.owner l = some .call then some (s.set l (some .register)) else none
  | .abandon l => if s.owner l = some .call then some (s.set l none) else none
  | .register l =>
    if s.owner l = some .register then
      if maxTunnels ≤ s.tunnels.length then some (s.set l (some .refused))
      else
        -- `HashMap::insert` drops the handle of an entry with the same id
        let rest := s.release (·.tunnelId = l.tunnelId) .nobody
        some { rest.set l (some .manager) with tunnels := l :: rest.tunnels }
    else none
  | .drop l => if s.owner l = some .register then some (s.set l (some .nobody)) else none
  | .close tunnelId => some (s.closeWhere (·.tunnelId = tunnelId))
  | .closeAll => some (s.closeWhere fun _ => true)
  | .reap l =>
    if s.owner l = some .refused ∨ s.owner l = some .closed then
      some { s.set l none with ended := s.ended.erase l }
    else none
  | .accept l =>
    if s.owner l = none ∨ s.owner l = some .call ∨ l ∈ s.ended then none
    else if s.owner l = some .closed then some { s with orphans := l :: s.orphans }
    else some { s with connections := l :: s.connections }
  | .acceptError l =>
    if s.owner l = none ∨ s.owner l = some .call ∨ l ∈ s.ended then none
    else some { s with ended := l :: s.ended }
  | .hangUp l true => some { s with orphans := s.orphans.erase l }
  | .hangUp l false => some { s with connections := s.connections.erase l }

def Bound (s : State) (l : Listener) : Prop := (s.owner l).isSome ∧ l ∉ s.ended

/-- The operating system binds a port once. -/
def Binds (s : State) : Action → Prop
  | .bind l => ∀ m, s.Bound m → m.localPort ≠ l.localPort
  | _ => True

/-- No call has started that is not finished, and no aborted task is left. -/
def Finished (s : State) : Prop :=
  ∀ l, s.owner l = none ∨ s.owner l = some .manager ∨ s.owner l = some .nobody

def Clean (maxTunnels : ℕ) (s : State) : Prop :=
  (∀ l, s.Bound l ↔ l ∈ s.tunnels) ∧ s.tunnels.length ≤ maxTunnels ∧ s.orphans = []

/-- A tunnel is closed when it has no connection, no create call is dropped while it waits for the
manager, and accepting never fails. -/
def Calm (s : State) : Action → Prop
  | .drop _ | .acceptError _ => False
  | .close tunnelId => ∀ l ∈ s.tunnels, l.tunnelId = tunnelId → l ∉ s.connections
  | .closeAll => ∀ l ∈ s.tunnels, l ∉ s.connections
  | .accept l => s.owner l ≠ some .closed
  | _ => True

end State
open State

structure Tidy (maxTunnels : ℕ) (s : State) : Prop where
  listed : ∀ l, s.owner l = some .manager ↔ l ∈ s.tunnels
  owned : ∀ l, s.owner l ≠ some .nobody
  once : ∀ l m, (s.owner l).isSome → (s.owner m).isSome → l.localPort = m.localPort → l = m
  alive : s.ended = []
  room : s.tunnels.length ≤ maxTunnels
  quiet : s.orphans = []

variable {maxTunnels : ℕ} {s s' : State} {a : Action} {l m : Listener}

theorem dash_notMem (n : ℕ) : '-' ∉ Nat.toDigits 10 n := by
  intro h
  cases isDigit_toDigits n '-' h

theorem localPort_of_tunnelId (h : l.tunnelId = m.tunnelId) : l.localPort = m.localPort := by
  unfold Listener.tunnelId at h
  have hlast := congrArg (splitLast '-') h
  simp only [splitLast_append (dash_notMem _), Option.some.injEq, Prod.mk.injEq] at hlast
  have hport := congrArg (splitLast '-') hlast.1
  simp only [splitLast_append (dash_notMem _), Option.some.injEq, Prod.mk.injEq] at hport
  have hdigits := congrArg (Nat.ofDigitChars 10 · 0) hport.2
  simpa only [Nat.ofDigitChars_ten_toDigits] using hdigits

theorem Tidy.set (h : Tidy maxTunnels s) {o : Option Owner} (hl : s.owner l ≠ some .manager)
    (ho : o ≠ some .manager ∧ o ≠ some .nobody)
    (hport : o.isSome → (s.owner l).isSome ∨ ∀ m, s.Bound m → m.localPort ≠ l.localPort) :
    Tidy maxTunnels (s.set l o) := by
  obtain ⟨listed, owned, once, alive, room, quiet⟩ := h
  unfold Bound at hport
  unfold State.set
  constructor <;> grind [Function.update_apply]

theorem Tidy.closeWhere (h : Tidy maxTunnels s) {p : Listener → Bool}
    (hidle : ∀ l ∈ s.tunnels, p l → l ∉ s.connections) : Tidy maxTunnels (s.closeWhere p) := by
  obtain ⟨listed, owned, once, alive, room, quiet⟩ := h
  have hnone : (s.connections.filter fun l => s.tunnels.contains l && p l) = [] := by
    grind [filter_eq_nil_iff]
  have hfilter := length_filter_le (fun l => !p l) s.tunnels
  unfold State.closeWhere release
  constructor <;> grind

theorem Tidy.register (h : Tidy maxTunnels s) (hl : s.owner l = some .register)
    (hroom : s.tunnels.length < maxTunnels) :
    Tidy maxTunnels { s.set l (some .manager) with tunnels := l :: s.tunnels } := by
  obtain ⟨listed, owned, once, alive, room, quiet⟩ := h
  unfold State.set
  constructor <;> grind [Function.update_apply]

theorem release_of_none {p : Listener → Bool} {o : Owner} (h : ∀ m ∈ s.tunnels, p m = false) :
    s.release p o = s := by
  have howner : (fun l => if l ∈ s.tunnels ∧ p l then (s.owner l).map fun _ => o else s.owner l) =
      s.owner := by
    funext l
    exact if_neg fun hl => absurd hl.2 (by rw [h l hl.1]; nofun)
  have htunnels : (s.tunnels.filter fun l => !p l) = s.tunnels :=
    filter_eq_self.mpr fun l hl => by rw [h l hl]; rfl
  rw [release, howner, htunnels]

theorem Tidy.step (h : Tidy maxTunnels s) (hb : s.Binds a) (hc : s.Calm a)
    (hs : s.step maxTunnels a = some s') : Tidy maxTunnels s' := by
  cases a with
  | bind l =>
    obtain ⟨hl, hs⟩ := Option.ite_none_right_eq_some.mp hs
    cases hs
    exact h.set (by rw [hl]; nofun) ⟨nofun, nofun⟩ fun _ => .inr hb
  | connected l =>
    obtain ⟨hl, hs⟩ := Option.ite_none_right_eq_some.mp hs
    cases hs
    exact h.set (by rw [hl]; nofun) ⟨nofun, nofun⟩ fun _ => .inl (by rw [hl]; rfl)
  | abandon l =>
    obtain ⟨hl, hs⟩ := Option.ite_none_right_eq_some.mp hs
    cases hs
    exact h.set (by rw [hl]; nofun) ⟨nofun, nofun⟩ nofun
  | register l =>
    obtain ⟨hl, hs⟩ := Option.ite_none_right_eq_some.mp hs
    -- an entry with this id would have the port
    have hnew : ∀ m ∈ s.tunnels, decide (m.tunnelId = l.tunnelId) = false := by
      intro m hm
      refine decide_eq_false fun hid => ?_
      have hmanaged := (h.listed m).mpr hm
      have heq := h.once m l (by rw [hmanaged]; rfl) (by rw [hl]; rfl) (localPort_of_tunnelId hid)
      rw [heq, hl] at hmanaged
      cases hmanaged
    rw [release_of_none hnew] at hs
    split_ifs at hs with hfull
    · cases hs
      exact h.set (by rw [hl]; nofun) ⟨nofun, nofun⟩ fun _ => .inl (by rw [hl]; rfl)
    · cases hs
      exact h.register hl (not_le.mp hfull)
  | drop l => exact hc.elim
  | close tunnelId =>
    cases hs
    exact h.closeWhere fun l hl hid => hc l hl (of_decide_eq_true hid)
  | closeAll =>
    cases hs
    exact h.closeWhere fun l hl _ => hc l hl
  | reap l =>
    obtain ⟨hl, hs⟩ := Option.ite_none_right_eq_some.mp hs
    have hended : s.ended.erase l = (s.set l none).ended := by rw [State.set, h.alive]; rfl
    rw [hended] at hs
    cases hs
    exact h.set (by rcases hl with hl | hl <;> rw [hl] <;> nofun) ⟨nofun, nofun⟩ nofun
  | accept l =>
    simp only [State.step] at hs
    split_ifs at hs with _ hclosed
    · exact absurd hclosed hc
    · cases hs
      exact ⟨h.listed, h.owned, h.once, h.alive, h.room, h.quiet⟩
  | acceptError l => exact hc.elim
  | hangUp l closed =>
    have hquiet : s.orphans.erase l = [] := by rw [h.quiet]; rfl
    cases closed <;> cases hs
    · exact ⟨h.listed, h.owned, h.once, h.alive, h.room, h.quiet⟩
    · exact ⟨h.listed, h.owned, h.once, h.alive, h.room, hquiet⟩

/-- In every calm run, when all calls are finished and no aborted task is left, the listeners are those
of the listed tunnels, no more than allowed, and no connection of a closed tunnel is open. -/
theorem clean_of_calm (maxTunnels : ℕ) (s : State)
    (h : Reaches (step maxTunnels) (fun s a => s.Binds a ∧ s.Calm a) start s)
    (hdone : s.Finished) : s.Clean maxTunnels := by
  have htidy : Tidy maxTunnels s := by
    refine h.invariant ?_ fun s a s' hs ha hstep => hs.step ha.1 ha.2 hstep
    constructor <;> simp [start]
  refine ⟨fun l => ?_, htidy.room, htidy.quiet⟩
  have howned := htidy.owned l
  rw [← htidy.listed, Bound, htidy.alive]
  rcases hdone l with hl | hl | hl <;> simp_all

def web : Listener := ⟨0, "web", 8080, 80⟩

/-- A connection comes and ends before its tunnel is closed and the task is dropped. -/
theorem clean_of_calm_web : ∃ served closed : State,
    served.tunnels = [web] ∧ served.connections = [web] ∧ served.Clean 1 ∧
      closed.tunnels = [] ∧ closed.owner web = none ∧ closed.Clean 1 := by
  have hserved : Reaches (step 1) (fun s a => s.Binds a ∧ s.Calm a) start _ :=
    (((Reaches.refl.tail (a := .bind web) ⟨nofun, trivial⟩ rfl).tail
      (a := .connected web) ⟨trivial, trivial⟩ rfl).tail
      (a := .register web) ⟨trivial, trivial⟩ rfl).tail (a := .accept web) ⟨trivial, nofun⟩ rfl
  have hclosed := ((hserved.tail (a := Action.hangUp web false) ⟨trivial, trivial⟩ rfl).tail
    (a := Action.close web.tunnelId) ⟨trivial, fun _ _ _ => not_mem_nil⟩ rfl).tail
    (a := Action.reap web) ⟨trivial, trivial⟩ rfl
  refine ⟨_, _, rfl, rfl, clean_of_calm 1 _ hserved ?_, rfl, rfl, clean_of_calm 1 _ hclosed ?_⟩
  · intro l
    by_cases hl : l = web <;> simp [State.set, release, start, hl]
  · intro l
    by_cases hl : l = web <;> simp [State.set, closeWhere, release, start, hl]

/-- The connection outlives its tunnel; and the listener outlives a create call that is dropped while
it waits for the manager. -/
theorem closed_tunnel_forwards :
    (∃ s : State, Reaches (step 1) Binds start s ∧ s.Finished ∧ s.orphans = [web] ∧ ¬ s.Clean 1) ∧
    ∃ s : State, Reaches (step 1) Binds start s ∧ s.Finished ∧ s.tunnels = [] ∧ s.Bound web ∧
      ¬ s.Clean 1 := by
  have hregistering : Reaches (step 1) Binds start _ :=
    (Reaches.refl.tail (a := .bind web) nofun rfl).tail (a := .connected web) trivial rfl
  constructor
  · refine ⟨_, (((hregistering.tail (a := Action.register web) trivial rfl).tail
      (a := Action.accept web) trivial rfl).tail (a := Action.close web.tunnelId) trivial rfl).tail
      (a := Action.reap web) trivial rfl, ?_, ?_, ?_⟩
    · intro l
      by_cases hl : l = web <;> simp [State.set, closeWhere, release, start, hl]
    · rfl
    · exact fun h => nomatch h.2.2
  · have hbound : (((start.set web (some .call)).set web (some .register)).set web
        (some .nobody)).Bound web := ⟨rfl, not_mem_nil⟩
    refine ⟨_, hregistering.tail (a := Action.drop web) trivial rfl, ?_, rfl, hbound, ?_⟩
    · intro l
      by_cases hl : l = web <;> simp [State.set, start, hl]
    · exact fun h => nomatch (h.1 web).mp hbound

end BridgeMcp.Tunnel
