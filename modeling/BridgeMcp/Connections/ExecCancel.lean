import BridgeMcp.Lib.Text
import BridgeMcp.Lib.Transition

/-!
Cancelling a call while its command runs on a pooled connection. Two `select!`s race the cancel
token: the biased one around the command, which marks the connection as failed, and, for a task, the
worker's own around the whole handler, which drops it. A call over HTTP has no token; its handler is
dropped by the request timeout or when the client leaves.
-/
namespace BridgeMcp.Connections.ExecCancel
open TextLib TransitionLib List Option

/-- Where a connection is. `executing` is in the guard of a call, its command under way;
`returning` is a dropped guard whose task has not run yet. -/
inductive Place where
  | idle
  | executing (call : ℕ)
  | returning
  | closed
  deriving DecidableEq

/-- `cut` says that a command on it ended with its call and not by itself. -/
structure Connection where
  host : Text
  place : Place
  cut : Bool
  deriving DecidableEq

/-- `token` says whether the cancel token has fired; only a call over HTTP has none. -/
structure Call where
  host : Text
  token : Option Bool
  worker : Bool
  ended : Bool
  deriving DecidableEq

structure State where
  connections : List Connection := []
  calls : List Call := []

inductive ExecPoll where
  | pending
  | done
  | failed (retried : Bool)
  deriving DecidableEq

inductive Action where
  | call (host : Text) (token worker : Bool)
  | fire (i : ℕ)
  /-- `get_connection_with_jump`, with a connection of the pool or a new one -/
  | reuse (i k : ℕ)
  | connect (i : ℕ)
  /-- the handler of the call that holds the connection is polled -/
  | poll (k : ℕ) (result : ExecPoll)
  /-- the worker's `select!` finds the token fired -/
  | outer (k : ℕ)
  /-- the HTTP request of the call is dropped -/
  | drop (k : ℕ)
  /-- the task of a dropped guard -/
  | giveBack (k : ℕ)
  /-- a clean-up, a health check or an expired candidate -/
  | evict (k : ℕ)
  deriving DecidableEq

def State.idleUnder (s : State) (host : Text) : ℕ :=
  s.connections.countP fun c => c.host = host && c.place = .idle

def State.setConnection (s : State) (k : ℕ) (c : Connection) : State :=
  { s with connections := s.connections.set k c }

def State.endCall (s : State) (i : ℕ) (call : Call) : State :=
  { s with calls := s.calls.set i { call with ended := true } }

/-- The arm of the retry closure: the token first, then the command. -/
def State.pollExec (s : State) (k i : ℕ) (c : Connection) (call : Call) (result : ExecPoll) :
    State :=
  let markFailed := s.setConnection k { c with place := .closed, cut := true }
  if call.token = some true then markFailed.endCall i call
  else
    match result with
    | .pending => s
    | .done => (s.setConnection k { c with place := .returning }).endCall i call
    | .failed true => markFailed
    | .failed false => markFailed.endCall i call

/-- The handler is dropped while its command runs, and with it the guard. -/
def State.dropHandler (s : State) (k : ℕ) (droppable : Call → Bool) : Option State :=
  s.connections[k]?.bind fun c =>
    match c.place with
    | .executing i => s.calls[i]?.bind fun call =>
      if droppable call then
        some ((s.setConnection k { c with place := .returning, cut := true }).endCall i call)
      else none
    | _ => none

def State.step (maxPerHost : ℕ) (s : State) : Action → Option State
  | .call host token worker =>
    some { s with
      calls := s.calls ++ [⟨host, if token || worker then some false else none, worker, false⟩] }
  | .fire i =>
    s.calls[i]?.bind fun call =>
      call.token.map fun _ => { s with calls := s.calls.set i { call with token := some true } }
  | .reuse i k =>
    s.calls[i]?.bind fun call => s.connections[k]?.bind fun c =>
      if c.place = .idle ∧ c.host = call.host ∧ call.ended = false then
        some (s.setConnection k { c with place := .executing i })
      else none
  | .connect i =>
    s.calls[i]?.bind fun call =>
      if call.ended = false then
        some { s with connections := s.connections ++ [⟨call.host, .executing i, false⟩] }
      else none
  | .poll k result =>
    s.connections[k]?.bind fun c =>
      match c.place with
      | .executing i => s.calls[i]?.map fun call => s.pollExec k i c call result
      | _ => none
  | .outer k => s.dropHandler k fun call => call.worker && call.token == some true
  | .drop k => s.dropHandler k fun call => call.token == none
  | .giveBack k =>
    s.connections[k]?.bind fun c =>
      if c.place = .returning then
        some (s.setConnection k { c with
          place := if s.idleUnder c.host < maxPerHost then .idle else .closed })
      else none
  | .evict k =>
    s.connections[k]?.bind fun c =>
      if c.place = .idle then some (s.setConnection k { c with place := .closed }) else none

/-- A connection whose command was cut short is closed: not in the pool, and in nobody's hands. -/
def NeverReused (s : State) : Prop :=
  ∀ c ∈ s.connections, c.cut = true → c.place = .closed

/-- The worker's `select!` never finds the token fired before the handler's own does, and no request
is dropped while its command runs. -/
def HandlerFirst (_ : State) (a : Action) : Prop :=
  ∀ k, a ≠ .outer k ∧ a ≠ .drop k

variable {maxPerHost k : ℕ} {s s' : State} {a : Action} {c d : Connection}

theorem NeverReused.set (h : NeverReused s) (hd : d.cut = true → d.place = .closed) :
    NeverReused (s.setConnection k d) := by
  intro c hc
  obtain hc | rfl := mem_or_eq_of_mem_set hc
  · exact h c hc
  · exact hd

theorem NeverReused.move (h : NeverReused s) (hc : s.connections[k]? = some c)
    (hplace : c.place ≠ .closed) (place : Place) :
    NeverReused (s.setConnection k { c with place := place }) :=
  h.set fun hcut => absurd (h c (mem_of_getElem? hc) hcut) hplace

theorem NeverReused.step (h : NeverReused s) (ha : HandlerFirst s a)
    (hstep : s.step maxPerHost a = some s') : NeverReused s' := by
  cases a with
  | call host token worker =>
    cases hstep
    exact h
  | fire i =>
    obtain ⟨call, -, hcall⟩ := bind_eq_some_iff.mp hstep
    obtain ⟨_, -, rfl⟩ := map_eq_some_iff.mp hcall
    exact h
  | reuse i k =>
    obtain ⟨call, -, hcall⟩ := bind_eq_some_iff.mp hstep
    obtain ⟨c, hc, hnext⟩ := bind_eq_some_iff.mp hcall
    split_ifs at hnext with hidle
    cases hnext
    exact h.move hc (by rw [hidle.1]; nofun) _
  | connect i =>
    obtain ⟨call, -, hnext⟩ := bind_eq_some_iff.mp hstep
    split_ifs at hnext
    cases hnext
    intro c hc
    obtain hc | hc := mem_append.mp hc
    · exact h c hc
    · cases mem_singleton.mp hc
      nofun
  | poll k result =>
    obtain ⟨c, hc, hcall⟩ := bind_eq_some_iff.mp hstep
    split at hcall
    · next i hplace =>
      obtain ⟨call, -, rfl⟩ := map_eq_some_iff.mp hcall
      have hfailed := h.set (k := k) (d := { c with place := .closed, cut := true }) fun _ => rfl
      unfold State.pollExec
      dsimp only
      split_ifs
      · exact hfailed
      · split
        · exact h
        · exact h.move hc (by rw [hplace]; nofun) _
        · exact hfailed
        · exact hfailed
    · cases hcall
  | outer k => exact absurd rfl (ha k).1
  | drop k => exact absurd rfl (ha k).2
  | giveBack k =>
    obtain ⟨c, hc, hnext⟩ := bind_eq_some_iff.mp hstep
    by_cases hplace : c.place = .returning
    · rw [if_pos hplace] at hnext
      cases hnext
      exact h.move hc (by rw [hplace]; nofun) _
    · rw [if_neg hplace] at hnext
      cases hnext
  | evict k =>
    obtain ⟨c, hc, hnext⟩ := bind_eq_some_iff.mp hstep
    split_ifs at hnext
    cases hnext
    exact h.set fun _ => rfl

/-- Whatever calls, cancellations, returns and evictions come in whatever order: as long as the
worker's `select!` leaves the fired token to the handler, and no request is dropped while its command
runs, no connection whose command was cut short is in the pool or handed out again. -/
theorem never_reused_of_handlerFirst (maxPerHost : ℕ) (s : State)
    (h : Reaches (State.step maxPerHost) HandlerFirst {} s) : NeverReused s := by
  have hstart : NeverReused {} := fun _ hc => absurd hc not_mem_nil
  exact h.invariant hstart fun _ _ _ hkept ha hstep => hkept.step ha hstep

instance (s : State) (a : Action) : Decidable (HandlerFirst s a) :=
  match a with
  | .outer k => isFalse fun h => (h k).1 rfl
  | .drop k => isFalse fun h => (h k).2 rfl
  | .call .. | .fire _ | .reuse .. | .connect _ | .poll .. | .giveBack _ | .evict _ =>
    isTrue fun _ => ⟨nofun, nofun⟩

theorem never_reused_cancelled_task :
    ∃ s, Reaches (State.step 2) HandlerFirst {} s ∧
      s.connections = [⟨['h'], .closed, true⟩] ∧ NeverReused s := by
  obtain ⟨s, hrun, hs⟩ := exists_reaches (State.step 2) HandlerFirst {}
    (fun s => s.connections == [⟨['h'], .closed, true⟩])
    [.call ['h'] true true, .connect 0, .poll 0 .pending, .fire 0, .poll 0 .pending] (by decide)
  exact ⟨s, hrun, beq_iff_eq.mp hs, never_reused_of_handlerFirst 2 s hrun⟩

/-- The worker sees the token first, or the request of a call over HTTP is dropped: the next call gets
the connection with its command under way. -/
theorem cut_connection_handed_out :
    (∃ s, Reaches (State.step 2) (fun s a => HandlerFirst s a ∨ a = .outer 0) {} s ∧
      s.connections = [⟨['h'], .executing 1, true⟩]) ∧
    ∃ s, Reaches (State.step 2) (fun s a => HandlerFirst s a ∨ a = .drop 0) {} s ∧
      s.connections = [⟨['h'], .executing 1, true⟩] := by
  constructor
  · obtain ⟨s, hrun, hs⟩ := exists_reaches (State.step 2)
      (fun s a => HandlerFirst s a ∨ a = .outer 0) {}
      (fun s => s.connections == [⟨['h'], .executing 1, true⟩])
      [.call ['h'] true true, .connect 0, .poll 0 .pending, .fire 0, .outer 0, .giveBack 0,
        .call ['h'] true false, .reuse 1 0] (by decide)
    exact ⟨s, hrun, beq_iff_eq.mp hs⟩
  · obtain ⟨s, hrun, hs⟩ := exists_reaches (State.step 2)
      (fun s a => HandlerFirst s a ∨ a = .drop 0) {}
      (fun s => s.connections == [⟨['h'], .executing 1, true⟩])
      [.call ['h'] false false, .connect 0, .poll 0 .pending, .drop 0, .giveBack 0,
        .call ['h'] true false, .reuse 1 0] (by decide)
    exact ⟨s, hrun, beq_iff_eq.mp hs⟩

end BridgeMcp.Connections.ExecCancel
