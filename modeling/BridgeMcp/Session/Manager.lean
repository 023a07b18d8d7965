import Mathlib.Algebra.GroupWithZero.Nat
import Mathlib.Data.List.AList
import BridgeMcp.Lib.Text
import BridgeMcp.Lib.Transition

/-!
The session manager (`ssh/session.rs`): concurrent calls of `create`, `exec`, `close`,
`close_all` and `cleanup` over one map of sessions behind one asynchronous mutex.

A call is a task. It runs from one scheduling point to the next: a lock it has to acquire, or an
await on the network. What the network answers there is an input of the step.
-/
namespace BridgeMcp.Session
open TextLib TransitionLib List

structure SessionConfig where
  maxSessions : ℕ
  idleTimeoutSeconds : ℕ
  maxAgeSeconds : ℕ

/-- The 122 random bits of a version 4 UUID; its text form is not needed here. -/
abbrev SessionId := ℕ

inductive ReapReason where
  | idleTimeout
  | maxAge
  | shutdown
  | shellClosedWhileDraining
  | channelWriteFailed
  | shellGone
  deriving DecidableEq

inductive ExecFault where
  | shellClosed
  | closedWhileDraining
  | earlierUnfinished
  | sendFailed
  deriving DecidableEq

inductive BridgeError where
  | tooManySessions (max : ℕ)
  | sessionNotFound (id : SessionId)
  | sessionExpired (id : SessionId)
  | mcpInvalidRequest
  | sshExec (fault : ExecFault)
  | sshTimeout (seconds : ℕ)
  | sshConnection
  deriving DecidableEq

/-- Only an expired deadline leaves it open whether the shell is still there. -/
def readErrorProvesShellIsGone : BridgeError → Bool
  | .sshTimeout _ => false
  | _ => true

def nanosPerSecond : ℕ := 1000000000

/-- Durations are in nanoseconds. `max_age` wins a tie. -/
def expiryReason (idle age : ℕ) (config : SessionConfig) : Option ReapReason :=
  if nanosPerSecond * config.maxAgeSeconds < age then some .maxAge
  else if nanosPerSecond * config.idleTimeoutSeconds < idle then some .idleTimeout
  else none

structure ShellSession where
  host : Text
  createdAt : ℕ
  lastUsed : ℕ
  deriving DecidableEq

structure AuditLine where
  reason : ReapReason
  sessionId : SessionId
  host : Text
  lifetime : ℕ
  deriving DecidableEq

structure SessionManager where
  config : SessionConfig
  sessions : AList (fun _ : SessionId => ShellSession)
  audit : List AuditLine

namespace SessionManager

def new (config : SessionConfig) : SessionManager := ⟨config, ∅, []⟩

def sessionCount (m : SessionManager) : ℕ := m.sessions.entries.length

def auditDestroyed (m : SessionManager) (now : ℕ) (reason : ReapReason) (id : SessionId)
    (session : ShellSession) : SessionManager :=
  { m with audit := m.audit ++ [⟨reason, id, session.host, now - session.createdAt⟩] }

/-- The map update of `remove_dead_session`; the close it then awaits is a point of its own. -/
def removeDeadSession (m : SessionManager) (now : ℕ) (id : SessionId) (reason : ReapReason) :
    SessionManager :=
  match m.sessions.lookup id with
  | some dead => { m with sessions := m.sessions.erase id }.auditDestroyed now reason id dead
  | none => m

def touch (m : SessionManager) (now : ℕ) (id : SessionId) : SessionManager :=
  match m.sessions.lookup id with
  | some session => { m with sessions := m.sessions.replace id { session with lastUsed := now } }
  | none => m

def expiredIds (m : SessionManager) (now : ℕ) : List (SessionId × ReapReason) :=
  m.sessions.entries.filterMap fun entry =>
    (expiryReason (now - entry.2.lastUsed) (now - entry.2.createdAt) m.config).map (entry.1, ·)

end SessionManager

inductive Operation where
  /-- The host, and the UUID the call draws. -/
  | create (host : Text) (id : SessionId)
  /-- The session, and whether the command runs `exit` in the session's own shell. -/
  | exec (id : SessionId) (endsSession : Bool)
  | close (id : SessionId)
  | closeAll
  | cleanup

/-- The scheduling point a call waits at. -/
inductive Task where
  | start (operation : Operation)
  -- create
  | connecting (host : Text) (id : SessionId)
  | initializing (host : Text) (id : SessionId)
  | closingUninitialized (error : BridgeError)
  | inserting (host : Text) (id : SessionId) (createdAt : ℕ)
  -- exec
  | draining (id : SessionId)
  | sending (id : SessionId)
  | reading (id : SessionId)
  | closingDead (error : BridgeError)
  -- close, and the connections that close_all and cleanup still have to close
  | closingClient
  | closingRemoved (connections : ℕ)
  -- the call returned, or its future was dropped
  | done (result : Except BridgeError Unit)
  | dropped

namespace Task

def awaitsLock : Task → Bool
  | start _ | inserting _ _ _ => true
  | _ => false

/-- Suspended with the guard of `sessions` alive. -/
def holdsLock : Task → Bool
  | draining _ | sending _ | reading _ | closingDead _ | closingClient => true
  | _ => false

def finished : Task → Bool
  | done _ | dropped => true
  | _ => false

end Task

/-- Run a call from the point `task` to its next one. `answer` is what the awaited operation
returned; a point that waits for the lock, or closes a connection, does not read it. -/
def SessionManager.resume (m : SessionManager) (now : ℕ) (answer : Except BridgeError Unit) :
    Task → SessionManager × Task
  | .start (.create host id) =>
    if m.config.maxSessions ≤ m.sessionCount then
      (m, .done (.error (.tooManySessions m.config.maxSessions)))
    else (m, .connecting host id)
  | .connecting host id =>
    match answer with
    | .ok _ => (m, .initializing host id)
    | .error e => (m, .done (.error e))
  | .initializing host id =>
    match answer with
    | .ok _ => (m, .inserting host id now)
    | .error e => (m, .closingUninitialized e)
  | .closingUninitialized e => (m, .done (.error e))
  | .inserting host id createdAt =>
    ({ m with sessions := m.sessions.insert id ⟨host, createdAt, createdAt⟩ }, .done (.ok ()))
  | .start (.exec id endsSession) =>
    match m.sessions.lookup id with
    | none => (m, .done (.error (.sessionNotFound id)))
    | some session =>
      match expiryReason (now - session.lastUsed) (now - session.createdAt) m.config with
      | some reason =>
        (m.removeDeadSession now id reason, .closingDead (.sessionExpired id))
      | none =>
        if endsSession then (m, .done (.error .mcpInvalidRequest)) else (m, .draining id)
  | .draining id =>
    match answer with
    | .ok _ => (m.touch now id, .sending id)
    | .error e =>
      if readErrorProvesShellIsGone e then
        (m.removeDeadSession now id .shellClosedWhileDraining,
          .closingDead (.sshExec .closedWhileDraining))
      else (m, .done (.error (.sshExec .earlierUnfinished)))
  | .sending id =>
    match answer with
    | .ok _ => (m, .reading id)
    | .error _ =>
      (m.removeDeadSession now id .channelWriteFailed, .closingDead (.sshExec .sendFailed))
  | .reading id =>
    match answer with
    | .ok _ => (m, .done (.ok ()))
    | .error e =>
      if readErrorProvesShellIsGone e then
        (m.removeDeadSession now id .shellGone, .closingDead e)
      else (m, .done (.error e))
  | .closingDead e => (m, .done (.error e))
  | .start (.close id) =>
    match m.sessions.lookup id with
    | some _ => ({ m with sessions := m.sessions.erase id }, .closingClient)
    | none => (m, .done (.error (.sessionNotFound id)))
  | .closingClient => (m, .done (.ok ()))
  | .start .closeAll =>
    (m.sessions.entries.foldl (fun m entry => m.auditDestroyed now .shutdown entry.1 entry.2)
      { m with sessions := ∅ }, .closingRemoved m.sessionCount)
  | .start .cleanup =>
    ((m.expiredIds now).foldl (fun m expired => m.removeDeadSession now expired.1 expired.2) m,
      .closingRemoved (m.expiredIds now).length)
  | .closingRemoved (n + 1) => (m, .closingRemoved n)
  | .closingRemoved 0 => (m, .done (.ok ()))
  | .done result => (m, .done result)
  | .dropped => (m, .dropped)

/-- The manager with every call made on it so far. -/
structure World where
  manager : SessionManager
  now : ℕ
  tasks : List Task

inductive Action where
  | call (operation : Operation)
  | resume (task : ℕ) (answer : Except BridgeError Unit)
  /-- The future is dropped, which releases the lock if it holds it. -/
  | abandon (task : ℕ)
  | tick (nanos : ℕ)

namespace World

def new (config : SessionConfig) : World := ⟨.new config, 0, []⟩

def lockFree (w : World) : Bool := w.tasks.all (!·.holdsLock)

def step (w : World) : Action → Option World
  | .call operation => some { w with tasks := w.tasks ++ [.start operation] }
  | .resume t answer => do
      let task ← w.tasks[t]?
      if task.finished || task.awaitsLock && !w.lockFree then none
      else
        let next := w.manager.resume w.now answer task
        some { w with manager := next.1, tasks := w.tasks.set t next.2 }
  | .abandon t => do
      let task ← w.tasks[t]?
      if task.finished then none else some { w with tasks := w.tasks.set t .dropped }
  | .tick nanos => some { w with now := w.now + nanos }

end World

end BridgeMcp.Session
