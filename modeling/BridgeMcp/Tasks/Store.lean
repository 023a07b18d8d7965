import BridgeMcp.Lib.AssocMap
import BridgeMcp.Lib.Json

/-!
The task store (`domain/task_store.rs`): long-running tool calls behind one lock, each with a
status, a result and a token its worker watches.

Every operation holds the lock to its end, so a run of concurrent callers is a sequence of operations.
Clock readings are arguments: `Instant`s in nanoseconds, wall-clock times as RFC 3339 texts.
-/
namespace BridgeMcp.Tasks
open TextLib JsonLib AssocMap

abbrev TaskId := Text

abbrev Token := ℕ

inductive TaskStatus where
  | working
  | inputRequired
  | completed
  | failed
  | cancelled
  deriving DecidableEq

structure TaskInfo where
  taskId : TaskId
  status : TaskStatus
  statusMessage : Option Text
  createdAt : Text
  lastUpdatedAt : Text
  ttlMs : Option ℕ
  pollIntervalMs : Option ℕ
  deriving DecidableEq

structure TaskEntry where
  info : TaskInfo
  result : Option Json
  cancelToken : Token
  created : ℕ
  ttl : ℕ

def isTerminalStatus : TaskStatus → Bool
  | .completed | .failed | .cancelled => true
  | .working | .inputRequired => false

namespace TaskEntry

def isTerminal (e : TaskEntry) : Bool := isTerminalStatus e.info.status

def isExpired (now : ℕ) (e : TaskEntry) : Bool := decide (e.ttl ≤ now - e.created)

def settle (e : TaskEntry) (status : TaskStatus) (message : Text) (result : Option Json)
    (stamp : Text) : TaskEntry :=
  { e with
    info := { e.info with status, statusMessage := some message, lastUpdatedAt := stamp }
    result }

end TaskEntry

structure TaskStore where
  tasks : AList (fun _ : TaskId => TaskEntry)
  maxTasks : ℕ
  defaultTtlMs : ℕ
  defaultPollIntervalMs : ℕ
  /-- One cell for each `CancellationToken::new`, true once cancelled. -/
  tokens : List Bool

def completionSummary (result : Json) : Text :=
  if (result.get "isError").bind Json.asBool = some true then
    "Task completed with a tool error."
  else "Task completed successfully."

def i64Max : ℕ := 2 ^ 63 - 1

namespace TaskStore

def new (maxTasks defaultTtlMs defaultPollIntervalMs : ℕ) : TaskStore :=
  ⟨∅, maxTasks, defaultTtlMs, defaultPollIntervalMs, []⟩

def len (s : TaskStore) : ℕ := s.tasks.entries.length

def isCancelled (s : TaskStore) (token : Token) : Bool := s.tokens.getD token false

def cleanup (s : TaskStore) (now : ℕ) : TaskStore :=
  { s with tasks := retain (fun entry => !entry.2.isExpired now) s.tasks }

def newEntry (s : TaskStore) (id : TaskId) (created : ℕ) (stamp : Text) : TaskEntry where
  info :=
    { taskId := id
      status := .working
      statusMessage := some "Task is being processed."
      createdAt := stamp
      lastUpdatedAt := stamp
      ttlMs := some (min s.defaultTtlMs i64Max)
      pollIntervalMs := some (min s.defaultPollIntervalMs i64Max) }
  result := none
  cancelToken := s.tokens.length
  created := created
  ttl := 1000000 * s.defaultTtlMs

def newToken (s : TaskStore) : TaskStore := { s with tokens := s.tokens ++ [false] }

/-- The identifier, the token and both clock readings are made before the lock is taken; `now` is
the clock while it is held. -/
def createTask (s : TaskStore) (id : TaskId) (created : ℕ) (stamp : Text) (now : ℕ) :
    TaskStore × Option (TaskId × Token) :=
  let entry := s.newEntry id created stamp
  let swept := s.newToken.cleanup now
  if swept.maxTasks ≤ swept.len then (swept, none)
  else ({ swept with tasks := swept.tasks.insert id entry }, some (id, entry.cancelToken))

/-- What `complete_task` and `fail_task` share: a terminal task answers with what it is. -/
def settleTask (s : TaskStore) (id : TaskId) (status : TaskStatus) (message : Text)
    (result : Json) (stamp : Text) : TaskStore × Option TaskInfo :=
  match s.tasks.lookup id with
  | none => (s, none)
  | some entry =>
    if entry.isTerminal then (s, some entry.info)
    else
      let entry := entry.settle status message (some result) stamp
      ({ s with tasks := s.tasks.insert id entry }, some entry.info)

def completeTask (s : TaskStore) (id : TaskId) (result : Json) (stamp : Text) :
    TaskStore × Option TaskInfo :=
  s.settleTask id .completed (completionSummary result) result stamp

def failTask (s : TaskStore) (id : TaskId) (message : Text) (result : Json) (stamp : Text) :
    TaskStore × Option TaskInfo :=
  s.settleTask id .failed message result stamp

/-- Cancelling sets no result and signals the worker. -/
def cancelTask (s : TaskStore) (id : TaskId) (stamp : Text) : TaskStore × Option TaskInfo :=
  match s.tasks.lookup id with
  | none => (s, none)
  | some entry =>
    if entry.isTerminal then (s, some entry.info)
    else
      let settled :=
        entry.settle .cancelled "Task was cancelled by request." entry.result stamp
      ({ s with
          tasks := s.tasks.insert id settled
          tokens := s.tokens.set entry.cancelToken true },
        some settled.info)

def getTask (s : TaskStore) (id : TaskId) (now : ℕ) : Option TaskInfo :=
  match s.tasks.lookup id with
  | none => none
  | some entry => if entry.isExpired now then none else some entry.info

def getResult (s : TaskStore) (id : TaskId) (now : ℕ) : Option Json :=
  match s.tasks.lookup id with
  | none => none
  | some entry => if entry.isExpired now then none else entry.result

end TaskStore

inductive Operation where
  | createTask (id : TaskId) (created : ℕ) (stamp : Text)
  | completeTask (id : TaskId) (result : Json) (stamp : Text)
  | failTask (id : TaskId) (message : Text) (result : Json) (stamp : Text)
  | cancelTask (id : TaskId) (stamp : Text)
  | getTask (id : TaskId)
  | getResult (id : TaskId)
  | cleanup

structure Call where
  now : ℕ
  operation : Operation

inductive Answer where
  | created (task : Option (TaskId × Token))
  | info (info : Option TaskInfo)
  | result (result : Option Json)
  | done

namespace TaskStore

def step (s : TaskStore) (call : Call) : TaskStore × Answer :=
  match call.operation with
  | .createTask id created stamp =>
    let (s, task) := s.createTask id created stamp call.now
    (s, .created task)
  | .completeTask id result stamp =>
    let (s, info) := s.completeTask id result stamp
    (s, .info info)
  | .failTask id message result stamp =>
    let (s, info) := s.failTask id message result stamp
    (s, .info info)
  | .cancelTask id stamp =>
    let (s, info) := s.cancelTask id stamp
    (s, .info info)
  | .getTask id => (s, .info (s.getTask id call.now))
  | .getResult id => (s, .result (s.getResult id call.now))
  | .cleanup => (s.cleanup call.now, .done)

end TaskStore

end BridgeMcp.Tasks
