import BridgeMcp.Lib.Lines
import BridgeMcp.Lib.Utf8Bytes
import BridgeMcp.Mcp.Message

/-!
One session on stdio or the daemon socket: the reader that cuts the client's bytes into lines, the
tasks that answer requests, and the writer behind the channel.

Only the model keeps the number of the line that a response answers, all that the client sent and
every line read. A running task may end at any time with any answer, and other sessions may take
permits and give them back at any time.
-/
namespace BridgeMcp.Mcp.SessionLoop
open JsonLib TextLib LineLib TransitionLib List

def newline : UInt8 := 10

def takeLine : List UInt8 → Option (List UInt8 × List UInt8)
  | [] => none
  | b :: bytes =>
    if b = newline then some ([], bytes)
    else (takeLine bytes).map fun (front, rest) => (b :: front, rest)

/-- What `recv` makes of a line. A read error ends the session. -/
inductive Received where
  | failed
  | blank
  | rejected (e : JsonRpcError)
  | message (m : JsonRpcMessage)

section
variable (describe : Text → Text)

def receive (line : List UInt8) : Received :=
  match fromUtf8 (line ++ [newline]) with
  | none => .failed
  | some text =>
    if trim text = [] then .blank
    else
      match parseIncoming describe (trim text) with
      | .ok m => .message m
      | .error e => .rejected e

inductive Kind where
  | ignored
  | request (r : JsonRpcRequest)
  | faulty

def kindOf (line : List UInt8) : Kind :=
  match receive describe line with
  | .failed | .rejected _ => .faulty
  | .blank => .ignored
  | .message m =>
    match m.method, m.id with
    | some method, some id => .request ⟨m.jsonrpc, some id, method, m.params⟩
    | _, _ => .ignored

end

structure JsonRpcResponse where
  id : Option Json
  outcome : Except JsonRpcError Json

inductive Message where
  | response (line : ℕ) (r : JsonRpcResponse)
  | notification

/-- `settled` is left when the response was handed to the channel or suppressed. -/
inductive Phase where
  | running
  | sending (r : JsonRpcResponse)
  | settled
  | finished
  | listening

structure Task where
  line : ℕ
  request : JsonRpcRequest
  phase : Phase
  permit : Bool
  cancelled : Bool

/-- Where the reader loop stands: at `recv`, at the channel with an error, or at the semaphore. -/
inductive Loop where
  | reading
  | rejecting (line : ℕ) (e : JsonRpcError)
  | admitting (line : ℕ) (r : JsonRpcRequest)
  | ended

structure State where
  sent : List UInt8
  pending : List UInt8
  unfinished : List UInt8
  lines : List (List UInt8)
  loop : Loop
  active : ActiveRequests
  tasks : List Task
  queue : List Message
  output : List Message
  outside : ℕ

def State.start : State := ⟨[], [], [], [], .reading, ∅, [], [], [], 0⟩

/-- What a handler ends with: a subscription that stays open, or an answer. -/
inductive Outcome where
  | streaming
  | respond (outcome : Except JsonRpcError Json)

/-- `borrow` and `giveBack` are the permits of other sessions and of task workers, `notify` is any
notification of the server. -/
inductive Event where
  | arrive (bytes : List UInt8)
  | consume
  | reject
  | enter
  | answer (n : ℕ) (outcome : Outcome)
  | send (n : ℕ)
  | clean (n : ℕ)
  | write
  | notify
  | borrow
  | giveBack

def capacity : ℕ := 100

def cancelledErrorCode : ℤ := -32800

def listenMethod : Text := "subscriptions/listen"

def isConcurrencyExempt (method : Text) : Bool := "tasks/".toList.isPrefixOf method

def shouldSendResponse (r : JsonRpcResponse) : Bool :=
  match r.outcome with
  | .ok _ => true
  | .error e => e.code ≠ cancelledErrorCode

def shouldWriteBack (r : JsonRpcResponse) (tokenWasCancelled : Bool) : Bool :=
  shouldSendResponse r || !tokenWasCancelled

def fire (tasks : List Task) : Option ℕ → List Task
  | none => tasks
  | some n => tasks.modify n fun t => { t with cancelled := true }

def State.permits (s : State) : ℕ := s.outside + s.tasks.countP Task.permit

section
variable (describe : Text → Text) (display : Json → Text) (limit : ℕ)

def State.accept (s : State) (n : ℕ) : Received → State
  | .failed => { s with loop := .ended }
  | .blank => s
  | .rejected e => { s with loop := .rejecting n e }
  | .message m =>
    let (request, token, active) := routeIncomingMessage display s.active m
    { s with
      active := active
      tasks := fire s.tasks token
      loop := match request with
        | none => .reading
        | some r => .admitting n r }

def State.consume (s : State) : State :=
  match takeLine s.pending with
  | none => { s with unfinished := s.unfinished ++ s.pending, pending := [] }
  | some (front, rest) =>
    { s with
      pending := rest
      unfinished := []
      lines := s.lines ++ [s.unfinished ++ front] }.accept display s.lines.length
        (receive describe (s.unfinished ++ front))

def State.spawn (s : State) (n : ℕ) (r : JsonRpcRequest) (permit : Bool) : State :=
  { s with
    loop := .reading
    active := match r.id with
      | none => s.active
      | some id => s.active.register (requestKey display id) s.tasks.length
    tasks := s.tasks ++ [⟨n, r, .running, permit, false⟩] }

def State.setTask (s : State) (n : ℕ) (t : Task) : State := { s with tasks := s.tasks.set n t }

/-- The end of the handler of task `n`. Only a live subscription has no answer. -/
def Task.answered (t : Task) : Outcome → Option Task
  | .streaming =>
    if t.request.method = listenMethod then
      some { t with phase := .listening, permit := false }
    else none
  | .respond outcome =>
    let r : JsonRpcResponse := ⟨t.request.id, outcome⟩
    some { t with phase := if shouldWriteBack r t.cancelled then .sending r else .settled }

def State.unregister (s : State) (r : JsonRpcRequest) : State :=
  { s with
    active := match r.id with
      | none => s.active
      | some id => s.active.unregister (requestKey display id) }

def step (s : State) : Event → Option State
  | .arrive bytes =>
    if s.pending = [] then some { s with pending := bytes, sent := s.sent ++ bytes } else none
  | .consume =>
    match s.loop with
    | .reading => if s.pending = [] then none else some (s.consume describe display)
    | _ => none
  | .reject =>
    match s.loop with
    | .rejecting n e =>
      if s.queue.length < capacity then
        some { s with loop := .reading, queue := s.queue ++ [.response n ⟨none, .error e⟩] }
      else none
    | _ => none
  | .enter =>
    match s.loop with
    | .admitting n r =>
      if isConcurrencyExempt r.method then some (s.spawn display n r false)
      else if s.permits < limit then some (s.spawn display n r true)
      else none
    | _ => none
  | .answer n outcome =>
    match s.tasks[n]? with
    | none => none
    | some t =>
      match t.phase with
      | .running => (t.answered outcome).map (s.setTask n)
      | _ => none
  | .send n =>
    match s.tasks[n]? with
    | none => none
    | some t =>
      match t.phase with
      | .sending r =>
        if s.queue.length < capacity then
          some { s.setTask n { t with phase := .settled } with
            queue := s.queue ++ [.response t.line r] }
        else none
      | _ => none
  | .clean n =>
    match s.tasks[n]? with
    | none => none
    | some t =>
      match t.phase with
      | .settled =>
        some ((s.setTask n { t with phase := .finished, permit := false }).unregister display
          t.request)
      | _ => none
  | .write =>
    match s.queue with
    | [] => none
    | m :: queue => some { s with queue := queue, output := s.output ++ [m] }
  | .notify =>
    if s.queue.length < capacity then some { s with queue := s.queue ++ [.notification] }
    else none
  | .borrow => if s.permits < limit then some { s with outside := s.outside + 1 } else none
  | .giveBack => if s.outside = 0 then none else some { s with outside := s.outside - 1 }

end

/-- The response, when it answers line `i`. -/
def Message.answerTo (i : ℕ) : Message → Option JsonRpcResponse
  | .response line r => if line = i then some r else none
  | .notification => none

def responses (messages : List Message) (i : ℕ) : List JsonRpcResponse :=
  messages.filterMap (Message.answerTo i)

def State.messages (s : State) : List Message := s.output ++ s.queue

def completeLines (bytes : List UInt8) : List (List UInt8) := (bytes.splitOn newline).dropLast

section
variable (describe : Text → Text)

/-- A later line was a cancellation that names the id of request `r` of line `i`. -/
def CancelReceived (lines : List (List UInt8)) (i : ℕ) (r : JsonRpcRequest) : Prop :=
  ∃ j line m id, i < j ∧ lines[j]? = some line ∧ receive describe line = .message m ∧
    m.method = some cancelledMethod ∧ m.params.bind (·.get "requestId") = some id ∧
    r.id = some id

/-- Line `i` is being worked on. -/
def State.InHand (s : State) (i : ℕ) : Prop :=
  (∃ e, s.loop = .rejecting i e) ∨ (∃ r, s.loop = .admitting i r) ∨
    ∃ t ∈ s.tasks, t.line = i ∧ (t.phase = .running ∨ ∃ r, t.phase = .sending r)

/-- What line `i` has been answered with, if no more is to come. A faulty line has one error; a
request has one response under its id, unless it is a subscription or was cancelled. -/
def Answered (s : State) (i : ℕ) : Kind → Prop
  | .ignored => responses s.messages i = []
  | .faulty => ∃ e, responses s.messages i = [⟨none, .error e⟩]
  | .request r =>
    (∃ outcome, responses s.messages i = [⟨r.id, outcome⟩]) ∨
      responses s.messages i = [] ∧
        ((∃ t ∈ s.tasks, t.line = i ∧ t.phase = .listening ∧ r.method = listenMethod) ∨
          CancelReceived describe s.lines i r)

end

theorem responses_append (messages : List Message) (m : Message) (i : ℕ) :
    responses (messages ++ [m]) i = responses messages i ++ (m.answerTo i).toList := by
  cases hm : m.answerTo i <;> simp [responses, hm]

theorem responses_append_response (messages : List Message) (i : ℕ) (r : JsonRpcResponse) :
    responses (messages ++ [.response i r]) i = responses messages i ++ [r] := by
  simp [responses_append, Message.answerTo]

theorem responses_append_other {i j : ℕ} (h : j ≠ i) (messages : List Message)
    (r : JsonRpcResponse) : responses (messages ++ [.response j r]) i = responses messages i := by
  simp [responses_append, Message.answerTo, h]

theorem takeLine_none {bytes : List UInt8} (h : takeLine bytes = none) : newline ∉ bytes := by
  induction bytes with
  | nil => exact not_mem_nil
  | cons b bytes ih =>
    rw [takeLine] at h
    split at h
    · cases h
    · next hb =>
        rw [mem_cons, not_or]
        exact ⟨Ne.symm hb, ih (Option.map_eq_none_iff.mp h)⟩

theorem takeLine_some {bytes front rest : List UInt8} (h : takeLine bytes = some (front, rest)) :
    bytes = front ++ newline :: rest ∧ newline ∉ front := by
  induction bytes generalizing front with
  | nil => cases h
  | cons b bytes ih =>
    rw [takeLine] at h
    split at h
    · next hb =>
        cases h
        exact ⟨by rw [hb]; rfl, not_mem_nil⟩
    · next hb =>
        obtain ⟨p, hp, heq⟩ := Option.map_eq_some_iff.mp h
        cases heq
        obtain ⟨hbytes, hfront⟩ := ih hp
        refine ⟨by rw [hbytes]; rfl, ?_⟩
        rw [mem_cons, not_or]
        exact ⟨Ne.symm hb, hfront⟩

theorem completeLines_flatten {lines : List (List UInt8)} {rest : List UInt8}
    (hlines : ∀ line ∈ lines, newline ∉ line) :
    completeLines ((lines.map (· ++ [newline])).flatten ++ rest) = lines ++ completeLines rest := by
  induction lines with
  | nil => rfl
  | cons line lines ih =>
    have hne : splitOn newline ((lines.map (· ++ [newline])).flatten ++ rest) ≠ [] :=
      splitOnP_ne_nil _ _
    have hline : line.splitOn newline = [line] :=
      splitOn_eq_singleton (hlines line (mem_cons_self ..))
    rw [completeLines, map_cons, flatten_cons]
    simp only [append_assoc, cons_append, nil_append]
    rw [splitOn_append_cons, hline, singleton_append, dropLast_cons_of_ne_nil hne]
    exact congrArg (line :: ·)
      (ih fun line hline => hlines line (mem_cons_of_mem _ hline))

end BridgeMcp.Mcp.SessionLoop
