import BridgeMcp.Tasks.Store

/-!
The life of a task. The first `complete_task`, `fail_task` or `cancel_task` that reaches a task
decides it; a history of calls determines that decision, and the store never shows another one.
-/
namespace BridgeMcp.Tasks
open TextLib JsonLib AssocMap List TaskStore Option

inductive Decision where
  | complete (result : Json)
  | fail (message : Text) (result : Json)
  | cancel

namespace Decision

def status : Decision → TaskStatus
  | .complete _ => .completed
  | .fail _ _ => .failed
  | .cancel => .cancelled

def message : Decision → Text
  | .complete result => completionSummary result
  | .fail message _ => message
  | .cancel => "Task was cancelled by request."

def result : Decision → Option Json
  | .complete result => some result
  | .fail _ result => some result
  | .cancel => none

theorem isTerminalStatus_status (d : Decision) : isTerminalStatus d.status = true := by
  cases d <;> rfl

end Decision

/-- The task an operation wants to settle, and how. -/
def Operation.decision : Operation → Option (TaskId × Decision)
  | .completeTask id result _ => some (id, .complete result)
  | .failTask id message result _ => some (id, .fail message result)
  | .cancelTask id _ => some (id, .cancel)
  | _ => none

structure Event where
  call : Call
  answer : Answer

namespace Event

def createdFor (id : TaskId) (event : Event) : Option Token :=
  match event.answer with
  | .created (some (created, token)) => if created = id then some token else none
  | _ => none

/-- The decision the event brought to an existing task under `id`. -/
def decisionFor (id : TaskId) (event : Event) : Option Decision :=
  match event.call.operation.decision, event.answer with
  | some (named, decision), .info (some _) => if named = id then some decision else none
  | _, _ => none

end Event

def latestToken (id : TaskId) (history : List Event) : Option Token :=
  history.findSome? (Event.createdFor id)

/-- The first decision that reached the task `(id, token)`, if one has. -/
def decidedBy (id : TaskId) (token : Token) : List Event → Option Decision
  | [] => none
  | event :: earlier =>
    (decidedBy id token earlier).or
      (if latestToken id earlier = some token then event.decisionFor id else none)

def Issued (id : TaskId) (token : Token) (history : List Event) : Prop :=
  ∃ event ∈ history, event.createdFor id = some token

variable {id : TaskId} {token : Token} {history : List Event} {event : Event} {d : Decision}

theorem not_issued_nil : ¬ Issued id token [] := by
  rintro ⟨event, hevent, -⟩
  cases hevent

theorem issued_of_latestToken (h : latestToken id history = some token) : Issued id token history :=
  exists_of_findSome?_eq_some h

theorem issued_cons :
    Issued id token (event :: history) ↔
      event.createdFor id = some token ∨ Issued id token history := by
  simp [Issued]

theorem issued_of_decidedBy
    (h : decidedBy id token history = some d) : Issued id token history := by
  induction history with
  | nil => cases h
  | cons event earlier ih =>
    rw [decidedBy, or_eq_some_iff] at h
    apply issued_cons.mpr
    right
    rcases h with h | ⟨-, h⟩
    · exact ih h
    · split at h
      · next hlatest => exact issued_of_latestToken hlatest
      · cases h

structure Execution where
  store : TaskStore
  history : List Event

def Execution.call (x : Execution) (call : Call) : Execution where
  store := (x.store.step call).1
  history := ⟨call, (x.store.step call).2⟩ :: x.history

def run (store : TaskStore) (calls : List Call) : Execution :=
  calls.foldl Execution.call ⟨store, []⟩

def TaskEntry.Reflects (entry : TaskEntry) : Option Decision → Prop
  | none => entry.info.status = .working ∧ entry.result = none
  | some d => entry.info.status = d.status ∧ entry.info.statusMessage = some d.message ∧
      entry.result = d.result

variable {entry : TaskEntry} {decided : Option Decision}

theorem TaskEntry.Reflects.isTerminal_eq (h : entry.Reflects decided) :
    entry.isTerminal = decided.isSome := by
  cases decided with
  | none => exact congrArg isTerminalStatus h.1
  | some d => exact (congrArg isTerminalStatus h.1).trans d.isTerminalStatus_status

/-- Only a completion and a failure leave a result. -/
theorem TaskEntry.Reflects.decided_of_result {value : Json} (h : entry.Reflects decided)
    (hresult : entry.result = some value) :
    ∃ d, decided = some d ∧ d.result = some value ∧
      (entry.info.status = .completed ∨ entry.info.status = .failed) := by
  cases decided with
  | none => cases h.2.symm.trans hresult
  | some d =>
    have hd : d.result = some value := h.2.2.symm.trans hresult
    refine ⟨d, rfl, hd, ?_⟩
    rw [h.1]
    cases d with
    | complete => exact .inl rfl
    | fail => exact .inr rfl
    | cancel => cases hd

/-- Kept by every call, whatever the clocks say. -/
structure Lifecycle (maxTasks : ℕ) (x : Execution) : Prop where
  capacity : x.store.maxTasks = maxTasks
  bounded : x.store.len ≤ maxTasks
  current : ∀ id entry, x.store.tasks.lookup id = some entry →
    latestToken id x.history = some entry.cancelToken
  reflects : ∀ id entry, x.store.tasks.lookup id = some entry →
    entry.Reflects (decidedBy id entry.cancelToken x.history)
  allocated : ∀ id token, Issued id token x.history → token < x.store.tokens.length
  unshared : ∀ id id' token, Issued id token x.history → Issued id' token x.history → id = id'
  signalled : ∀ id token, Issued id token x.history →
    (x.store.isCancelled token = true ↔ decidedBy id token x.history = some .cancel)

section Events

theorem latestToken_cons_of_not_created (h : event.createdFor id = none) :
    latestToken id (event :: history) = latestToken id history := by
  rw [latestToken, findSome?_cons, h]
  rfl

theorem latestToken_cons_of_created (h : event.createdFor id = some token) :
    latestToken id (event :: history) = some token := by
  rw [latestToken, findSome?_cons, h]

theorem decidedBy_cons_of_not_decision (h : event.decisionFor id = none) :
    decidedBy id token (event :: history) = decidedBy id token history := by
  rw [decidedBy, h, ite_self, or_none]

theorem decidedBy_cons_of_decided (h : decidedBy id token history = some d) :
    decidedBy id token (event :: history) = some d := by
  rw [decidedBy, h, some_or]

theorem decidedBy_cons_of_not_latest (h : latestToken id history ≠ some token) :
    decidedBy id token (event :: history) = decidedBy id token history := by
  rw [decidedBy, if_neg h, or_none]

/-- An event that hands out no token and decides nothing that was open. -/
structure Quiet (event : Event) (history : List Event) : Prop where
  createsNone : ∀ id, event.createdFor id = none
  decidesNone : ∀ id token, decidedBy id token (event :: history) = decidedBy id token history

theorem Quiet.issued_iff (h : Quiet event history) :
    Issued id token (event :: history) ↔ Issued id token history := by
  rw [issued_cons, h.createsNone]
  simp

theorem Quiet.latestToken_eq (h : Quiet event history) :
    latestToken id (event :: history) = latestToken id history :=
  latestToken_cons_of_not_created (h.createsNone id)

end Events

namespace Lifecycle

variable {maxTasks : ℕ} {x : Execution}

theorem of_quiet (hx : Lifecycle maxTasks x) {store : TaskStore}
    (quiet : Quiet event x.history) (hcapacity : store.maxTasks = x.store.maxTasks)
    (hlen : store.len ≤ x.store.len)
    (htasks : ∀ id entry, store.tasks.lookup id = some entry →
      x.store.tasks.lookup id = some entry)
    (hallocated : x.store.tokens.length ≤ store.tokens.length)
    (htokens : ∀ token, store.isCancelled token = x.store.isCancelled token) :
    Lifecycle maxTasks ⟨store, event :: x.history⟩ where
  capacity := hcapacity.trans hx.capacity
  bounded := hlen.trans hx.bounded
  current := by
    intro id entry hentry
    rw [quiet.latestToken_eq]
    exact hx.current id entry (htasks id entry hentry)
  reflects := by
    intro id entry hentry
    rw [quiet.decidesNone]
    exact hx.reflects id entry (htasks id entry hentry)
  allocated := by
    intro id token hissued
    exact (hx.allocated id token (quiet.issued_iff.mp hissued)).trans_le hallocated
  unshared := by
    intro id id' token h h'
    exact hx.unshared id id' token (quiet.issued_iff.mp h) (quiet.issued_iff.mp h')
  signalled := by
    intro id token hissued
    rw [htokens, quiet.decidesNone]
    exact hx.signalled id token (quiet.issued_iff.mp hissued)

theorem of_quiet_same (hx : Lifecycle maxTasks x)
    (quiet : Quiet event x.history) : Lifecycle maxTasks ⟨x.store, event :: x.history⟩ :=
  hx.of_quiet quiet rfl le_rfl (fun _ _ h => h) le_rfl fun _ => rfl

end Lifecycle

namespace Decision

def settle (d : Decision) (entry : TaskEntry) (stamp : Text) : TaskEntry :=
  entry.settle d.status d.message (d.result.or entry.result) stamp

def signal (d : Decision) (token : Token) (tokens : List Bool) : List Bool :=
  match d with
  | .cancel => tokens.set token true
  | _ => tokens

@[simp] theorem signal_length (d : Decision) (token : Token) (tokens : List Bool) :
    (d.signal token tokens).length = tokens.length := by
  cases d <;> simp [signal]

theorem signal_getD_ne (d : Decision) {token token' : Token} (tokens : List Bool)
    (h : token ≠ token') :
    (d.signal token tokens).getD token' false = tokens.getD token' false := by
  cases d <;> simp [signal, getD_eq_getElem?_getD, getElem?_set_ne h]

theorem signal_getD_self (d : Decision) {tokens : List Bool}
    (hlt : token < tokens.length) (hdown : tokens.getD token false ≠ true) :
    (d.signal token tokens).getD token false = true ↔ d = .cancel := by
  cases d with
  | cancel => simp [signal, hlt]
  | complete => simpa [signal] using hdown
  | fail => simpa [signal] using hdown

theorem settle_reflects (d : Decision) (stamp : Text)
    (h : entry.result = none) : (d.settle entry stamp).Reflects (some d) := by
  refine ⟨rfl, rfl, ?_⟩
  change d.result.or entry.result = d.result
  rw [h, or_none]

end Decision

def TaskStore.settled (s : TaskStore) (id : TaskId) (entry : TaskEntry) (d : Decision)
    (stamp : Text) : TaskStore :=
  { s with
    tasks := s.tasks.insert id (d.settle entry stamp)
    tokens := d.signal entry.cancelToken s.tokens }

section Step

variable {s : TaskStore} {call : Call}

theorem getResult_of_live {now : ℕ} (hentry : s.tasks.lookup id = some entry)
    (hlive : entry.isExpired now = false) : s.getResult id now = entry.result := by
  rw [getResult, hentry]
  exact if_neg (ne_true_of_eq_false hlive)

theorem lookup_of_getResult {now : ℕ} {value : Json} (h : s.getResult id now = some value) :
    ∃ entry, s.tasks.lookup id = some entry ∧ entry.result = some value := by
  cases hentry : s.tasks.lookup id with
  | none => simp [getResult, hentry] at h
  | some entry =>
    simp only [getResult, hentry] at h
    split at h
    · cases h
    · exact ⟨entry, rfl, h⟩

theorem step_of_missing (h : call.operation.decision = some (id, d))
    (hentry : s.tasks.lookup id = none) : s.step call = (s, .info none) := by
  obtain ⟨now, operation⟩ := call
  cases operation <;> cases h <;>
    simp [step, completeTask, failTask, settleTask,
      cancelTask, hentry]

theorem step_of_terminal (h : call.operation.decision = some (id, d))
    (hentry : s.tasks.lookup id = some entry) (hterminal : entry.isTerminal = true) :
    s.step call = (s, .info (some entry.info)) := by
  obtain ⟨now, operation⟩ := call
  cases operation <;> cases h <;>
    simp [step, completeTask, failTask, settleTask,
      cancelTask, hentry, hterminal]

theorem step_of_open (h : call.operation.decision = some (id, d))
    (hentry : s.tasks.lookup id = some entry) (hopen : entry.isTerminal = false) :
    ∃ stamp, s.step call =
      (s.settled id entry d stamp, .info (some (d.settle entry stamp).info)) := by
  obtain ⟨now, operation⟩ := call
  cases operation with
  | completeTask id result stamp =>
    cases h
    refine ⟨stamp, ?_⟩
    simp only [step, completeTask, settleTask, hentry, hopen]
    rfl
  | failTask id message result stamp =>
    cases h
    refine ⟨stamp, ?_⟩
    simp only [step, failTask, settleTask, hentry, hopen]
    rfl
  | cancelTask id stamp =>
    cases h
    refine ⟨stamp, ?_⟩
    simp only [step, cancelTask, hentry, hopen]
    rfl
  | createTask | getTask | getResult | cleanup => cases h

end Step

theorem TaskStore.newToken_allocates (s : TaskStore) :
    s.tokens.length ≤ s.newToken.tokens.length := by
  rw [newToken, length_append]
  exact Nat.le_add_right _ _

theorem TaskStore.newToken_isCancelled (s : TaskStore) (token : Token) :
    s.newToken.isCancelled token = s.isCancelled token := by
  simp only [isCancelled, newToken, getD_eq_getElem?_getD, getElem?_append]
  split
  · rfl
  · next h =>
      rw [getElem?_eq_none (not_lt.mp h), getElem?_singleton]
      split <;> rfl

theorem lookup_cleanup {s : TaskStore} {now : ℕ}
    (h : (s.cleanup now).tasks.lookup id = some entry) : s.tasks.lookup id = some entry :=
  (lookup_retain_eq_some.mp h).1

theorem cleanup_len_le (s : TaskStore) (now : ℕ) : (s.cleanup now).len ≤ s.len :=
  retain_length_le _ s.tasks

namespace Lifecycle

variable {maxTasks : ℕ} {x : Execution}

theorem eq_or_of_lookup_insert {tasks : AList fun _ : TaskId => TaskEntry} {id' : TaskId}
    {entry' : TaskEntry} (h : (tasks.insert id entry).lookup id' = some entry') :
    id' = id ∧ entry' = entry ∨ id' ≠ id ∧ tasks.lookup id' = some entry' := by
  by_cases hid : id' = id
  · subst hid
    rw [AList.lookup_insert] at h
    exact .inl ⟨rfl, (some.inj h).symm⟩
  · rw [AList.lookup_insert_ne hid] at h
    exact .inr ⟨hid, h⟩

theorem of_decided (hx : Lifecycle maxTasks x) (stamp : Text)
    (hentry : x.store.tasks.lookup id = some entry)
    (hopen : entry.isTerminal = false) (hcreates : ∀ id, event.createdFor id = none)
    (hdecides : ∀ other, event.decisionFor other = if id = other then some d else none) :
    Lifecycle maxTasks ⟨x.store.settled id entry d stamp, event :: x.history⟩ := by
  have hcurrent := hx.current id entry hentry
  have hissued : ∀ id token, Issued id token (event :: x.history) ↔ Issued id token x.history := by
    intro id token
    rw [issued_cons, hcreates]
    simp
  -- an open entry is one that no decision has reached
  have hundecided : decidedBy id entry.cancelToken x.history = none := by
    rw [← not_isSome_iff_eq_none, ← (hx.reflects id entry hentry).isTerminal_eq, hopen]
    exact Bool.false_ne_true
  have hdecided : decidedBy id entry.cancelToken (event :: x.history) = some d := by
    rw [decidedBy, hundecided, if_pos hcurrent, hdecides, if_pos rfl, none_or]
  have hother : ∀ id' token, (id', token) ≠ (id, entry.cancelToken) →
      decidedBy id' token (event :: x.history) = decidedBy id' token x.history := by
    intro id' token hne
    by_cases hid : id = id'
    · subst hid
      apply decidedBy_cons_of_not_latest
      intro hlatest
      rw [hcurrent] at hlatest
      exact hne (by rw [some.inj hlatest])
    · apply decidedBy_cons_of_not_decision
      rw [hdecides, if_neg hid]
  have hresult : entry.result = none := by
    have hreflects := hx.reflects id entry hentry
    rw [hundecided] at hreflects
    exact hreflects.2
  constructor
  case capacity => exact hx.capacity
  case bounded =>
    exact (insert_length_of_lookup _ hentry).trans_le hx.bounded
  case current =>
    intro id' entry' hentry'
    rw [latestToken_cons_of_not_created (hcreates id')]
    rcases eq_or_of_lookup_insert hentry' with ⟨rfl, rfl⟩ | ⟨-, hentry'⟩
    · exact hcurrent
    · exact hx.current id' entry' hentry'
  case reflects =>
    intro id' entry' hentry'
    rcases eq_or_of_lookup_insert hentry' with ⟨rfl, rfl⟩ | ⟨hid, hentry'⟩
    · change (d.settle entry stamp).Reflects (decidedBy id' entry.cancelToken (event :: x.history))
      rw [hdecided]
      exact d.settle_reflects stamp hresult
    · rw [hother id' entry'.cancelToken (fun h => hid (Prod.mk.inj h).1)]
      exact hx.reflects id' entry' hentry'
  case allocated =>
    intro id' token h
    rw [settled, Decision.signal_length]
    exact hx.allocated id' token ((hissued id' token).mp h)
  case unshared =>
    intro id' id'' token h h'
    exact hx.unshared id' id'' token ((hissued _ _).mp h) ((hissued _ _).mp h')
  case signalled =>
    intro id' token h
    have hold := (hissued id' token).mp h
    have hself := issued_of_latestToken hcurrent
    by_cases htoken : entry.cancelToken = token
    · -- a token belongs to one identifier
      subst htoken
      have hid : id' = id := hx.unshared id' id _ hold hself
      subst hid
      rw [hdecided, some.injEq]
      apply d.signal_getD_self (hx.allocated id' _ hold)
      intro hup
      have := (hx.signalled id' _ hold).mp hup
      rw [hundecided] at this
      cases this
    · rw [hother id' token (fun h => htoken (Prod.mk.inj h).2.symm)]
      exact (Bool.eq_iff_iff.mp (d.signal_getD_ne x.store.tokens htoken)).trans
        (hx.signalled id' token hold)

theorem of_created (hx : Lifecycle maxTasks x)
    {store : TaskStore} (hcapacity : store.maxTasks = x.store.maxTasks)
    (hroom : store.len < maxTasks)
    (htasks : ∀ id entry, store.tasks.lookup id = some entry →
      x.store.tasks.lookup id = some entry)
    (htokens : store.tokens = x.store.tokens ++ [false])
    (hfresh : entry.cancelToken = x.store.tokens.length) (hnew : entry.Reflects none)
    (hcreates : ∀ other, event.createdFor other = if id = other then some entry.cancelToken else none)
    (hdecides : ∀ other, event.decisionFor other = none) :
    Lifecycle maxTasks ⟨{ store with tasks := store.tasks.insert id entry }, event :: x.history⟩ := by
  have hissued : ∀ id' token, Issued id' token (event :: x.history) →
      (id' = id ∧ token = entry.cancelToken) ∨ Issued id' token x.history := by
    intro id' token h
    rcases issued_cons.mp h with h | h
    · rw [hcreates] at h
      split at h
      · next hid => exact .inl ⟨hid.symm, (some.inj h).symm⟩
      · cases h
    · exact .inr h
  have hunissued : ∀ id', ¬ Issued id' entry.cancelToken x.history := by
    intro id' h
    have := hx.allocated id' _ h
    rw [hfresh] at this
    exact lt_irrefl _ this
  have hdecided : ∀ id' token,
      decidedBy id' token (event :: x.history) = decidedBy id' token x.history :=
    fun id' token => decidedBy_cons_of_not_decision (hdecides id')
  have hundecided : ∀ id', decidedBy id' entry.cancelToken x.history = none := by
    intro id'
    cases h : decidedBy id' entry.cancelToken x.history with
    | none => rfl
    | some d => exact absurd (issued_of_decidedBy h) (hunissued id')
  have hsignal : ∀ token, store.isCancelled token = x.store.isCancelled token := by
    intro token
    rw [← x.store.newToken_isCancelled, isCancelled, htokens]
    rfl
  constructor
  case capacity => exact hcapacity.trans hx.capacity
  case bounded => exact (insert_length_le id entry store.tasks).trans hroom
  case current =>
    intro id' entry' hentry'
    rcases eq_or_of_lookup_insert hentry' with ⟨rfl, rfl⟩ | ⟨hid, hentry'⟩
    · exact latestToken_cons_of_created (by rw [hcreates, if_pos rfl])
    · rw [latestToken_cons_of_not_created (by rw [hcreates, if_neg (Ne.symm hid)])]
      exact hx.current id' entry' (htasks id' entry' hentry')
  case reflects =>
    intro id' entry' hentry'
    rw [hdecided]
    rcases eq_or_of_lookup_insert hentry' with ⟨rfl, rfl⟩ | ⟨-, hentry'⟩
    · rw [hundecided]
      exact hnew
    · exact hx.reflects id' entry' (htasks id' entry' hentry')
  case allocated =>
    intro id' token h
    change token < store.tokens.length
    rw [htokens, length_append]
    rcases hissued id' token h with ⟨-, rfl⟩ | h
    · rw [hfresh]
      exact Nat.lt_succ_self _
    · exact Nat.lt_succ_of_lt (hx.allocated id' token h)
  case unshared =>
    intro id' id'' token h h'
    rcases hissued id' token h with ⟨rfl, rfl⟩ | h
    · rcases hissued id'' _ h' with ⟨rfl, -⟩ | h'
      · rfl
      · exact absurd h' (hunissued id'')
    · rcases hissued id'' token h' with ⟨-, htoken⟩ | h'
      · exact absurd (htoken ▸ h) (hunissued id')
      · exact hx.unshared id' id'' token h h'
  case signalled =>
    intro id' token h
    rw [hdecided]
    rcases hissued id' token h with ⟨rfl, rfl⟩ | h
    · have hdown : store.isCancelled entry.cancelToken = false := by
        rw [hsignal, isCancelled, hfresh, getD_eq_getElem?_getD,
          getElem?_eq_none le_rfl]
        rfl
      rw [hundecided]
      exact iff_of_false (Bool.eq_false_iff.mp hdown) nofun
    · exact (Bool.eq_iff_iff.mp (hsignal token)).trans (hx.signalled id' token h)

theorem decisionFor_of_not_settling {call : Call} {answer : Answer} (id : TaskId)
    (h : call.operation.decision = none) : Event.decisionFor id ⟨call, answer⟩ = none := by
  rw [Event.decisionFor, h]

theorem quiet_of_not_settling {call : Call} {answer : Answer} (h : call.operation.decision = none)
    (hcreates : ∀ id, Event.createdFor id ⟨call, answer⟩ = none) :
    Quiet ⟨call, answer⟩ history :=
  ⟨hcreates, fun id _ => decidedBy_cons_of_not_decision (decisionFor_of_not_settling id h)⟩

theorem createTask_step (hx : Lifecycle maxTasks x) (now : ℕ) (id : TaskId) (created : ℕ)
    (stamp : Text) : Lifecycle maxTasks (x.call ⟨now, .createTask id created stamp⟩) := by
  have hlen : (x.store.newToken.cleanup now).len ≤ x.store.len :=
    cleanup_len_le x.store.newToken now
  have htasks : ∀ id entry, (x.store.newToken.cleanup now).tasks.lookup id = some entry →
      x.store.tasks.lookup id = some entry :=
    fun _ _ h => lookup_cleanup (s := x.store.newToken) h
  by_cases hfull : (x.store.newToken.cleanup now).maxTasks ≤ (x.store.newToken.cleanup now).len
  · simp only [Execution.call, step, createTask, if_pos hfull]
    exact hx.of_quiet (quiet_of_not_settling rfl fun _ => rfl) rfl hlen htasks
      x.store.newToken_allocates x.store.newToken_isCancelled
  · simp only [Execution.call, step, createTask, if_neg hfull]
    have hroom : (x.store.newToken.cleanup now).len < maxTasks := hx.capacity ▸ not_le.mp hfull
    exact hx.of_created rfl hroom htasks rfl rfl ⟨rfl, rfl⟩ (fun _ => rfl)
      fun other => decisionFor_of_not_settling other rfl

theorem settling_step (hx : Lifecycle maxTasks x) {call : Call}
    (h : call.operation.decision = some (id, d)) : Lifecycle maxTasks (x.call call) := by
  have hanswered : ∀ info other, Event.decisionFor other ⟨call, .info (some info)⟩ =
      if id = other then some d else none := by
    intro info other
    simp only [Event.decisionFor, h]
  cases hentry : x.store.tasks.lookup id with
  | none =>
    rw [Execution.call, step_of_missing h hentry]
    refine hx.of_quiet_same ⟨fun _ => rfl, fun other _ => decidedBy_cons_of_not_decision ?_⟩
    simp only [Event.decisionFor, h]
  | some entry =>
    cases hterminal : entry.isTerminal with
    | true =>
      rw [Execution.call, step_of_terminal h hentry hterminal]
      refine hx.of_quiet_same ⟨fun _ => rfl, ?_⟩
      intro other token
      by_cases hid : id = other
      · subst hid
        by_cases hlatest : latestToken id x.history = some token
        · -- the entry is terminal because a decision has been made
          rw [hx.current id entry hentry, some.injEq] at hlatest
          subst hlatest
          rw [(hx.reflects id entry hentry).isTerminal_eq, isSome_iff_exists] at hterminal
          obtain ⟨earlier, hdecided⟩ := hterminal
          exact (decidedBy_cons_of_decided hdecided).trans hdecided.symm
        · exact decidedBy_cons_of_not_latest hlatest
      · apply decidedBy_cons_of_not_decision
        rw [hanswered, if_neg hid]
    | false =>
      obtain ⟨stamp, hstep⟩ := step_of_open h hentry hterminal
      rw [Execution.call, hstep]
      exact hx.of_decided stamp hentry hterminal (fun _ => rfl) (hanswered _)

theorem step (hx : Lifecycle maxTasks x) (call : Call) : Lifecycle maxTasks (x.call call) := by
  obtain ⟨now, operation⟩ := call
  cases operation with
  | createTask id created stamp => exact hx.createTask_step now id created stamp
  | completeTask | failTask | cancelTask => exact hx.settling_step rfl
  | getTask | getResult => exact hx.of_quiet_same (quiet_of_not_settling rfl fun _ => rfl)
  | cleanup =>
    exact hx.of_quiet (quiet_of_not_settling rfl fun _ => rfl) rfl (cleanup_len_le _ now)
      (fun _ _ h => lookup_cleanup h) le_rfl fun _ => rfl

theorem start (maxTasks defaultTtlMs defaultPollIntervalMs : ℕ) :
    Lifecycle maxTasks ⟨.new maxTasks defaultTtlMs defaultPollIntervalMs, []⟩ where
  capacity := rfl
  bounded := Nat.zero_le _
  current _ _ h := by cases h
  reflects _ _ h := by cases h
  allocated _ _ h := (not_issued_nil h).elim
  unshared _ _ _ h := (not_issued_nil h).elim
  signalled _ _ h := (not_issued_nil h).elim

theorem calls (hx : Lifecycle maxTasks x) (calls : List Call) :
    Lifecycle maxTasks (calls.foldl Execution.call x) := by
  induction calls generalizing x with
  | nil => exact hx
  | cons call rest ih => exact ih (hx.step call)

end Lifecycle

/-- In every history the first decision on a task settles it and is answered with the settled entry.
From then on the entry shows that decision, hands its result out until it expires, and answers every
later one with what it is; a token is signalled exactly when its task was cancelled; the store stays
within its capacity. -/
theorem first_decision_stands (maxTasks defaultTtlMs defaultPollIntervalMs : ℕ)
    (calls : List Call) :
    let x := run (.new maxTasks defaultTtlMs defaultPollIntervalMs) calls
    (∀ id entry, x.store.tasks.lookup id = some entry →
      Issued id entry.cancelToken x.history ∧
      match decidedBy id entry.cancelToken x.history with
      | none =>
        entry.info.status = .working ∧ entry.result = none ∧
        ∀ (call : Call) (d : Decision), call.operation.decision = some (id, d) →
          decidedBy id entry.cancelToken (x.call call).history = some d ∧
          ∃ settled, (x.store.step call).1.tasks.lookup id = some settled ∧
            (x.store.step call).2 = .info (some settled.info) ∧
            settled.cancelToken = entry.cancelToken ∧ settled.Reflects (some d) ∧
            ∀ now, settled.isExpired now = false →
              (x.store.step call).1.getResult id now = d.result
      | some d =>
        entry.info.status = d.status ∧ entry.info.statusMessage = some d.message ∧
        entry.result = d.result ∧
        (∀ now, entry.isExpired now = false → x.store.getResult id now = d.result) ∧
        ∀ (call : Call) (late : Decision), call.operation.decision = some (id, late) →
          x.store.step call = (x.store, .info (some entry.info))) ∧
    (∀ id now value, x.store.getResult id now = some value →
      ∃ entry d, x.store.tasks.lookup id = some entry ∧
        decidedBy id entry.cancelToken x.history = some d ∧ d.result = some value ∧
        (entry.info.status = .completed ∨ entry.info.status = .failed)) ∧
    (∀ id token, Issued id token x.history →
      (x.store.isCancelled token = true ↔ decidedBy id token x.history = some .cancel)) ∧
    x.store.len ≤ maxTasks := by
  intro x
  have hx : Lifecycle maxTasks x :=
    (Lifecycle.start maxTasks defaultTtlMs defaultPollIntervalMs).calls calls
  refine ⟨?_, ?_, hx.signalled, hx.bounded⟩
  · intro id entry hentry
    refine ⟨issued_of_latestToken (hx.current id entry hentry), ?_⟩
    have hreflects := hx.reflects id entry hentry
    cases hdecided : decidedBy id entry.cancelToken x.history with
    | none =>
      rw [hdecided] at hreflects
      refine ⟨hreflects.1, hreflects.2, fun call d hcall => ?_⟩
      obtain ⟨stamp, hstep⟩ := step_of_open hcall hentry hreflects.isTerminal_eq
      have hsettled : (d.settle entry stamp).Reflects (some d) :=
        d.settle_reflects stamp hreflects.2
      have hlookup : (x.store.step call).1.tasks.lookup id = some (d.settle entry stamp) := by
        rw [hstep]
        exact AList.lookup_insert _
      refine ⟨?_, d.settle entry stamp, hlookup, by rw [hstep], rfl, hsettled, fun now hlive => ?_⟩
      · rw [Execution.call, decidedBy, hdecided, none_or, if_pos (hx.current id entry hentry),
          Event.decisionFor, hcall, hstep]
        exact if_pos rfl
      · rw [getResult_of_live hlookup hlive, hsettled.2.2]
    | some d =>
      rw [hdecided] at hreflects
      refine ⟨hreflects.1, hreflects.2.1, hreflects.2.2, fun now hlive => ?_, ?_⟩
      · rw [getResult_of_live hentry hlive, hreflects.2.2]
      intro call late hcall
      exact step_of_terminal hcall hentry hreflects.isTerminal_eq
  · intro id now value hvalue
    obtain ⟨entry, hentry, hresult⟩ := lookup_of_getResult hvalue
    obtain ⟨d, hdecided, hd, hstatus⟩ := (hx.reflects id entry hentry).decided_of_result hresult
    exact ⟨entry, d, hentry, hdecided, hd, hstatus⟩

end BridgeMcp.Tasks
