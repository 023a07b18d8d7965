import BridgeMcp.Lib.TextScan
import BridgeMcp.Lib.Transition

/-!
Steps 11 to 13 of a tool call: connect, execute, retry, and record in the audit log, with the races
against the call's cancellation token.

Futures are polled; what a poll finds ready and when the token fires is up to the environment. The
pipeline races the token inside each attempt, around the execution alone; a call promoted to a task
is raced a second time, from outside, by its worker. A call that is answered within an HTTP request
is dropped with it, by the request timeout or when the client disconnects.
-/
namespace BridgeMcp.Mcp.Pipeline
open TextLib TransitionLib Option List

/-- The errors an attempt can end with, as far as the retry policy tells them apart. -/
inductive BridgeError where
  | cancelled
  | sshConnection (host reason : Text)
  | sshTimeout (seconds : ℕ)
  | sshExec (reason : Text)
  | other (message : Text)
  deriving DecidableEq

def isRetryableError : BridgeError → Bool
  | .cancelled => false
  | .sshConnection .. => true
  | .sshTimeout _ => true
  | .sshExec reason => contains reason "channel" || contains reason "connection"
  | .other _ => false

def isRetryableErrorFor (error : BridgeError) (safeToReplay : Bool) : Bool :=
  match error with
  | .sshConnection .. => true
  | error => safeToReplay && isRetryableError error

structure ToolAnnotations where
  readOnlyHint : Option Bool
  idempotentHint : Option Bool
  destructiveHint : Option Bool

def ToolAnnotations.safeToReplay (a : ToolAnnotations) : Bool :=
  a.readOnlyHint == some true || a.idempotentHint == some true && a.destructiveHint != some true

structure CommandOutput where
  exitCode : ℕ
  durationMs : ℕ
  deriving DecidableEq

inductive CommandResult where
  | success (exitCode durationMs : ℕ)
  | error (message : Text)
  deriving DecidableEq

structure AuditEvent where
  toolName : Text
  host : Text
  command : Text
  result : CommandResult
  deriving DecidableEq

/-- A synchronous call runs in a task of its session or, over HTTP, inside the request. -/
inductive Dispatch where
  | synchronous (overHttp : Bool)
  | task
  deriving DecidableEq

/-- A call at step 11. `redact` is the sanitizer on its command, `display` an error's text, and
`delayIsZero n` says whether the backoff before attempt `n` is skipped. -/
structure Call where
  dispatch : Dispatch
  tool : Text
  host : Text
  command : Text
  annotations : ToolAnnotations
  maxAttempts : ℕ
  delayIsZero : ℕ → Bool
  redact : Text → Text
  display : BridgeError → Text

/-- Where the handler waits. `reducing` stands for everything after the audit event of a success. -/
inductive Phase where
  | sleeping (attempt : ℕ)
  | connecting (attempt : ℕ)
  | executing (attempt : ℕ)
  | reducing
  | returned
  deriving DecidableEq

/-- The owner of the handler's future. A polling worker may have its own cancellation branch left
to poll. -/
inductive Worker where
  | queued
  | idle
  | polling (cancelNext : Bool)
  | ended
  deriving DecidableEq

structure State where
  worker : Worker
  phase : Phase
  fired : Bool
  started : ℕ
  audit : List AuditEvent

/-- What an await turns out to be ready with. -/
inductive Answer where
  | elapsed
  | connected
  | connectionFailed (e : BridgeError)
  | output (o : CommandOutput)
  | execFailed (e : BridgeError)
  | reduced

inductive Event where
  | fire
  | acquire
  | abandon
  | poll (cancelFirst : Bool)
  | ready (answer : Answer)
  | pending
  | drop

namespace Call

variable (call : Call)

def start : State :=
  ⟨match call.dispatch with
    | .synchronous _ => .idle
    | .task => .queued,
    .connecting 0, false, 0, []⟩

def event (result : CommandResult) : AuditEvent :=
  ⟨call.tool, call.host, call.redact call.command, result⟩

/-- The end of an attempt: `with_retry_if`, and after its last round steps 12 and 13. -/
def settle (s : State) (attempt : ℕ) : Except BridgeError CommandOutput → State
  | .ok o =>
    { s with
      phase := .reducing
      audit := s.audit ++ [call.event (.success o.exitCode o.durationMs)] }
  | .error e =>
    if attempt + 1 < max call.maxAttempts 1 ∧
        isRetryableErrorFor e call.annotations.safeToReplay = true then
      { s with
        phase := if call.delayIsZero (attempt + 1) then .connecting (attempt + 1)
          else .sleeping (attempt + 1) }
    else
      { s with
        phase := .returned
        audit := s.audit ++ [call.event (.error (call.display e))] }

/-- A poll enters the handler at the await it is suspended in; the select around the execution is
biased and looks at the token first. -/
def resume (s : State) : State :=
  match s.phase with
  | .executing attempt => if s.fired then call.settle s attempt (.error .cancelled) else s
  | _ => s

def advance (s : State) (answer : Answer) : Option State :=
  match s.phase, answer with
  | .sleeping attempt, .elapsed => some { s with phase := .connecting attempt }
  | .connecting attempt, .connectionFailed e => some (call.settle s attempt (.error e))
  | .connecting attempt, .connected =>
    -- the execution starts with its first poll, after the look at the token
    if s.fired then some (call.settle s attempt (.error .cancelled))
    else some { s with phase := .executing attempt, started := s.started + 1 }
  | .executing attempt, .execFailed e => some (call.settle s attempt (.error e))
  | .executing attempt, .output o => some (call.settle s attempt (.ok o))
  | .reducing, .reduced => some { s with phase := .returned }
  | _, _ => none

end Call

def State.finish (s : State) : State :=
  if s.phase = .returned then { s with worker := .ended } else s

def step (call : Call) (s : State) : Event → Option State
  | .fire => some { s with fired := true }
  | .acquire => if s.worker = .queued then some { s with worker := .idle } else none
  | .abandon =>
    if s.worker = .queued ∧ s.fired = true then some { s with worker := .ended } else none
  | .poll cancelFirst =>
    if s.worker = .idle then
      match call.dispatch with
      | .synchronous _ => some (call.resume { s with worker := .polling false }).finish
      | .task =>
        if cancelFirst then
          if s.fired then some { s with worker := .ended }
          else some (call.resume { s with worker := .polling false }).finish
        else some (call.resume { s with worker := .polling true }).finish
    else none
  | .ready answer =>
    match s.worker with
    | .polling _ => (call.advance s answer).map State.finish
    | _ => none
  | .pending =>
    match s.worker with
    | .polling cancelNext =>
      if cancelNext && s.fired then some { s with worker := .ended }
      else some { s with worker := .idle }
    | _ => none
  | .drop =>
    if call.dispatch = .synchronous true ∧ s.worker = .idle then some { s with worker := .ended }
    else none

def Recorded (call : Call) (s : State) : Prop :=
  ∃ result, call.event result ∈ s.audit

/-- A call that is over has left a record if it began to execute anything. -/
def Audited (call : Call) (s : State) : Prop :=
  s.worker = .ended → 0 < s.started → Recorded call s

/-- Something was executed, and the pipeline is not through with it: an execution is running, or
its retry is pending. -/
def State.Unsettled (s : State) : Prop :=
  0 < s.started ∧ s.phase ≠ .reducing ∧ s.phase ≠ .returned

/-- While something is unsettled, the worker does not look at a fired token itself, and the request
is not dropped. -/
def LeavesToHandler (call : Call) (s : State) : Event → Prop
  | .poll cancelFirst =>
    call.dispatch = .task → cancelFirst = true → s.fired = true → ¬ s.Unsettled
  | .pending => s.worker = .polling true → s.fired = true → ¬ s.Unsettled
  | .drop => ¬ s.Unsettled
  | _ => True

structure Logged (call : Call) (s : State) : Prop where
  recorded : s.phase = .reducing ∨ s.phase = .returned → Recorded call s
  silent : s.phase ≠ .reducing → s.phase ≠ .returned → s.audit = []

variable {call : Call} {s s' : State}

theorem settle_worker (attempt : ℕ) (result : Except BridgeError CommandOutput) :
    (call.settle s attempt result).worker = s.worker := by
  cases result with
  | ok o => rfl
  | error e =>
    rw [Call.settle]
    split_ifs <;> rfl

theorem logged_settle (h : s.audit = []) (attempt : ℕ)
    (result : Except BridgeError CommandOutput) : Logged call (call.settle s attempt result) := by
  cases result with
  | ok o => exact ⟨fun _ => ⟨_, mem_append_right _ (mem_singleton_self _)⟩,
      fun hphase => absurd rfl hphase⟩
  | error e =>
    rw [Call.settle]
    split_ifs
    · exact ⟨nofun, fun _ _ => h⟩
    · exact ⟨nofun, fun _ _ => h⟩
    · exact ⟨fun _ => ⟨_, mem_append_right _ (mem_singleton_self _)⟩,
        fun _ hphase => absurd rfl hphase⟩

theorem Logged.worker (h : Logged call s) (w : Worker) : Logged call { s with worker := w } :=
  ⟨h.recorded, h.silent⟩

theorem resume_worker (call : Call) (s : State) : (call.resume s).worker = s.worker := by
  rw [Call.resume]
  split
  · split_ifs
    · exact settle_worker _ _
    · rfl
  · rfl

theorem advance_worker {answer : Answer} (hs : call.advance s answer = some s') :
    s'.worker = s.worker := by
  unfold Call.advance at hs
  split at hs
  case h_3 =>
    split_ifs at hs <;> obtain rfl := some.inj hs
    · exact settle_worker _ _
    · rfl
  case h_7 => cases hs
  all_goals
    obtain rfl := some.inj hs
    first | rfl | exact settle_worker _ _

theorem Logged.resume (h : Logged call s) : Logged call (call.resume s) := by
  rw [Call.resume]
  split
  · next attempt hphase =>
      split_ifs
      · exact logged_settle (h.silent (hphase ▸ nofun) (hphase ▸ nofun)) _ _
      · exact h
  · exact h

theorem Logged.advance (h : Logged call s) {answer : Answer}
    (hs : call.advance s answer = some s') : Logged call s' := by
  have hsilent : ∀ {phase}, s.phase = phase → phase ≠ .reducing → phase ≠ .returned →
      s.audit = [] := by
    rintro _ rfl
    exact h.silent
  unfold Call.advance at hs
  split at hs
  · next hphase =>
      obtain rfl := some.inj hs
      exact ⟨nofun, fun _ _ => hsilent hphase nofun nofun⟩
  · next hphase =>
      obtain rfl := some.inj hs
      exact logged_settle (hsilent hphase nofun nofun) _ _
  · next hphase =>
      split_ifs at hs
      · obtain rfl := some.inj hs
        exact logged_settle (hsilent hphase nofun nofun) _ _
      · obtain rfl := some.inj hs
        exact ⟨nofun, fun _ _ => hsilent hphase nofun nofun⟩
  · next hphase =>
      obtain rfl := some.inj hs
      exact logged_settle (hsilent hphase nofun nofun) _ _
  · next hphase =>
      obtain rfl := some.inj hs
      exact logged_settle (hsilent hphase nofun nofun) _ _
  · next hphase =>
      obtain rfl := some.inj hs
      exact ⟨fun _ => h.recorded (Or.inl hphase), fun _ hreturned => absurd rfl hreturned⟩
  · cases hs

theorem Logged.finish (h : Logged call s) : Logged call s.finish := by
  unfold State.finish
  split_ifs
  · exact h.worker .ended
  · exact h

theorem finish_worker (s : State) : s.finish.worker = .ended ∨ s.finish.worker = s.worker := by
  unfold State.finish
  split_ifs
  · exact Or.inl rfl
  · exact Or.inr rfl

theorem audited_finish (h : Logged call s) (hworker : s.worker ≠ .ended) :
    Audited call s.finish := by
  unfold State.finish
  split_ifs with hphase
  · exact fun _ _ => h.recorded (Or.inr hphase)
  · exact fun hended => absurd hended hworker

theorem Logged.polled (h : Logged call s) (cancelNext : Bool) :
    let t := (call.resume { s with worker := .polling cancelNext }).finish
    Logged call t ∧ (t.worker = .queued → t.started = 0) ∧ Audited call t := by
  have hresumed := (h.worker (.polling cancelNext)).resume
  have hworker := resume_worker call { s with worker := .polling cancelNext }
  refine ⟨hresumed.finish, fun hqueued => ?_, audited_finish hresumed (hworker ▸ nofun)⟩
  rcases finish_worker (call.resume { s with worker := .polling cancelNext }) with hended | hsame
  · cases hended.symm.trans hqueued
  · cases (hsame.trans hworker).symm.trans hqueued

theorem audited_ended_iff (h : Logged call s) :
    Audited call { s with worker := .ended } ↔ ¬ s.Unsettled := by
  constructor
  · rintro haudited ⟨hstarted, hreducing, hreturned⟩
    obtain ⟨result, hmem⟩ := haudited rfl hstarted
    rw [show ({ s with worker := .ended } : State).audit = [] from h.silent hreducing hreturned]
      at hmem
    cases hmem
  · intro hsettled _ hstarted
    apply h.recorded
    by_contra hphase
    obtain ⟨hreducing, hreturned⟩ := not_or.mp hphase
    exact hsettled ⟨hstarted, hreducing, hreturned⟩

structure Consistent (call : Call) (s : State) : Prop where
  logged : Logged call s
  queued : s.worker = .queued → s.started = 0
  audited : Audited call s

theorem consistent_start (call : Call) : Consistent call call.start := by
  refine ⟨⟨nofun, fun _ _ => rfl⟩, fun _ => rfl, fun _ hstarted => ?_⟩
  exact absurd hstarted (lt_irrefl 0)

theorem Consistent.step (h : Consistent call s) {a : Event} (hs : step call s a = some s') :
    Logged call s' ∧ (s'.worker = .queued → s'.started = 0) ∧
      (Audited call s' ↔ LeavesToHandler call s a) := by
  obtain ⟨hlogged, hqueued, haudited⟩ := h
  cases a with
  | fire =>
    obtain rfl := some.inj hs
    exact ⟨⟨hlogged.recorded, hlogged.silent⟩, hqueued, iff_of_true haudited trivial⟩
  | acquire =>
    rw [Pipeline.step] at hs
    split_ifs at hs
    obtain rfl := some.inj hs
    exact ⟨hlogged.worker _, nofun, iff_of_true nofun trivial⟩
  | abandon =>
    rw [Pipeline.step] at hs
    split_ifs at hs with hfired
    obtain rfl := some.inj hs
    refine ⟨hlogged.worker _, nofun, iff_of_true (fun _ hstarted => ?_) trivial⟩
    exact absurd (hqueued hfired.1) hstarted.ne'
  | poll cancelFirst =>
    have hidle : s.worker = .idle := by
      by_contra hbusy
      rw [Pipeline.step, if_neg hbusy] at hs
      cases hs
    rw [Pipeline.step, if_pos hidle] at hs
    cases hdispatch : call.dispatch with
    | synchronous overHttp =>
      rw [hdispatch] at hs
      obtain rfl := some.inj hs
      obtain ⟨hl, hq, ha⟩ := hlogged.polled false
      exact ⟨hl, hq, iff_of_true ha fun htask => nomatch hdispatch.symm.trans htask⟩
    | task =>
      rw [hdispatch] at hs
      dsimp only at hs
      split_ifs at hs with hfirst hfired
      · obtain rfl := some.inj hs
        refine ⟨hlogged.worker _, nofun, (audited_ended_iff hlogged).trans ?_⟩
        simp [LeavesToHandler, hdispatch, hfirst, hfired]
      · obtain rfl := some.inj hs
        obtain ⟨hl, hq, ha⟩ := hlogged.polled false
        exact ⟨hl, hq, iff_of_true ha fun _ _ hfire => absurd hfire hfired⟩
      · obtain rfl := some.inj hs
        obtain ⟨hl, hq, ha⟩ := hlogged.polled true
        exact ⟨hl, hq, iff_of_true ha fun _ hcancel => absurd hcancel hfirst⟩
  | ready answer =>
    rw [Pipeline.step] at hs
    split at hs
    · next hpolling =>
        obtain ⟨t, ht, rfl⟩ := map_eq_some_iff.mp hs
        have hadvanced := hlogged.advance ht
        have hworker := (advance_worker ht).trans hpolling
        refine ⟨hadvanced.finish, fun hq => ?_,
          iff_of_true (audited_finish hadvanced (hworker ▸ nofun)) trivial⟩
        rcases finish_worker t with hended | hsame
        · cases hended.symm.trans hq
        · cases (hsame.trans hworker).symm.trans hq
    · cases hs
  | pending =>
    rw [Pipeline.step] at hs
    split at hs
    · next cancelNext hpolling =>
        split_ifs at hs with hdrop
        · obtain rfl := some.inj hs
          obtain ⟨rfl, hfired⟩ := Bool.and_eq_true_iff.mp hdrop
          refine ⟨hlogged.worker _, nofun, (audited_ended_iff hlogged).trans ?_⟩
          simp [LeavesToHandler, hpolling, hfired]
        · obtain rfl := some.inj hs
          refine ⟨hlogged.worker _, nofun, iff_of_true nofun fun hnext hfired => ?_⟩
          cases hpolling.symm.trans hnext
          exact absurd hfired hdrop
    · cases hs
  | drop =>
    rw [Pipeline.step] at hs
    split_ifs at hs
    obtain rfl := some.inj hs
    exact ⟨hlogged.worker _, nofun, audited_ended_iff hlogged⟩

theorem consistent_of_reaches (h : Reaches (step call) (LeavesToHandler call) call.start s) :
    Consistent call s := by
  refine h.invariant (consistent_start call) fun t a t' ht hleaves hstep => ?_
  obtain ⟨hlogged, hqueued, haudited⟩ := ht.step hstep
  exact ⟨hlogged, hqueued, haudited.mpr hleaves⟩

section
variable (hdispatch : call.dispatch = .synchronous false)
  (h : Reaches (step call) (fun _ _ => True) call.start s)
include hdispatch h

theorem synchronous_worker : s.worker ≠ .polling true := by
  refine h.invariant (P := fun t => t.worker ≠ .polling true) ?_ fun t a t' ht _ hstep => ?_
  · rw [Call.start, hdispatch]
    nofun
  cases a with
  | fire =>
    obtain rfl := some.inj hstep
    exact ht
  | acquire =>
    rw [step] at hstep
    split_ifs at hstep
    obtain rfl := some.inj hstep
    nofun
  | abandon | drop =>
    rw [step] at hstep
    split_ifs at hstep
    obtain rfl := some.inj hstep
    nofun
  | poll cancelFirst =>
    have hidle : t.worker = .idle := by
      by_contra hbusy
      rw [step, if_neg hbusy] at hstep
      cases hstep
    rw [step, if_pos hidle, hdispatch] at hstep
    obtain rfl := some.inj hstep
    have hworker := resume_worker call { t with worker := .polling false }
    rcases finish_worker (call.resume { t with worker := .polling false }) with hended | hsame
    · exact hended ▸ nofun
    · exact (hsame.trans hworker) ▸ nofun
  | ready answer =>
    rw [step] at hstep
    split at hstep
    · obtain ⟨u, hu, rfl⟩ := map_eq_some_iff.mp hstep
      rcases finish_worker u with hended | hsame
      · exact hended ▸ nofun
      · exact (hsame.trans (advance_worker hu)) ▸ ht
    · cases hstep
  | pending =>
    rw [step] at hstep
    split at hstep
    · split_ifs at hstep <;> obtain rfl := some.inj hstep <;> nofun
    · cases hstep

theorem synchronous_leavesToHandler {a : Event} (hstep : step call s a = some s') :
    LeavesToHandler call s a := by
  cases a with
  | poll cancelFirst => exact fun htask => nomatch hdispatch.symm.trans htask
  | pending => exact fun hworker => absurd hworker (synchronous_worker hdispatch h)
  | drop =>
    rw [step] at hstep
    split_ifs at hstep with hhttp
    cases hdispatch.symm.trans hhttp.1
  | _ => trivial

theorem synchronous_reaches :
    Reaches (step call) (LeavesToHandler call) call.start s := by
  induction h with
  | refl => exact .refl
  | tail hreach _ hstep ih => exact ih.tail (synchronous_leavesToHandler hdispatch hreach hstep) hstep

end

/-- In runs that leave a fired token to the handler, and the request alone, whenever something is
unsettled, whatever began to execute is on record when the call is over; a step that does not breaks
this. A synchronous call in the task of its session has no such step. -/
theorem executions_recorded (call : Call) :
    (∀ s, Reaches (step call) (LeavesToHandler call) call.start s →
      Audited call s ∧ ∀ a s', step call s a = some s' →
        (Audited call s' ↔ LeavesToHandler call s a)) ∧
    (call.dispatch = .synchronous false →
      ∀ s, Reaches (step call) (fun _ _ => True) call.start s → Audited call s) := by
  constructor
  · intro s hreach
    have hs := consistent_of_reaches hreach
    exact ⟨hs.audited, fun a s' hstep => (hs.step hstep).2.2⟩
  · intro hdispatch s hreach
    exact (consistent_of_reaches (synchronous_reaches hdispatch hreach)).audited

def vulnScan : Call where
  dispatch := .task
  tool := "ssh_vuln_scan"
  host := "web"
  command := "export LC_ALL=C; " ++ " && ".toList.intercalate
    ["echo \"=== UPGRADABLE PACKAGES (Security) ===\"",
      "apt list --upgradable 2>/dev/null | grep -i secur || " ++
        "yum updateinfo list sec 2>/dev/null || apk audit 2>/dev/null || " ++
        "echo 'No native security scanner available'",
      "echo \"=== KERNEL VERSION CHECK ===\"",
      "uname -r",
      "echo \"=== PENDING UPDATES ===\"",
      "apt list --upgradable 2>/dev/null | wc -l || " ++
        "yum check-update 2>/dev/null | tail -n +2 | wc -l || echo 'N/A'",
      "echo \"=== LAST UPDATE ===\"",
      "stat -c '%y' /var/cache/apt/pkgcache.bin 2>/dev/null || " ++
        "stat -c '%y' /var/cache/yum 2>/dev/null || echo 'Unknown'"]
  annotations := ⟨some true, some true, some false⟩
  maxAttempts := 3
  delayIsZero := fun _ => false
  redact := id
  display := fun _ => []

/-- Its worker drops the running command when it looks at the token first, and a command that timed
out and is due for a retry even when it polls the handler first. Over HTTP the command is dropped with
the request, with no token at all. -/
theorem vulnScan_unrecorded :
    (∃ s, Reaches (step vulnScan) (fun _ _ => True) vulnScan.start s ∧
      s.phase = .executing 0 ∧ s.worker = .ended ∧ s.started = 1 ∧ s.audit = []) ∧
    (∃ s, Reaches (step vulnScan) (fun _ a => a ≠ .poll true) vulnScan.start s ∧
      s.phase = .sleeping 1 ∧ s.worker = .ended ∧ s.started = 1 ∧ s.audit = []) ∧
    let posted := { vulnScan with dispatch := .synchronous true }
    ∃ s, Reaches (step posted) (fun _ a => a ≠ .fire) posted.start s ∧
      s.phase = .executing 0 ∧ s.worker = .ended ∧ s.started = 1 ∧ s.audit = [] := by
  refine ⟨?_, ?_, ?_⟩
  · have hconnected : Reaches (step vulnScan) (fun _ _ => True) vulnScan.start _ :=
      ((Reaches.refl.tail (a := .acquire) trivial rfl).tail (a := .poll false) trivial rfl).tail
        (a := .ready .connected) trivial rfl
    have hfired := (hconnected.tail (a := .pending) trivial rfl).tail (a := .fire) trivial rfl
    exact ⟨_, hfired.tail (a := .poll true) trivial rfl, rfl, rfl, rfl, rfl⟩
  · have hconnected : Reaches (step vulnScan) (fun _ a => a ≠ .poll true) vulnScan.start _ :=
      ((Reaches.refl.tail (a := .acquire) nofun rfl).tail (a := .poll false) nofun rfl).tail
        (a := .ready .connected) nofun rfl
    have htimeout := (hconnected.tail (a := .ready (.execFailed (.sshTimeout 30))) nofun rfl).tail
      (a := .fire) nofun rfl
    exact ⟨_, htimeout.tail (a := .pending) nofun rfl, rfl, rfl, rfl, rfl⟩
  · intro posted
    have hpending : Reaches (step posted) (fun _ a => a ≠ .fire) posted.start _ :=
      ((Reaches.refl.tail (a := .poll false) nofun rfl).tail (a := .ready .connected) nofun rfl).tail
        (a := .pending) nofun rfl
    exact ⟨_, hpending.tail (a := .drop) nofun rfl, rfl, rfl, rfl, rfl⟩

end BridgeMcp.Mcp.Pipeline
