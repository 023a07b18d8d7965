import BridgeMcp.Connections.HostConfig
import BridgeMcp.Mcp.Pipeline

/-!
Step 11 of a standard tool down to the SSH channel: the retry loop (`ssh/retry.rs`), the race with the
cancellation token in each attempt, and the awaits of `exec_with_stdin` (`ssh/client.rs`).

A poll of an attempt looks at the token and then polls the execution. The token is fired by another
thread: between two polls, or in the middle of one.
-/
namespace BridgeMcp.Mcp.Attempts
open TextLib TransitionLib BridgeMcp.Connections Option
open Pipeline (BridgeError isRetryableErrorFor ToolAnnotations)

/-- `maxAttempts` is the retry configuration's; the delays only say how long a wait lasts. -/
structure Call where
  host : Text
  protocol : Protocol
  command : Text
  stdin : Option Text
  annotations : ToolAnnotations
  maxAttempts : ℕ
  hasToken : Bool
  commandTimeoutSeconds : ℕ

/-- Where `exec_with_stdin` stands. `sending` is a request that an earlier poll began. -/
inductive Point where
  | taking
  | opening
  | requesting
  | sending
  | writing
  | closing
  | reading
  | abandoning
  | foreign
  deriving DecidableEq

/-- `looking` is before the select's look at the token, `executing` after it in the same poll. -/
inductive Phase (α : Type) where
  | waiting
  | connecting
  | looking (point : Point)
  | executing (point : Point)
  | returned (result : Except BridgeError α)

/-- `begun` and `results` are the attempts begun and the results of those that ended; `calls` the
arguments of `exec_with_stdin`; `requests` the exec requests begun on a channel. -/
structure State (α : Type) where
  phase : Phase α
  attempt : ℕ
  hasConnection : Bool
  fired : Bool
  begun : ℕ
  results : List (Except BridgeError α)
  calls : List (Text × Option Text)
  requests : ℕ

def State.start {α : Type} : State α := ⟨.waiting, 0, false, false, 0, [], [], 0⟩

/-- What a poll finds. An error of the channel comes with its text. -/
inductive Answer (α : Type) where
  | pending
  | ready
  | failed (e : Text)
  | output (o : α)
  | timedOut
  | ended (result : Except BridgeError α)

inductive Event (α : Type) where
  | fire
  | wake
  | connect (outcome : Except BridgeError Unit)
  | look
  | poll (answer : Answer α)

def missingHandle : Text :=
  "pooled connection handle missing (already taken or never initialized)"

def stdinNotSshReason : Text :=
  "stdin is only supported on the SSH transport"

namespace Call

variable {α : Type} (call : Call)

/-- The end of an attempt in `with_retry_if`. -/
def settle (s : State α) (result : Except BridgeError α) : State α :=
  let s := { s with results := s.results ++ [result] }
  match result with
  | .ok _ => { s with phase := .returned result }
  | .error e =>
    if s.attempt + 1 < max call.maxAttempts 1 ∧
        isRetryableErrorFor e call.annotations.safeToReplay = true then
      { s with attempt := s.attempt + 1, phase := .waiting }
    else { s with phase := .returned result }

/-- An execution that ends with an error marks its connection as failed. -/
def conclude (s : State α) (result : Except BridgeError α) : State α :=
  match result with
  | .ok _ => call.settle s result
  | .error _ => call.settle { s with hasConnection := false } result

/-- An await on the channel: its point once it was polled, what follows, and the text before the
error's own. -/
def await (s : State α) (point next : Point) (message : Text) : Answer α → Option (State α)
  | .pending => some { s with phase := .looking point }
  | .ready => some { s with phase := .executing next }
  | .failed e => some (call.conclude s (.error (.sshExec (message ++ e))))
  | _ => none

def afterRequest : Point := if call.stdin.isSome then .writing else .reading

def connect (s : State α) : Except BridgeError Unit → State α
  | .ok () => { s with phase := .looking .taking, hasConnection := true }
  | .error e => call.settle s (.error e)

/-- `ConnectionGuard::exec_with_stdin` up to its first await. -/
def take (s : State α) : State α :=
  let s := { s with calls := s.calls ++ [(call.command, call.stdin)] }
  if call.protocol = .ssh then
    if s.hasConnection then { s with phase := .executing .opening }
    else call.conclude s (.error (.sshConnection call.host missingHandle))
  else if call.stdin.isSome then call.conclude s (.error (.sshExec stdinNotSshReason))
  else { s with phase := .executing .foreign }

def execute (s : State α) : Point → Answer α → Option (State α)
  | .taking, .ready => some (call.take s)
  | .taking, _ => none
  | .opening, answer =>
    call.await s .opening .requesting "Failed to open channel: " answer
  | .requesting, answer =>
    call.await { s with requests := s.requests + 1 } .sending call.afterRequest
      "Failed to execute command: " answer
  | .sending, answer =>
    call.await s .sending call.afterRequest "Failed to execute command: " answer
  | .writing, answer =>
    call.await s .writing .closing "Failed to write to command stdin: " answer
  | .closing, answer =>
    call.await s .closing .reading "Failed to close command stdin: " answer
  | .reading, .pending => some { s with phase := .looking .reading }
  | .reading, .output o => some (call.conclude s (.ok o))
  | .reading, .timedOut => some { s with phase := .executing .abandoning }
  | .reading, _ => none
  | .abandoning, .pending => some { s with phase := .looking .abandoning }
  -- whether the channel could be closed is not looked at
  | .abandoning, .ready => some (call.conclude s (.error (.sshTimeout call.commandTimeoutSeconds)))
  | .abandoning, .failed _ =>
    some (call.conclude s (.error (.sshTimeout call.commandTimeoutSeconds)))
  | .abandoning, _ => none
  | .foreign, .pending => some { s with phase := .looking .foreign }
  | .foreign, .ended result => some (call.conclude s result)
  | .foreign, _ => none

def step (s : State α) : Event α → Option (State α)
  | .fire => if call.hasToken then some { s with fired := true } else none
  | .wake =>
    match s.phase with
    | .waiting => some { s with phase := .connecting, begun := s.begun + 1 }
    | _ => none
  | .connect outcome =>
    match s.phase with
    | .connecting => some (call.connect s outcome)
    | _ => none
  | .look =>
    match s.phase with
    | .looking point =>
      if s.fired then some (call.conclude s (.error .cancelled))
      else some { s with phase := .executing point }
    | _ => none
  | .poll answer =>
    match s.phase with
    | .executing point => call.execute s point answer
    | _ => none

end Call

def Point.beforeRequest : Point → Bool
  | .taking => true
  | .opening => true
  | .requesting => true
  | _ => false

variable {α : Type} {call : Call} {s s' : State α}

structure SameLoop (call : Call) (s t : State α) : Prop where
  attempt : t.attempt = s.attempt
  begun : t.begun = s.begun
  results : t.results = s.results
  fired : t.fired = s.fired
  calls : ∀ c ∈ t.calls, c ∈ s.calls ∨ c = (call.command, call.stdin)

theorem SameLoop.refl (call : Call) (s : State α) : SameLoop call s s :=
  ⟨rfl, rfl, rfl, rfl, fun _ => Or.inl⟩

/-- How a poll of the execution goes on from a point: suspended, further on in the same poll, or with
the attempt over. -/
inductive Outcome (call : Call) (point : Point) (t : State α) : State α → Prop where
  | suspended (p : Point) : (p.beforeRequest = true → point = .opening) →
      (p = .foreign → point = .foreign) →
      Outcome call point t { t with phase := .looking p }
  | further (p : Point) :
      (p.beforeRequest = true → point.beforeRequest = true ∧ point ≠ .requesting) →
      (p = .foreign → call.protocol ≠ .ssh) →
      Outcome call point t { t with phase := .executing p }
  | ended (result : Except BridgeError α) :
      (call.protocol = .ssh → point ≠ .foreign →
        ∀ host reason, result = .error (.sshConnection host reason) → point = .taking) →
      Outcome call point t (call.settle t result)

def Polled (call : Call) (s : State α) (point : Point) (s' : State α) : Prop :=
  ∃ t, SameLoop call s t ∧ t.requests = s.requests + (if point = .requesting then 1 else 0) ∧
    Outcome call point t s'

variable {point : Point} {t : State α}

theorem polled_conclude {point : Point} {t : State α} (hsame : SameLoop call s t)
    (hrequests : t.requests = s.requests + (if point = .requesting then 1 else 0))
    (result : Except BridgeError α)
    (herror : call.protocol = .ssh → point ≠ .foreign →
      ∀ host reason, result = .error (.sshConnection host reason) → point = .taking) :
    Polled call s point (call.conclude t result) := by
  cases result with
  | ok o => exact ⟨t, hsame, hrequests, .ended _ herror⟩
  | error e =>
    have hfailed : SameLoop call s { t with hasConnection := false } :=
      ⟨hsame.attempt, hsame.begun, hsame.results, hsame.fired, hsame.calls⟩
    exact ⟨_, hfailed, hrequests, .ended _ herror⟩

variable {answer : Answer α}

theorem polled_await {p next : Point} {message : Text} (hsame : SameLoop call s t)
    (hrequests : t.requests = s.requests + (if point = .requesting then 1 else 0))
    (hp : p.beforeRequest = true → point = .opening) (hown : p ≠ .foreign)
    (hnext : next.beforeRequest = true → point.beforeRequest = true ∧ point ≠ .requesting)
    (hown' : next ≠ .foreign) (hs : call.await t p next message answer = some s') :
    Polled call s point s' := by
  cases answer with
  | pending =>
    obtain rfl := some.inj hs
    exact ⟨t, hsame, hrequests, .suspended p hp fun h => absurd h hown⟩
  | ready =>
    obtain rfl := some.inj hs
    exact ⟨t, hsame, hrequests, .further next hnext fun h => absurd h hown'⟩
  | failed e =>
    obtain rfl := some.inj hs
    exact polled_conclude hsame hrequests _ nofun
  | output o => cases hs
  | timedOut => cases hs
  | ended result => cases hs

theorem afterRequest_cases (call : Call) : call.afterRequest = .writing ∨ call.afterRequest = .reading := by
  rw [Call.afterRequest]
  split_ifs
  · exact Or.inl rfl
  · exact Or.inr rfl

theorem polled_request {message : Text} (hsame : SameLoop call s t)
    (hrequests : t.requests = s.requests + (if point = .requesting then 1 else 0))
    (hs : call.await t .sending call.afterRequest message answer = some s') :
    Polled call s point s' := by
  rcases afterRequest_cases call with hafter | hafter
  all_goals
    rw [hafter] at hs
    refine polled_await hsame hrequests ?_ ?_ ?_ ?_ hs <;> nofun

theorem polled_take (call : Call) (s : State α) : Polled call s .taking (call.take s) := by
  have hsame : SameLoop call s { s with calls := s.calls ++ [(call.command, call.stdin)] } := by
    refine ⟨rfl, rfl, rfl, rfl, ?_⟩
    intro c hc
    exact (List.mem_append.mp hc).imp id List.mem_singleton.mp
  rw [Call.take]
  split_ifs with hssh hconnection hstdin
  · exact ⟨_, hsame, rfl, .further .opening (fun _ => ⟨rfl, nofun⟩) nofun⟩
  · exact polled_conclude hsame rfl _ fun _ _ _ _ _ => rfl
  · exact polled_conclude hsame rfl _ fun hprotocol => absurd hprotocol hssh
  · exact ⟨_, hsame, rfl, .further .foreign nofun fun _ => hssh⟩

theorem polled_of_execute (hs : call.execute s point answer = some s') :
    Polled call s point s' := by
  have hsame := SameLoop.refl call s
  cases point with
  | taking =>
    cases answer with
    | ready =>
      obtain rfl := some.inj hs
      exact polled_take call s
    | _ => cases hs
  | opening =>
    refine polled_await hsame rfl ?_ ?_ ?_ ?_ hs
    · exact fun _ => rfl
    · nofun
    · exact fun _ => ⟨rfl, nofun⟩
    · nofun
  | requesting =>
    have hcounted : SameLoop call s { s with requests := s.requests + 1 } :=
      ⟨rfl, rfl, rfl, rfl, fun _ => Or.inl⟩
    exact polled_request hcounted rfl hs
  | sending => exact polled_request hsame rfl hs
  | writing => refine polled_await hsame rfl ?_ ?_ ?_ ?_ hs <;> nofun
  | closing => refine polled_await hsame rfl ?_ ?_ ?_ ?_ hs <;> nofun
  | reading =>
    cases answer with
    | pending =>
      obtain rfl := some.inj hs
      exact ⟨s, hsame, rfl, .suspended _ nofun nofun⟩
    | output o =>
      obtain rfl := some.inj hs
      exact polled_conclude hsame rfl _ nofun
    | timedOut =>
      obtain rfl := some.inj hs
      exact ⟨s, hsame, rfl, .further _ nofun nofun⟩
    | _ => cases hs
  | abandoning =>
    cases answer with
    | pending =>
      obtain rfl := some.inj hs
      exact ⟨s, hsame, rfl, .suspended _ nofun nofun⟩
    | ready =>
      obtain rfl := some.inj hs
      exact polled_conclude hsame rfl _ nofun
    | failed e =>
      obtain rfl := some.inj hs
      exact polled_conclude hsame rfl _ nofun
    | _ => cases hs
  | foreign =>
    cases answer with
    | pending =>
      obtain rfl := some.inj hs
      exact ⟨s, hsame, rfl, .suspended _ nofun id⟩
    | ended result =>
      obtain rfl := some.inj hs
      exact polled_conclude hsame rfl _ fun _ hown => absurd rfl hown
    | _ => cases hs

/-- Every step, with its guards. -/
inductive Move (call : Call) (s : State α) : State α → Prop where
  | fired : call.hasToken = true → Move call s { s with fired := true }
  | begun : s.phase = .waiting → Move call s { s with phase := .connecting, begun := s.begun + 1 }
  | connected : s.phase = .connecting →
      Move call s { s with phase := .looking .taking, hasConnection := true }
  | unconnected (e : BridgeError) : s.phase = .connecting → Move call s (call.settle s (.error e))
  | cancelled (point : Point) : s.phase = .looking point → s.fired = true →
      Move call s (call.settle { s with hasConnection := false } (.error .cancelled))
  | looked (point : Point) : s.phase = .looking point → s.fired = false →
      Move call s { s with phase := .executing point }
  | polled (point : Point) (s' : State α) : s.phase = .executing point → Polled call s point s' →
      Move call s s'

theorem move_of_step {e : Event α} (hs : call.step s e = some s') : Move call s s' := by
  cases e with
  | fire =>
    rw [Call.step] at hs
    split_ifs at hs with htoken
    obtain rfl := some.inj hs
    exact .fired htoken
  | wake =>
    rw [Call.step] at hs
    split at hs
    · next hphase =>
        obtain rfl := some.inj hs
        exact .begun hphase
    · cases hs
  | connect outcome =>
    rw [Call.step] at hs
    split at hs
    · next hphase =>
        obtain rfl := some.inj hs
        cases outcome with
        | ok _ => exact .connected hphase
        | error e => exact .unconnected e hphase
    · cases hs
  | look =>
    rw [Call.step] at hs
    split at hs
    · next point hphase =>
        split_ifs at hs with hfired
        · obtain rfl := some.inj hs
          exact .cancelled point hphase hfired
        · obtain rfl := some.inj hs
          exact .looked point hphase (Bool.eq_false_iff.mpr hfired)
    · cases hs
  | poll answer =>
    rw [Call.step] at hs
    split at hs
    · next point hphase => exact .polled point s' hphase (polled_of_execute hs)
    · cases hs

theorem settle_cases (call : Call) (s : State α) (result : Except BridgeError α) :
    (call.settle s result =
        { s with results := s.results ++ [result], attempt := s.attempt + 1, phase := .waiting } ∧
      s.attempt + 1 < max call.maxAttempts 1 ∧
      ∃ e, result = .error e ∧ isRetryableErrorFor e call.annotations.safeToReplay = true) ∨
    call.settle s result = { s with results := s.results ++ [result], phase := .returned result } := by
  cases result with
  | ok o => exact Or.inr rfl
  | error e =>
    rw [Call.settle]
    split_ifs with hretry
    · exact Or.inl ⟨rfl, hretry.1, e, rfl, hretry.2⟩
    · exact Or.inr rfl

def Phase.waits : Phase α → ℕ
  | .waiting => 1
  | _ => 0

def Phase.runs : Phase α → ℕ
  | .waiting => 0
  | .returned _ => 0
  | _ => 1

structure Counted (call : Call) (s : State α) : Prop where
  attempt : s.attempt < max call.maxAttempts 1
  begun : s.begun + s.phase.waits = s.attempt + 1
  ended : s.results.length + s.phase.runs = s.begun
  last : ∀ result, s.phase = .returned result → s.results.getLast? = some result
  calls : ∀ c ∈ s.calls, c = (call.command, call.stdin)

theorem counted_start (call : Call) : Counted call (State.start : State α) :=
  ⟨Nat.lt_of_lt_of_le Nat.zero_lt_one (Nat.le_max_right _ _), rfl, rfl, nofun, nofun⟩

theorem counted_settle (result : Except BridgeError α) (hattempt : s.attempt < max call.maxAttempts 1)
    (hbegun : s.begun = s.attempt + 1) (hended : s.results.length + 1 = s.begun)
    (hcalls : ∀ c ∈ s.calls, c = (call.command, call.stdin)) :
    Counted call (call.settle s result) := by
  have hlength : (s.results ++ [result]).length = s.begun := by
    rw [List.length_append, List.length_singleton, hended]
  rcases settle_cases call s result with ⟨heq, hmore, -⟩ | heq
  · rw [heq]
    exact ⟨hmore, congrArg (· + 1) hbegun, hlength, nofun, hcalls⟩
  · rw [heq]
    refine ⟨hattempt, hbegun, hlength, ?_, hcalls⟩
    intro _ hreturned
    cases hreturned
    exact List.getLast?_concat

theorem Counted.move (h : Counted call s) (hmove : Move call s s') : Counted call s' := by
  obtain ⟨hattempt, hbegun, hended, hlast, hcalls⟩ := h
  cases hmove with
  | fired _ => exact ⟨hattempt, hbegun, hended, hlast, hcalls⟩
  | begun hphase =>
    rw [hphase] at hbegun hended
    exact ⟨hattempt, hbegun, congrArg (· + 1) hended, nofun, hcalls⟩
  | connected hphase =>
    rw [hphase] at hbegun hended
    exact ⟨hattempt, hbegun, hended, nofun, hcalls⟩
  | unconnected e hphase =>
    rw [hphase] at hbegun hended
    exact counted_settle _ hattempt hbegun hended hcalls
  | cancelled point hphase _ =>
    rw [hphase] at hbegun hended
    exact counted_settle _ hattempt hbegun hended hcalls
  | looked point hphase _ =>
    rw [hphase] at hbegun hended
    exact ⟨hattempt, hbegun, hended, nofun, hcalls⟩
  | polled point _ hphase hpolled =>
    rw [hphase] at hbegun hended
    obtain ⟨t, hsame, -, houtcome⟩ := hpolled
    have hattempt' : t.attempt < max call.maxAttempts 1 := hsame.attempt ▸ hattempt
    have hbegun' : t.begun = t.attempt + 1 := by rw [hsame.begun, hsame.attempt, ← hbegun]; rfl
    have hended' : t.results.length + 1 = t.begun := by rw [hsame.results, hsame.begun, ← hended]; rfl
    have hcalls' : ∀ c ∈ t.calls, c = (call.command, call.stdin) := by
      intro c hc
      exact (hsame.calls c hc).elim (hcalls c) id
    cases houtcome with
    | suspended p _ _ => exact ⟨hattempt', hbegun', hended', nofun, hcalls'⟩
    | further p _ _ => exact ⟨hattempt', hbegun', hended', nofun, hcalls'⟩
    | ended result _ => exact counted_settle result hattempt' hbegun' hended' hcalls'

theorem counted_of_reaches (h : Reaches call.step (fun _ _ => True) State.start s) : Counted call s := by
  apply h.invariant (counted_start call)
  intro t e t' ht _ hstep
  exact ht.move (move_of_step hstep)

theorem settle_calls (call : Call) (s : State α) (result : Except BridgeError α) :
    (call.settle s result).calls = s.calls := by
  rcases settle_cases call s result with ⟨heq, -, -⟩ | heq
  · rw [heq]
  · rw [heq]

theorem take_calls (call : Call) (s : State α) :
    (call.take s).calls = s.calls ++ [(call.command, call.stdin)] := by
  rw [Call.take]
  split_ifs
  · rfl
  · exact settle_calls ..
  · exact settle_calls ..
  · rfl

theorem exists_sent (call : Call) : ∃ s : State α,
    Reaches call.step (fun _ _ => True) State.start s ∧ (call.command, call.stdin) ∈ s.calls := by
  have hlooked : Reaches call.step (fun _ _ => True) (State.start : State α) _ :=
    ((Reaches.refl.tail (a := .wake) trivial rfl).tail (a := .connect (.ok ())) trivial rfl).tail
      (a := .look) trivial rfl
  refine ⟨_, hlooked.tail (a := .poll .ready) trivial rfl, ?_⟩
  rw [take_calls]
  exact List.mem_append_right _ (List.mem_singleton_self _)

/-- No exec request can have begun in the attempt that the phase belongs to. -/
def Phase.unsent : Phase α → Bool
  | .waiting => true
  | .connecting => true
  | .looking p => p.beforeRequest
  | .executing p => p.beforeRequest
  | .returned _ => false

def Phase.isForeign : Phase α → Bool
  | .looking p => p = .foreign
  | .executing p => p = .foreign
  | _ => false

/-- Of a call over SSH that is not to be replayed. -/
structure SentOnce (s : State α) : Prop where
  le : s.requests ≤ 1
  unsent : s.phase.unsent = true → s.requests = 0
  own : s.phase.isForeign = false

theorem sentOnce_settle (hsafe : call.annotations.safeToReplay = false) (result : Except BridgeError α)
    (hle : s.requests ≤ 1)
    (hunsent : ∀ host reason, result = .error (.sshConnection host reason) → s.requests = 0) :
    SentOnce (call.settle s result) := by
  rcases settle_cases call s result with ⟨heq, -, e, herror, hretry⟩ | heq
  · rw [heq]
    refine ⟨hle, fun _ => ?_, rfl⟩
    rw [hsafe] at hretry
    cases e with
    | sshConnection host reason => exact hunsent host reason herror
    | _ => cases hretry
  · rw [heq]
    exact ⟨hle, nofun, rfl⟩

section
variable (hssh : call.protocol = .ssh) (hsafe : call.annotations.safeToReplay = false)
include hssh hsafe

theorem SentOnce.move (h : SentOnce s) (hmove : Move call s s') : SentOnce s' := by
  obtain ⟨hle, hunsent, hown⟩ := h
  cases hmove with
  | fired _ => exact ⟨hle, hunsent, hown⟩
  | begun hphase =>
    rw [hphase] at hunsent
    exact ⟨hle, hunsent, rfl⟩
  | connected hphase =>
    rw [hphase] at hunsent
    exact ⟨hle, hunsent, rfl⟩
  | unconnected e hphase =>
    rw [hphase] at hunsent
    exact sentOnce_settle hsafe _ hle fun _ _ _ => hunsent rfl
  | cancelled point hphase _ => exact sentOnce_settle hsafe _ hle nofun
  | looked point hphase _ =>
    rw [hphase] at hunsent hown
    exact ⟨hle, hunsent, hown⟩
  | polled point _ hphase hpolled =>
    rw [hphase] at hunsent hown
    obtain ⟨t, -, hrequests, houtcome⟩ := hpolled
    have hpoint : point ≠ .foreign := of_decide_eq_false hown
    have hle' : t.requests ≤ 1 := by
      by_cases hrequesting : point = .requesting
      · subst hrequesting
        rw [hrequests, hunsent rfl, if_pos rfl]
      · rw [hrequests, if_neg hrequesting]
        exact hle
    have hsame : point ≠ .requesting → t.requests = s.requests := by
      intro hrequesting
      rw [hrequests, if_neg hrequesting, Nat.add_zero]
    cases houtcome with
    | suspended p hp hforeign =>
      refine ⟨hle', ?_, decide_eq_false fun h => hpoint (hforeign h)⟩
      intro hbefore
      cases hp hbefore
      exact (hsame nofun).trans (hunsent rfl)
    | further p hp hforeign =>
      refine ⟨hle', ?_, decide_eq_false fun h => hforeign h hssh⟩
      intro hbefore
      obtain ⟨hfirst, hrequesting⟩ := hp hbefore
      exact (hsame hrequesting).trans (hunsent hfirst)
    | ended result herror =>
      apply sentOnce_settle hsafe result hle'
      intro host reason hresult
      cases herror hssh hpoint host reason hresult
      exact (hsame nofun).trans (hunsent rfl)

theorem sentOnce_of_reaches
    (h : Reaches call.step (fun _ _ => True) State.start s) : SentOnce s := by
  apply h.invariant
  · exact ⟨Nat.zero_le 1, fun _ => rfl, rfl⟩
  · intro t e t' ht _ hstep
    exact ht.move hssh hsafe (move_of_step hstep)

end

/-- A poll that has looked at the token and has its request still before it. -/
def Phase.underWay : Phase α → ℕ
  | .executing p => if p.beforeRequest then 1 else 0
  | _ => 0

/-- With the token fired, at most `n` requests are ever begun. -/
structure Halting (n : ℕ) (s : State α) : Prop where
  fired : s.fired = true
  bounded : s.requests + s.phase.underWay ≤ n

theorem halting_settle {n : ℕ} (result : Except BridgeError α) (hfired : s.fired = true)
    (hbounded : s.requests ≤ n) : Halting n (call.settle s result) := by
  rcases settle_cases call s result with ⟨heq, -, -⟩ | heq
  · rw [heq]
    exact ⟨hfired, hbounded⟩
  · rw [heq]
    exact ⟨hfired, hbounded⟩

theorem Halting.move {n : ℕ} (h : Halting n s) (hmove : Move call s s') : Halting n s' := by
  obtain ⟨hfired, hbounded⟩ := h
  have hle : s.requests ≤ n := (Nat.le_add_right _ _).trans hbounded
  cases hmove with
  | fired _ => exact ⟨rfl, hbounded⟩
  | begun _ => exact ⟨hfired, hle⟩
  | connected _ => exact ⟨hfired, hle⟩
  | unconnected e _ => exact halting_settle _ hfired hle
  | cancelled point _ _ => exact halting_settle _ hfired hle
  | looked point _ hunfired => cases hunfired.symm.trans hfired
  | polled point _ hphase hpolled =>
    rw [hphase] at hbounded
    obtain ⟨t, hsame, hrequests, houtcome⟩ := hpolled
    have hfired' : t.fired = true := hsame.fired.trans hfired
    have hle' : t.requests ≤ n := by
      by_cases hrequesting : point = .requesting
      · subst hrequesting
        rw [hrequests, if_pos rfl]
        exact hbounded
      · rw [hrequests, if_neg hrequesting]
        exact hle
    cases houtcome with
    | suspended p _ _ => exact ⟨hfired', hle'⟩
    | further p hp _ =>
      refine ⟨hfired', ?_⟩
      cases hbefore : p.beforeRequest with
      | false => simpa [Phase.underWay, hbefore] using hle'
      | true =>
        obtain ⟨hfirst, hrequesting⟩ := hp hbefore
        simpa [Phase.underWay, hbefore, hfirst, hrequests, hrequesting] using hbounded
    | ended result _ => exact halting_settle result hfired' hle'

theorem halting_of_reaches (hfired : s.fired = true)
    (h : Reaches call.step (fun _ _ => True) s s') :
    s'.requests ≤ s.requests + s.phase.underWay := by
  have hhalting : Halting (s.requests + s.phase.underWay) s' := by
    apply h.invariant ⟨hfired, le_rfl⟩
    intro t e t' ht _ hstep
    exact ht.move (move_of_step hstep)
  exact (Nat.le_add_right _ _).trans hhalting.bounded

/-- A call over SSH begins at most `max 1 maxAttempts` attempts and returns the result of the last
one. If it is not safe to replay it begins at most one exec request. Once the token has fired no poll
that begins later leads to a request. -/
theorem call_bounds (call : Call) (hssh : call.protocol = .ssh) (s : State α)
    (h : Reaches call.step (fun _ _ => True) State.start s) :
    (call.annotations.readOnlyHint ≠ some true →
      ¬ (call.annotations.idempotentHint = some true ∧
        call.annotations.destructiveHint ≠ some true) → s.requests ≤ 1) ∧
    s.begun ≤ max 1 call.maxAttempts ∧
    (∀ result, s.phase = .returned result →
      s.results.length = s.begun ∧ s.results.getLast? = some result) ∧
    (s.fired = true → ∀ s', Reaches call.step (fun _ _ => True) s s' →
      s'.requests ≤ s.requests + s.phase.underWay) := by
  have hcounted := counted_of_reaches h
  refine ⟨?_, ?_, ?_, ?_⟩
  · intro hread hconverges
    apply SentOnce.le
    apply sentOnce_of_reaches hssh _ h
    simpa [ToolAnnotations.safeToReplay, hread] using hconverges
  · have hattempt := hcounted.attempt
    have hbegun := hcounted.begun
    omega
  · intro result hreturned
    have hended := hcounted.ended
    rw [hreturned] at hended
    exact ⟨hended, hcounted.last result hreturned⟩
  · intro hfired s' hrest
    exact halting_of_reaches hfired hrest

/-- `ssh_helm_rollback`, which is not idempotent: each replay walks one revision further back. -/
def helmRollback : Call where
  host := "web"
  protocol := .ssh
  command := "export LC_ALL=C; helm rollback 'api'"
  stdin := none
  annotations := ⟨some false, some false, some true⟩
  maxAttempts := 3
  hasToken := true
  commandTimeoutSeconds := 30

theorem call_bounds_helmRollback : ∃ s : State Unit,
    Reaches helmRollback.step (fun _ _ => True) .start s ∧
      s.phase = .returned (.error (.sshTimeout 30)) ∧ s.requests ≤ 1 ∧ s.begun ≤ 3 ∧
      s.results.length = s.begun := by
  have hlooked : Reaches helmRollback.step (fun _ _ => True) (.start : State Unit) _ :=
    ((Reaches.refl.tail (a := .wake) trivial rfl).tail (a := .connect (.ok ())) trivial rfl).tail
      (a := .look) trivial rfl
  have hrequested := ((hlooked.tail (a := .poll .ready) trivial rfl).tail (a := .poll .ready) trivial
    rfl).tail (a := .poll .ready) trivial rfl
  have htimedOut := (hrequested.tail (a := .poll .timedOut) trivial rfl).tail (a := .poll .ready) trivial
    rfl
  obtain ⟨hrequests, hbegun, hresult, -⟩ := call_bounds helmRollback rfl _ htimedOut
  exact ⟨_, htimedOut, rfl, hrequests nofun nofun, hbegun, (hresult _ rfl).1⟩

/-- The token fires between the look of a poll and the request it leads to. -/
theorem fired_before_request :
    ∃ s s' : State Unit, Reaches helmRollback.step (fun _ _ => True) .start s ∧ s.fired = true ∧
      s.requests = 0 ∧ helmRollback.step s (.poll .ready) = some s' ∧ s'.requests = 1 := by
  have hlooked : Reaches helmRollback.step (fun _ _ => True) (.start : State Unit) _ :=
    ((Reaches.refl.tail (a := .wake) trivial rfl).tail (a := .connect (.ok ())) trivial rfl).tail
      (a := .look) trivial rfl
  have hopened := (hlooked.tail (a := .poll .ready) trivial rfl).tail (a := .poll .ready) trivial rfl
  exact ⟨_, _, hopened.tail (a := .fire) trivial rfl, rfl, rfl, rfl, rfl⟩

end BridgeMcp.Mcp.Attempts
