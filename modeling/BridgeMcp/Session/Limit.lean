import Mathlib.Algebra.BigOperators.Group.List.Basic
import BridgeMcp.Session.Manager

/-!
How many sessions the manager can hold. `create` compares the size of the map with the limit under
one acquisition of the lock and inserts under a later one, with the connection in between.
-/
namespace BridgeMcp.Session
open TransitionLib List

/-- The session that a call past its limit check is still going to insert. -/
def Task.slots : Task → ℕ
  | .connecting _ _ | .initializing _ _ | .inserting _ _ _ => 1
  | _ => 0

namespace SessionManager

section
variable (m : SessionManager)
include m

theorem auditDestroyed_sessions (now : ℕ) (reason : ReapReason)
    (id : SessionId) (session : ShellSession) :
    (m.auditDestroyed now reason id session).sessions = m.sessions := rfl

theorem auditDestroyed_config (now : ℕ) (reason : ReapReason)
    (id : SessionId) (session : ShellSession) :
    (m.auditDestroyed now reason id session).config = m.config := rfl

theorem sessionCount_insert (id : SessionId) (session : ShellSession) :
    { m with sessions := m.sessions.insert id session }.sessionCount ≤ m.sessionCount + 1 := by
  simp only [sessionCount, AList.entries_insert, length_cons]
  exact Nat.succ_le_succ (kerase_sublist id m.sessions.entries).length_le

theorem sessionCount_erase (id : SessionId) :
    { m with sessions := m.sessions.erase id }.sessionCount ≤ m.sessionCount :=
  (kerase_sublist id m.sessions.entries).length_le

theorem sessionCount_removeDeadSession (now : ℕ) (id : SessionId)
    (reason : ReapReason) : (m.removeDeadSession now id reason).sessionCount ≤ m.sessionCount := by
  unfold removeDeadSession
  split
  · exact m.sessionCount_erase id
  · exact Nat.le_refl _

theorem sessionCount_touch (now : ℕ) (id : SessionId) :
    (m.touch now id).sessionCount = m.sessionCount := by
  unfold touch
  split
  · next session _ =>
      have hkeys := congrArg length
        (AList.keys_replace id { session with lastUsed := now } m.sessions)
      simpa only [sessionCount, AList.keys, keys, length_map] using hkeys
  · rfl

end

theorem sessionCount_removeAll (now : ℕ) (expired : List (SessionId × ReapReason))
    (m : SessionManager) :
    (expired.foldl (fun m entry => m.removeDeadSession now entry.1 entry.2) m).sessionCount ≤
      m.sessionCount := by
  induction expired generalizing m with
  | nil => exact Nat.le_refl _
  | cons entry expired ih =>
    exact (ih _).trans (m.sessionCount_removeDeadSession now entry.1 entry.2)

theorem sessions_auditAll (now : ℕ) (entries : List (Sigma fun _ : SessionId => ShellSession))
    (m : SessionManager) :
    (entries.foldl (fun m entry => m.auditDestroyed now .shutdown entry.1 entry.2) m).sessions =
      m.sessions := by
  induction entries generalizing m with
  | nil => rfl
  | cons entry entries ih => rw [foldl_cons, ih, auditDestroyed_sessions]

variable (m : SessionManager)

theorem resume_slots (now : ℕ) (answer : Except BridgeError Unit) (task : Task) :
    (m.resume now answer task).1.sessionCount + (m.resume now answer task).2.slots ≤
        m.sessionCount + task.slots ∨
      ∃ host id, task = .start (.create host id) ∧ m.sessionCount < m.config.maxSessions ∧
        m.resume now answer task = (m, .connecting host id) := by
  cases task with
  | start operation =>
    cases operation with
    | create host id =>
      by_cases hfull : m.config.maxSessions ≤ m.sessionCount
      · simp [resume, hfull, Task.slots]
      · exact .inr ⟨host, id, rfl, by omega, by simp [resume, hfull]⟩
    | exec id endsSession =>
      left
      simp only [resume, Task.slots]
      split
      · simp
      · split
        · simp [sessionCount_removeDeadSession]
        · split <;> simp
    | close id =>
      left
      simp only [resume, Task.slots]
      split <;> simp [sessionCount_erase]
    | closeAll => simp [resume, sessionCount, sessions_auditAll, Task.slots]
    | cleanup => simp [resume, sessionCount_removeAll, Task.slots]
  | inserting host id createdAt =>
    left
    simpa [resume, Task.slots] using m.sessionCount_insert id ⟨host, createdAt, createdAt⟩
  | draining id =>
    left
    cases answer with
    | ok _ => simp [resume, Task.slots, sessionCount_touch]
    | error e =>
      simp only [resume, Task.slots]
      split <;> simp [sessionCount_removeDeadSession]
  | reading id =>
    left
    cases answer with
    | ok _ => simp [resume, Task.slots]
    | error e =>
      simp only [resume, Task.slots]
      split <;> simp [sessionCount_removeDeadSession]
  | sending id => cases answer <;> simp [resume, Task.slots, sessionCount_removeDeadSession]
  | connecting host id => cases answer <;> simp [resume, Task.slots]
  | initializing host id => cases answer <;> simp [resume, Task.slots]
  | closingRemoved connections => cases connections <;> simp [resume, Task.slots]
  | closingUninitialized _ => simp [resume, Task.slots]
  | closingDead _ => simp [resume, Task.slots]
  | closingClient => simp [resume, Task.slots]
  | done _ => simp [resume, Task.slots]
  | dropped => simp [resume, Task.slots]

theorem removeDeadSession_config (now : ℕ) (id : SessionId)
    (reason : ReapReason) : (m.removeDeadSession now id reason).config = m.config := by
  unfold removeDeadSession
  split <;> rfl

theorem touch_config (now : ℕ) (id : SessionId) :
    (m.touch now id).config = m.config := by
  unfold touch
  split <;> rfl

theorem foldl_config {α : Type} {f : SessionManager → α → SessionManager}
    (hf : ∀ m a, (f m a).config = m.config) (l : List α) (m : SessionManager) :
    (l.foldl f m).config = m.config := by
  induction l generalizing m with
  | nil => rfl
  | cons a l ih => rw [foldl_cons, ih, hf]

theorem resume_config (now : ℕ) (answer : Except BridgeError Unit)
    (task : Task) : (m.resume now answer task).1.config = m.config := by
  fun_cases resume m now answer task <;>
    simp only [removeDeadSession_config, touch_config]
  · exact foldl_config (fun m _ => m.auditDestroyed_config now .shutdown _ _) _ _
  · exact foldl_config (fun m _ => m.removeDeadSession_config now _ _) _ _

end SessionManager

namespace World

/-- The sessions stored, and those that calls past their limit check may still store. -/
def load (w : World) : ℕ := w.manager.sessionCount + (w.tasks.map Task.slots).sum

/-- The call is a `create` in front of its limit check. -/
def checksLimit (w : World) (t : ℕ) : Bool :=
  match w.tasks[t]? with
  | some (.start (.create _ _)) => true
  | _ => false

/-- A `create` passes its limit check only while a slot is left for it. -/
def SlotReserved (w : World) : Action → Prop
  | .resume t _ =>
    w.checksLimit t = true → w.manager.sessionCount < w.manager.config.maxSessions →
      w.load < w.manager.config.maxSessions
  | _ => True

instance (w : World) (a : Action) : Decidable (w.SlotReserved a) := by
  cases a <;> unfold SlotReserved <;> infer_instance

theorem sum_slots_set {tasks : List Task} {t : ℕ} {task : Task} (h : tasks[t]? = some task)
    (next : Task) :
    ((tasks.set t next).map Task.slots).sum + task.slots =
      (tasks.map Task.slots).sum + next.slots := by
  induction tasks generalizing t with
  | nil => simp at h
  | cons head tasks ih =>
    cases t with
    | zero =>
      obtain rfl : head = task := by simpa using h
      simp only [set_cons_zero, map_cons, sum_cons]
      omega
    | succ t =>
      have hrest := ih (t := t) (by simpa using h)
      simp only [set_cons_succ, map_cons, sum_cons]
      omega

theorem step_load {w w' : World} {a : Action} (h : w.step a = some w') :
    w'.manager.config = w.manager.config ∧
      (w'.load ≤ w.load ∨
        ∃ t answer, a = .resume t answer ∧ w.checksLimit t = true ∧
          w.manager.sessionCount < w.manager.config.maxSessions ∧ w'.load = w.load + 1) := by
  cases a with
  | call operation =>
    cases h
    simp [load, Task.slots]
  | tick nanos =>
    cases h
    exact ⟨rfl, .inl (Nat.le_refl _)⟩
  | abandon t =>
    obtain ⟨task, htask, hnext⟩ := Option.bind_eq_some_iff.mp h
    split at hnext
    · cases hnext
    · cases hnext
      have hsum := sum_slots_set htask .dropped
      simp only [Task.slots, Nat.add_zero] at hsum
      exact ⟨rfl, .inl (by simp only [load]; omega)⟩
  | resume t answer =>
    obtain ⟨task, htask, hnext⟩ := Option.bind_eq_some_iff.mp h
    split at hnext
    · cases hnext
    · cases hnext
      refine ⟨w.manager.resume_config w.now answer task, ?_⟩
      have hsum := sum_slots_set htask (w.manager.resume w.now answer task).2
      simp only [load]
      rcases w.manager.resume_slots w.now answer task with hle | ⟨host, id, rfl, hbelow, hnext⟩
      · exact .inl (by omega)
      · refine .inr ⟨t, answer, rfl, by simp [checksLimit, htask], hbelow, ?_⟩
        simp only [hnext, Task.slots] at hsum ⊢
        omega

/-- If every `create` that passes its limit check finds a slot that no other call has taken, the
stored sessions never exceed the limit, whatever the schedule. -/
theorem sessions_within_limit (config : SessionConfig) (w : World)
    (h : Reaches step SlotReserved (new config) w) :
    w.manager.sessionCount ≤ config.maxSessions := by
  have hinv : w.manager.config = config ∧ w.load ≤ config.maxSessions := by
    refine Reaches.invariant (P := fun w => w.manager.config = config ∧ w.load ≤ config.maxSessions)
      ⟨rfl, Nat.zero_le _⟩ ?_ h
    rintro s a s' ⟨rfl, hload⟩ hreserved hs
    obtain ⟨hconfig, hle | ⟨t, answer, rfl, hcheck, hbelow, hnext⟩⟩ := step_load hs
    · exact ⟨hconfig, hle.trans hload⟩
    · have hslot := hreserved hcheck hbelow
      exact ⟨hconfig, by omega⟩
  exact (Nat.le_add_right _ _).trans hinv.2

def waitingSchedule : List Action :=
  [.call (.create [] 7), .call (.create [] 8), .resume 0 (.ok ()), .resume 0 (.ok ()),
    .resume 0 (.ok ()), .resume 0 (.ok ()), .resume 1 (.ok ())]

theorem sessions_within_limit_waiting :
    ∃ w, runAll step SlotReserved (new ⟨1, 300, 3600⟩) waitingSchedule = some w ∧
      w.manager.sessionCount ≤ 1 :=
  ⟨_, rfl, sessions_within_limit ⟨1, 300, 3600⟩ _ (runAll_reaches waitingSchedule rfl)⟩

/-- Two calls that both check the limit before either inserts. -/
def racingSchedule : List Action :=
  [.call (.create [] 7), .call (.create [] 8), .resume 0 (.ok ()), .resume 1 (.ok ()),
    .resume 0 (.ok ()), .resume 0 (.ok ()), .resume 0 (.ok ()),
    .resume 1 (.ok ()), .resume 1 (.ok ()), .resume 1 (.ok ())]

theorem racing_creates_exceed_limit :
    ∃ w, Reaches step (fun _ _ => True) (new ⟨1, 300, 3600⟩) w ∧ 1 < w.manager.sessionCount :=
  ⟨_, runAll_reaches racingSchedule rfl, by decide⟩

end World
end BridgeMcp.Session
