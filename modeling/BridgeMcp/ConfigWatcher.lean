import BridgeMcp.Lib.Text

/-!
Hot reload (`config/watcher.rs`): the callback of the file watcher reads the configuration file and
puts what it loads in force, unless the last reload that succeeded is too recent.
-/
namespace BridgeMcp.ConfigWatcher
open TextLib List

def debounceDuration : ℕ := 500 * 1000000

inductive EventKind where
  | any
  | access
  | create
  | modify
  | remove
  | other
  deriving DecidableEq

structure Event (Path : Type) where
  kind : EventKind
  paths : List Path

section Handler
variable {Path Content Config Rules : Type} [DecidableEq Path]

def Event.concerns (event : Event Path) (configPath : Path) : Bool :=
  (event.kind = .modify || event.kind = .create) && event.paths.any (· = configPath)

/-- `Instant::duration_since` is zero for an earlier instant. -/
def shouldProcessEvent (event : Event Path) (configPath : Path) (lastReload now : ℕ) : Bool :=
  if !event.concerns configPath then false
  else if now - lastReload < debounceDuration then false
  else true

/-- The file, what is in force, and the start of the debounce window. `rules` is there when the
watcher has a validator; `reads` are the contents that were read, the latest first. -/
structure Watching (Content Config Rules : Type) where
  file : Content
  config : Config
  rules : Option Rules
  lastReload : ℕ
  reads : List Content

open Watching

/-- A watcher made at `now` over a configuration in force. The subtraction fails before the clock's
first instant. -/
def Watching.start (file : Content) (config : Config) (rules : Option Rules) (now : ℕ) :
    Watching Content Config Rules :=
  ⟨file, config, rules, if debounceDuration ≤ now then now - debounceDuration else now, []⟩

variable (load : Content → Except Text Config) (compile : Config → Rules) (configPath : Path)

/-- `load_config` and what follows it in the callback. The locks are never poisoned: nobody panics
while holding one. -/
def reload (st : Watching Content Config Rules) (now : ℕ) : Watching Content Config Rules :=
  match load st.file with
  | .ok newConfig =>
    { st with
      lastReload := now
      config := newConfig
      rules := st.rules.map fun _ => compile newConfig
      reads := st.file :: st.reads }
  | .error _ => { st with reads := st.file :: st.reads }

def reloadHandler (st : Watching Content Config Rules) (res : Except Text (Event Path)) (now : ℕ) :
    Watching Content Config Rules :=
  match res with
  | .error _ => st
  | .ok event =>
    if !shouldProcessEvent event configPath st.lastReload now then st
    else reload load compile st now

inductive Action (Path Content : Type) where
  | write (content : Content)
  | handle (res : Except Text (Event Path)) (now : ℕ)

def Watching.step (st : Watching Content Config Rules) : Action Path Content →
    Watching Content Config Rules
  | .write content => { st with file := content }
  | .handle res now => reloadHandler load compile configPath st res now

def Watching.run (st : Watching Content Config Rules) (history : List (Action Path Content)) :
    Watching Content Config Rules :=
  history.foldl (step load compile configPath) st

def Action.isWrite : Action Path Content → Bool
  | .write _ => true
  | .handle _ _ => false

def Action.heard (lastReload : ℕ) : Action Path Content → Bool
  | .write _ => false
  | .handle (.error _) _ => false
  | .handle (.ok event) now => shouldProcessEvent event configPath lastReload now

def lastLoaded (initial : Config) (reads : List Content) : Config :=
  (reads.findSome? fun content => (load content).toOption).getD initial

variable {load compile configPath} {st : Watching Content Config Rules}

variable {action : Action Path Content}

theorem step_of_not_heard (hwrite : action.isWrite = false)
    (h : action.heard configPath st.lastReload = false) :
    st.step load compile configPath action = st := by
  cases action with
  | write content => cases hwrite
  | handle res now =>
    cases res with
    | error e => rfl
    | ok event =>
      have hignored : shouldProcessEvent event configPath st.lastReload now = false := h
      rw [step, reloadHandler, hignored]
      rfl

theorem step_of_heard (load : Content → Except Text Config) (compile : Config → Rules)
    (h : action.heard configPath st.lastReload = true) :
    ∃ now, st.step load compile configPath action = reload load compile st now := by
  cases action with
  | write content => cases h
  | handle res now =>
    cases res with
    | error e => cases h
    | ok event =>
      have hheard : shouldProcessEvent event configPath st.lastReload now = true := h
      refine ⟨now, ?_⟩
      rw [step, reloadHandler, hheard]
      rfl

theorem file_reload (now : ℕ) : (reload load compile st now).file = st.file := by
  rw [reload]
  split <;> rfl

theorem step_cases (load : Content → Except Text Config) (compile : Config → Rules)
    (hwrite : action.isWrite = false) :
    st.step load compile configPath action = st ∨
      ∃ now, st.step load compile configPath action = reload load compile st now := by
  cases hheard : action.heard configPath st.lastReload with
  | false => exact .inl (step_of_not_heard hwrite hheard)
  | true => exact .inr (step_of_heard load compile hheard)

variable {newConfig : Config}

theorem config_reload (h : load st.file = .ok newConfig) (now : ℕ) :
    (reload load compile st now).config = newConfig := by
  rw [reload, h]

theorem reload_of_error {e : Text} (h : load st.file = .error e) (now : ℕ) :
    reload load compile st now = { st with reads := st.file :: st.reads } := by
  rw [reload, h]

structure InForce (load : Content → Except Text Config) (compile : Config → Rules) (initial : Config)
    (validator : Bool) (st : Watching Content Config Rules) : Prop where
  config : st.config = lastLoaded load initial st.reads
  rules : st.rules = if validator then some (compile st.config) else none

variable {initial : Config} {validator : Bool}

section
variable (h : InForce load compile initial validator st)
include h

theorem InForce.reload (now : ℕ) :
    InForce load compile initial validator (reload load compile st now) := by
  cases hload : load st.file with
  | error e =>
    rw [reload_of_error hload]
    refine ⟨?_, h.rules⟩
    rw [h.config, lastLoaded, lastLoaded, findSome?_cons, hload]
    rfl
  | ok newConfig =>
    rw [ConfigWatcher.reload, hload]
    constructor
    · rw [lastLoaded, findSome?_cons, hload]
      rfl
    · dsimp only
      rw [h.rules]
      cases validator <;> rfl

theorem InForce.step (action : Action Path Content) :
    InForce load compile initial validator (st.step load compile configPath action) := by
  cases action with
  | write content => exact ⟨h.config, h.rules⟩
  | handle res now =>
    have hwrite : (Action.handle res now : Action Path Content).isWrite = false := rfl
    rcases step_cases load compile hwrite with hstep | ⟨now, hstep⟩
    · exact hstep.symm ▸ h
    · exact hstep.symm ▸ h.reload now

theorem InForce.run (history : List (Action Path Content)) :
    InForce load compile initial validator (st.run load compile configPath history) := by
  induction history generalizing st with
  | nil => exact h
  | cons action history ih => exact ih (h.step action)

end

section Quiet
variable {after : List (Action Path Content)}

theorem file_step {action : Action Path Content} (hwrite : action.isWrite = false) :
    (st.step load compile configPath action).file = st.file := by
  rcases step_cases load compile hwrite with hstep | ⟨now, hstep⟩
  · rw [hstep]
  · rw [hstep, file_reload]

theorem file_run (hafter : ∀ action ∈ after, action.isWrite = false) :
    (st.run load compile configPath after).file = st.file := by
  induction after generalizing st with
  | nil => rfl
  | cons action after ih =>
    obtain ⟨hwrite, hafter⟩ := forall_mem_cons.mp hafter
    exact (ih hafter).trans (file_step hwrite)

theorem config_run_of_loaded (hload : load st.file = .ok newConfig)
    (hconfig : st.config = newConfig) (hafter : ∀ action ∈ after, action.isWrite = false) :
    (st.run load compile configPath after).config = newConfig := by
  induction after generalizing st with
  | nil => exact hconfig
  | cons action after ih =>
    obtain ⟨hwrite, hafter⟩ := forall_mem_cons.mp hafter
    apply ih _ _ hafter
    · rw [file_step hwrite, hload]
    · rcases step_cases load compile hwrite with hstep | ⟨now, hstep⟩
      · rw [hstep, hconfig]
      · rw [hstep, config_reload hload]

theorem config_run (hload : load st.file = .ok newConfig)
    (hafter : ∀ action ∈ after, action.isWrite = false) :
    (st.run load compile configPath after).config =
      if after.any (Action.heard configPath st.lastReload) then newConfig else st.config := by
  induction after generalizing st with
  | nil => rfl
  | cons action after ih =>
    obtain ⟨hwrite, hafter⟩ := forall_mem_cons.mp hafter
    rw [run, foldl_cons, ← run, any_cons]
    cases hheard : action.heard configPath st.lastReload with
    | false =>
      rw [step_of_not_heard hwrite hheard, ih hload hafter, Bool.false_or]
    | true =>
      obtain ⟨now, hstep⟩ := step_of_heard load compile hheard
      rw [hstep, Bool.true_or, if_pos rfl]
      apply config_run_of_loaded _ (config_reload hload now) hafter
      rw [file_reload, hload]

theorem config_run_of_error {e : Text} (hload : load st.file = .error e)
    (hafter : ∀ action ∈ after, action.isWrite = false) :
    (st.run load compile configPath after).config = st.config := by
  induction after generalizing st with
  | nil => rfl
  | cons action after ih =>
    obtain ⟨hwrite, hafter⟩ := forall_mem_cons.mp hafter
    rw [run, foldl_cons, ← run]
    rcases step_cases load compile hwrite with hstep | ⟨now, hstep⟩
    · rw [hstep, ih hload hafter]
    · rw [hstep, reload_of_error hload]
      exact ih hload hafter

end Quiet

/-- After any history, what is in force is the last content that loaded. From a point on where the
file is not written any more, its content is in force at the end exactly when it was in force
already or a change is heard outside the window of the last reload before that point; a content that
does not load changes nothing. -/
theorem last_write_wins (load : Content → Except Text Config) (compile : Config → Rules)
    (configPath : Path) (file : Content) (config : Config) (validator : Bool) (now : ℕ)
    (before after : List (Action Path Content)) (hafter : ∀ action ∈ after, action.isWrite = false) :
    let start := start file config (if validator then some (compile config) else none) now
    let st := start.run load compile configPath before
    let final := start.run load compile configPath (before ++ after)
    InForce load compile config validator final ∧ final.file = st.file ∧
      (∀ newConfig, load st.file = .ok newConfig →
        (final.config = newConfig ↔
          after.any (Action.heard configPath st.lastReload) = true ∨ st.config = newConfig)) ∧
      (∀ e, load st.file = .error e → final.config = st.config ∧ final.rules = st.rules) := by
  intro start st final
  have hfinal : final = st.run load compile configPath after := foldl_append
  have hinitial : InForce load compile config validator start := ⟨rfl, rfl⟩
  have hinForce : InForce load compile config validator final := hinitial.run _
  refine ⟨hinForce, ?_, ?_, ?_⟩
  · rw [hfinal, file_run hafter]
  · intro newConfig hload
    rw [hfinal, config_run hload hafter]
    split_ifs with hheard
    · exact iff_of_true rfl (.inl hheard)
    · simp [hheard]
  · intro e hload
    have hconfig : final.config = st.config := by rw [hfinal, config_run_of_error hload hafter]
    exact ⟨hconfig, by rw [hinForce.rules, (hinitial.run before).rules, hconfig]⟩

end Handler

section Runs

def loadNumber (n : ℕ) : Except Text ℕ := if n = 0 then .error "empty" else .ok n

def saved (now : ℕ) : Action Unit ℕ := .handle (.ok ⟨.modify, [()]⟩) (now * 1000000)

theorem last_write_wins_apart :
    let start := Watching.start 1 1 (some 1) 5000000000
    let final := start.run loadNumber id () [.write 2, saved 5000, .write 0, saved 6000, .write 3,
      saved 6001]
    final.config = 3 ∧ final.rules = some 3 := by
  have h := last_write_wins loadNumber id () 1 1 true 5000000000
    [.write 2, saved 5000, .write 0, saved 6000, .write 3] [saved 6001]
    (forall_mem_singleton.mpr rfl)
  have hconfig := (h.2.2.1 3 rfl).mpr (.inl rfl)
  exact ⟨hconfig, h.1.rules.trans (congrArg some hconfig)⟩

/-- Two saves a tenth of a second apart: the second is never read. -/
theorem second_save_lost :
    let start := Watching.start 1 1 (some 1) 5000000000
    let final := start.run loadNumber id () [.write 2, saved 5000, .write 3, saved 5100]
    final.file = 3 ∧ loadNumber 3 = .ok 3 ∧ final.config = 2 ∧ final.rules = some 2 := by
  exact ⟨rfl, rfl, rfl, rfl⟩

end Runs

end BridgeMcp.ConfigWatcher
