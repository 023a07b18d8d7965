import BridgeMcp.Lib.TextScan
import BridgeMcp.Lib.Transition

/-!
The PID file of the daemon (`daemon/pidfile.rs`): any number of processes that acquire it, drop
their guard or crash, step by step on one file.
-/
namespace BridgeMcp.PidFile
open TextLib TransitionLib Option

abbrev Pid := Fin (2 ^ 32)

/-- Where a process stands in `acquire` or `drop`. Without a guard it is `idle`; a crash is the end
of it. -/
inductive Phase where
  | idle | found | probing (existing : Option ℕ) | stale | free | holding | dropping | dead
  deriving DecidableEq

structure State where
  file : Option Text
  phase : Pid → Phase

inductive Action where
  | look (p : Pid) | read (p : Pid) | probe (p : Pid) | remove (p : Pid) | write (p : Pid)
  | drop (p : Pid) | unlink (p : Pid) | crash (p : Pid)

def content (p : Pid) : Text := decimal p.val

def State.existing (s : State) : Option ℕ := s.file.bind fun text => parseU32 (trim text)

def State.set (s : State) (p : Pid) (phase : Phase) : State :=
  { s with phase := Function.update s.phase p phase }

/-- The probe is exact, and a PID is not used again. -/
def State.isProcessAlive (s : State) (pid : ℕ) : Prop :=
  ∃ p : Pid, p.val = pid ∧ s.phase p ≠ .dead

instance (s : State) (pid : ℕ) : Decidable (s.isProcessAlive pid) :=
  decidable_of_iff (∃ h : pid < 2 ^ 32, s.phase ⟨pid, h⟩ ≠ .dead)
    ⟨fun ⟨h, hp⟩ => ⟨⟨pid, h⟩, rfl, hp⟩, fun ⟨p, hp, hlive⟩ => hp ▸ ⟨p.isLt, hlive⟩⟩

/-- `look` is the first step of `acquire`, `drop` the read at the beginning of `Drop`. -/
def State.step (s : State) : Action → Option State
  | .look p =>
    if s.phase p = .idle then some (s.set p (if s.file.isSome then .found else .free)) else none
  | .read p => if s.phase p = .found then some (s.set p (.probing s.existing)) else none
  | .probe p =>
    match s.phase p with
    | .probing existing =>
      -- an error is returned while the other daemon lives
      if existing.any (fun pid => s.isProcessAlive pid) then some (s.set p .idle)
      else some (s.set p .stale)
    | _ => none
  | .remove p => if s.phase p = .stale then some { s.set p .free with file := none } else none
  | .write p =>
    if s.phase p = .free then some { s.set p .holding with file := some (content p) } else none
  | .drop p =>
    if s.phase p = .holding then
      some (s.set p (if s.existing = some p.val then .dropping else .idle))
    else none
  | .unlink p => if s.phase p = .dropping then some { s.set p .idle with file := none } else none
  | .crash p => if s.phase p = .dead then none else some (s.set p .dead)

/-- At most one live process holds the file, and nobody is about to remove another one's. -/
def OneDaemon (s : State) : Prop :=
  (∀ p q, s.phase p = .holding → s.phase q = .holding → p = q) ∧
    ∀ p q, s.phase p = .dropping → s.phase q = .holding → s.file ≠ some (content q)

def Phase.busy : Phase → Prop
  | .idle | .holding | .dead => False
  | _ => True

/-- `acquire` and `drop` begin only while no other process is inside one of them. -/
def Apart (s : State) : Action → Prop
  | .look p | .drop p => ∀ q, q ≠ p → ¬ (s.phase q).busy
  | _ => True

structure Guarded (s : State) : Prop where
  alone : ∀ p q, (s.phase p).busy → (s.phase q).busy → p = q
  held : ∀ p, s.phase p = .holding ∨ s.phase p = .dropping → s.file = some (content p)
  probed : ∀ p e, s.phase p = .probing e → ∀ q, s.phase q = .holding → e = some q.val
  past : ∀ p, s.phase p = .stale ∨ s.phase p = .free → ∀ q, s.phase q ≠ .holding

variable {s s' : State} {a : Action} {p : Pid}

theorem parse_content (p : Pid) : parseU32 (trim (content p)) = some p.val := by
  have hlt : (p.val : ℤ) < 2 ^ 32 := by exact_mod_cast p.isLt
  rw [content, trim_decimal, parseU32_decimal, if_pos ⟨Int.natCast_nonneg _, hlt⟩, Int.toNat_natCast]

theorem content_injective {p q : Pid} (h : content p = content q) : p = q := by
  have hparse := parse_content p
  rw [h, parse_content] at hparse
  exact Fin.ext (some.inj hparse).symm

theorem Guarded.existing (h : Guarded s) (hp : s.phase p = .holding) :
    s.existing = some p.val := by
  rw [State.existing, h.held p (.inl hp), bind_some, parse_content]

/-- What is asked of the step of one process: where it goes fits the file, and the others, of whom
none is inside when it is or was. -/
theorem Guarded.set (h : Guarded s) {phase : Phase} {file : Option Text}
    (hinside : (s.phase p).busy ∨ ∀ q, q ≠ p → ¬ (s.phase q).busy)
    (hown : phase = .holding ∨ phase = .dropping → file = some (content p))
    (hother : ∀ q, q ≠ p → s.phase q = .holding → file = s.file ∧
      (∀ e, phase = .probing e → e = some q.val) ∧ phase ≠ .stale ∧ phase ≠ .free) :
    Guarded ⟨file, Function.update s.phase p phase⟩ := by
  have hout : ∀ q, q ≠ p → ¬ (s.phase q).busy := by
    intro q hq hbusy
    rcases hinside with hin | hout
    · exact hq (h.alone q p hbusy hin)
    · exact hout q hq hbusy
  have hother' : ∀ q, q ≠ p → s.phase q = .idle ∨ s.phase q = .holding ∨ s.phase q = .dead := by
    intro q hq
    have hnot := hout q hq
    cases hphase : s.phase q <;> simp_all [Phase.busy]
  constructor
  case alone => grind [Function.update_apply]
  case held => grind [Function.update_apply, h.held]
  case probed => grind [Function.update_apply, h.probed]
  case past => grind [Function.update_apply, h.past]

theorem Guarded.crash (h : Guarded s) (p : Pid) : Guarded (s.set p .dead) := by
  obtain ⟨alone, held, probed, past⟩ := h
  have hbusy : ¬ Phase.dead.busy := id
  unfold State.set
  constructor <;> grind [Function.update_apply]

theorem Guarded.step (h : Guarded s) (ha : Apart s a) (hs : s.step a = some s') : Guarded s' := by
  cases a with
  | look p =>
    obtain ⟨hp, hs⟩ := ite_none_right_eq_some.mp hs
    cases hs
    refine h.set (.inr ha) (by split_ifs <;> nofun) fun q _ hq => ?_
    have hfile := h.held q (.inl hq)
    rw [hfile]
    exact ⟨rfl, nofun, nofun, nofun⟩
  | read p =>
    obtain ⟨hp, hs⟩ := ite_none_right_eq_some.mp hs
    cases hs
    refine h.set (.inl (hp ▸ trivial)) nofun fun q _ hq => ?_
    exact ⟨rfl, fun e he => by cases he; exact h.existing hq, nofun, nofun⟩
  | probe p =>
    simp only [State.step] at hs
    split at hs
    · next e hp =>
      split_ifs at hs with halive
      · cases hs
        exact h.set (.inl (hp ▸ trivial)) nofun
          fun q _ _ => ⟨rfl, nofun, nofun, nofun⟩
      · cases hs
        refine h.set (.inl (hp ▸ trivial)) nofun fun q _ hq => ?_
        refine absurd ?_ halive
        rw [h.probed p e hp q hq]
        exact decide_eq_true ⟨q, rfl, by rw [hq]; nofun⟩
    · cases hs
  | remove p =>
    obtain ⟨hp, hs⟩ := ite_none_right_eq_some.mp hs
    cases hs
    exact h.set (.inl (hp ▸ trivial)) nofun
      fun q _ hq => absurd hq (h.past p (.inl hp) q)
  | write p =>
    obtain ⟨hp, hs⟩ := ite_none_right_eq_some.mp hs
    cases hs
    exact h.set (.inl (hp ▸ trivial)) (fun _ => rfl)
      fun q _ hq => absurd hq (h.past p (.inr hp) q)
  | drop p =>
    obtain ⟨hp, hs⟩ := ite_none_right_eq_some.mp hs
    cases hs
    refine h.set (.inr ha) (fun _ => h.held p (.inl hp)) fun q hqp hq => absurd ?_ hqp
    exact content_injective (some.inj ((h.held q (.inl hq)).symm.trans (h.held p (.inl hp))))
  | unlink p =>
    obtain ⟨hp, hs⟩ := ite_none_right_eq_some.mp hs
    cases hs
    refine h.set (.inl (hp ▸ trivial)) nofun
      fun q hqp hq => absurd ?_ hqp
    exact content_injective (some.inj ((h.held q (.inl hq)).symm.trans (h.held p (.inr hp))))
  | crash p =>
    obtain ⟨-, hs⟩ := ite_none_left_eq_some.mp hs
    cases hs
    exact h.crash p

/-- From every file and all processes idle or gone: as long as `acquire` and `drop` of different
processes do not overlap, there is one daemon, and nobody removes the file of another. -/
theorem one_daemon_of_apart (start : State)
    (hstart : ∀ p, start.phase p = .idle ∨ start.phase p = .dead) (s : State)
    (h : Reaches State.step Apart start s) : OneDaemon s := by
  have hguarded : Guarded s := by
    refine h.invariant ?_ fun s a s' hs ha hstep => hs.step ha hstep
    have hbusy : ∀ p, ¬ (start.phase p).busy := by
      intro p hp
      rcases hstart p with hidle | hdead
      · rwa [hidle] at hp
      · rwa [hdead] at hp
    constructor <;> grind
  have hsame : ∀ p q, s.file = some (content p) → s.phase q = .holding → p = q := fun p q hp hq =>
    content_injective (some.inj (hp.symm.trans (hguarded.held q (.inl hq))))
  refine ⟨fun p q hp => hsame p q (hguarded.held p (.inl hp)), fun p q hp hq _ => ?_⟩
  have heq := hsame p q (hguarded.held p (.inr hp)) hq
  rw [heq, hq] at hp
  cases hp

/-- A second starter is refused; then the first process drops its guard. -/
theorem one_daemon_of_apart_first : ∃ asked refused dropped : State,
    (asked.phase 1 = .holding ∧ asked.phase 2 = .probing (some 1) ∧ OneDaemon asked) ∧
    (asked.step (.probe 2) = some refused ∧ refused.phase 2 = .idle ∧ OneDaemon refused) ∧
    ((refused.step (.drop 1)).bind (·.step (.unlink 1)) = some dropped ∧
      dropped.file = none ∧ dropped.phase 1 = .idle ∧ OneDaemon dropped) := by
  have hheld : Reaches State.step Apart ⟨none, fun _ => .idle⟩ _ :=
    (Reaches.refl.tail (a := .look 1) (fun _ _ => id) rfl).tail (a := .write 1) trivial rfl
  have hasked := (hheld.tail (a := Action.look 2) (fun q _ => by
    by_cases hq : q = 1 <;> simp [hq, State.set, Phase.busy]) rfl).tail (a := Action.read 2) trivial rfl
  have hrefused := hasked.tail (a := Action.probe 2) trivial rfl
  have hdropped := (hrefused.tail (a := Action.drop 1) (fun q hne => by
    by_cases hq : q = 2 <;> simp [hq, hne, State.set, Phase.busy]) rfl).tail
    (a := Action.unlink 1) trivial rfl
  have hone := one_daemon_of_apart ⟨none, fun _ => .idle⟩ (fun _ => .inl rfl)
  exact ⟨_, _, _, ⟨rfl, rfl, hone _ hasked⟩, ⟨rfl, rfl, hone _ hrefused⟩,
    rfl, rfl, rfl, hone _ hdropped⟩

/-- Two starters see that there is no file before either writes it. -/
theorem two_daemons : ∃ s, Reaches State.step (fun _ _ => True) ⟨none, fun _ => .idle⟩ s ∧
    ¬ OneDaemon s := by
  obtain ⟨s, hs, hboth⟩ := exists_reaches State.step (fun _ _ => True) ⟨none, fun _ => .idle⟩
    (fun s => s.phase 1 = .holding ∧ s.phase 2 = .holding)
    [.look 1, .look 2, .write 1, .write 2] (by decide)
  have hboth := of_decide_eq_true hboth
  exact ⟨s, hs, fun h => absurd (h.1 1 2 hboth.1 hboth.2) (by decide)⟩

end BridgeMcp.PidFile
