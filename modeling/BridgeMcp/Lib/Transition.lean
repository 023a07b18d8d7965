import Mathlib.Data.List.Basic

/-!
Runs of a labelled transition system. A step may be disabled, and a run may be restricted to
steps that meet a condition on the state they are taken in.
-/
namespace TransitionLib
open List

variable {σ α : Type*}

/-- `s` is reached from `start` by steps that are all allowed where they are taken. -/
inductive Reaches (step : σ → α → Option σ) (allowed : σ → α → Prop) (start : σ) : σ → Prop where
  | refl : Reaches step allowed start start
  | tail {s s' : σ} {a : α} : Reaches step allowed start s → allowed s a → step s a = some s' →
      Reaches step allowed start s'

variable {step : σ → α → Option σ} {allowed : σ → α → Prop} {start s : σ}

theorem Reaches.invariant {P : σ → Prop} (hstart : P start)
    (hstep : ∀ s a s', P s → allowed s a → step s a = some s' → P s')
    (h : Reaches step allowed start s) : P s := by
  induction h with
  | refl => exact hstart
  | tail _ hallowed hs ih => exact hstep _ _ _ ih hallowed hs

theorem Reaches.trans {t : σ} (h : Reaches step allowed start s) (h' : Reaches step allowed s t) :
    Reaches step allowed start t := by
  induction h' with
  | refl => exact h
  | tail _ hallowed hs ih => exact ih.tail hallowed hs

theorem Reaches.mono {allowed' : σ → α → Prop} (h : Reaches step allowed start s)
    (hallowed : ∀ s a, allowed s a → allowed' s a) : Reaches step allowed' start s := by
  induction h with
  | refl => exact .refl
  | tail _ ha hs ih => exact ih.tail (hallowed _ _ ha) hs

/-- The schedule `as` carried out from `s`; `none` when a step of it is disabled or not allowed. -/
def runAll (step : σ → α → Option σ) (allowed : σ → α → Prop) [∀ s a, Decidable (allowed s a)] :
    σ → List α → Option σ
  | s, [] => some s
  | s, a :: as =>
    if allowed s a then (step s a).bind fun s' => runAll step allowed s' as else none

theorem runAll_reaches [∀ s a, Decidable (allowed s a)] (as : List α)
    (h : runAll step allowed start as = some s) : Reaches step allowed start s := by
  induction as generalizing start with
  | nil =>
    rw [runAll, Option.some.injEq] at h
    exact h ▸ .refl
  | cons a as ih =>
    rw [runAll] at h
    split at h
    · next hallowed =>
        obtain ⟨s', hs, hrest⟩ := Option.bind_eq_some_iff.mp h
        exact (Reaches.refl.tail hallowed hs).trans (ih hrest)
    · cases h

theorem length_le_of_runAll [∀ s a, Decidable (allowed s a)] (measure : σ → ℕ)
    (hlower : ∀ s a s', allowed s a → step s a = some s' → measure s' < measure s) (as : List α)
    (h : runAll step allowed start as = some s) : as.length + measure s ≤ measure start := by
  induction as generalizing start with
  | nil =>
    rw [runAll, Option.some.injEq] at h
    subst h
    exact Nat.le_of_eq (Nat.zero_add _)
  | cons a as ih =>
    rw [runAll] at h
    split at h
    · next hallowed =>
        obtain ⟨s', hs, hrest⟩ := Option.bind_eq_some_iff.mp h
        have hfirst := hlower start a s' hallowed hs
        have hlater := ih hrest
        rw [length_cons]
        omega
    · cases h

theorem exists_reaches (step : σ → α → Option σ) (allowed : σ → α → Prop)
    [∀ s a, Decidable (allowed s a)] (start : σ) (P : σ → Bool) (as : List α)
    (h : (runAll step allowed start as).any P = true) :
    ∃ s, Reaches step allowed start s ∧ P s = true := by
  cases hrun : runAll step allowed start as with
  | none =>
    rw [hrun] at h
    cases h
  | some s =>
    rw [hrun] at h
    exact ⟨s, runAll_reaches as hrun, h⟩

section Total
variable {next : σ → α → σ} {P : σ → α → Prop}

/-- At each step of the run `P` holds of the state the step is taken in. -/
def Along (next : σ → α → σ) (P : σ → α → Prop) (s : σ) (as : List α) : Prop :=
  ∀ before a after, as = before ++ a :: after → P (before.foldl next s) a

theorem along_nil : Along next P s [] := by
  intro before a after h
  cases before <;> cases h

theorem along_cons {a : α} {as : List α} :
    Along next P s (a :: as) ↔ P s a ∧ Along next P (next s a) as := by
  constructor
  · intro h
    refine ⟨h [] a as rfl, fun before b after hsplit => ?_⟩
    exact h (a :: before) b after (by rw [hsplit, cons_append])
  · rintro ⟨hfirst, hrest⟩ before b after hsplit
    cases before with
    | nil =>
      obtain ⟨rfl, rfl⟩ := cons.inj hsplit
      exact hfirst
    | cons c before =>
      obtain ⟨rfl, htail⟩ := cons.inj hsplit
      exact hrest before b after htail

theorem Along.of_append {as bs : List α} (h : Along next P s (as ++ bs)) : Along next P s as :=
  fun before a after hsplit => h before a (after ++ bs) (by rw [hsplit, append_assoc,
    cons_append])

theorem Along.append_right {as bs : List α} (h : Along next P s (as ++ bs)) :
    Along next P (as.foldl next s) bs := by
  intro before a after hsplit
  rw [← foldl_append]
  exact h (as ++ before) a after (by rw [hsplit, append_assoc])

theorem Along.invariant {Q : σ → Prop} {as : List α} (h : Along next P s as) (hs : Q s)
    (hstep : ∀ s a, Q s → P s a → Q (next s a)) : Q (as.foldl next s) := by
  induction as generalizing s with
  | nil => exact hs
  | cons a as ih =>
    obtain ⟨hfirst, hrest⟩ := along_cons.mp h
    exact ih hrest (hstep s a hs hfirst)

end Total

end TransitionLib
