import Mathlib.Data.List.Infix

/-!
Replacement of every occurrence of a literal, leftmost first and without overlaps, as
`str::replace` does it for a non-empty pattern.
-/
namespace TextLib
open List

variable {α : Type*} [DecidableEq α]

/-- The scan: `skip` elements still belong to the occurrence just replaced. -/
def replaceFrom (pat new : List α) : ℕ → List α → List α
  | _, [] => []
  | skip + 1, _ :: s => replaceFrom pat new skip s
  | 0, c :: s =>
    if pat <+: c :: s then new ++ replaceFrom pat new (pat.length - 1) s
    else c :: replaceFrom pat new 0 s

def replaceAll (pat new s : List α) : List α := replaceFrom pat new 0 s

@[simp] theorem replaceAll_nil (pat new : List α) : replaceAll pat new [] = [] := rfl

variable {pat s new : List α}

theorem replaceAll_miss (new : List α) {c : α} (h : ¬ pat <+: c :: s) :
    replaceAll pat new (c :: s) = c :: replaceAll pat new s := by
  simp [replaceAll, replaceFrom, h]

theorem replaceFrom_skip (pat new done s : List α) :
    replaceFrom pat new done.length (done ++ s) = replaceAll pat new s := by
  induction done with
  | nil => rfl
  | cons d done ih => simpa [replaceFrom] using ih

theorem replaceAll_hit (h : pat ≠ []) (new s : List α) :
    replaceAll pat new (pat ++ s) = new ++ replaceAll pat new s := by
  obtain ⟨p, ps, rfl⟩ := exists_cons_of_ne_nil h
  rw [replaceAll, cons_append, replaceFrom, if_pos]
  · rw [length_cons, Nat.add_sub_cancel, replaceFrom_skip]
  · exact ⟨s, rfl⟩

theorem replaceAll_cases (h : pat ≠ []) (new : List α) (c : α) (s : List α) :
    (∃ rest, c :: s = pat ++ rest ∧ rest.length ≤ s.length ∧
      replaceAll pat new (c :: s) = new ++ replaceAll pat new rest) ∨
    (¬ pat <+: c :: s ∧ replaceAll pat new (c :: s) = c :: replaceAll pat new s) := by
  by_cases hpre : pat <+: c :: s
  · left
    obtain ⟨rest, hrest⟩ := hpre
    refine ⟨rest, hrest.symm, ?_, ?_⟩
    · have hlen := congrArg length hrest
      have hpos := length_pos_iff.mpr h
      simp only [length_append, length_cons] at hlen
      omega
    · rw [← hrest]
      exact replaceAll_hit h new rest
  · exact .inr ⟨hpre, replaceAll_miss new hpre⟩

theorem replaceAll_of_absent (new : List α) (h : ¬ pat <:+: s) : replaceAll pat new s = s := by
  induction s with
  | nil => rfl
  | cons c s ih =>
    rw [replaceAll_miss new fun hpre => h hpre.isInfix]
    rw [ih fun hinf => h (hinf.trans (suffix_cons c s).isInfix)]

theorem replaceAll_length_le (h : new.length ≤ pat.length) (hpat : pat ≠ []) (s : List α) :
    (replaceAll pat new s).length ≤ s.length := by
  induction hn : s.length using Nat.strong_induction_on generalizing s with
  | _ n ih =>
    cases s with
    | nil => simp
    | cons c s =>
      rw [length_cons] at hn
      rcases replaceAll_cases hpat new c s with ⟨rest, heq, hle, hrep⟩ | ⟨-, hrep⟩
      · have hrest := ih rest.length (by omega) rest rfl
        have hlen := congrArg length heq
        simp only [length_append, length_cons] at hlen
        rw [hrep, length_append]
        omega
      · have htail := ih s.length (by omega) s rfl
        rw [hrep, length_cons]
        omega

theorem replaceAll_length_lt (h : new.length < pat.length) (hin : pat <:+: s) :
    (replaceAll pat new s).length < s.length := by
  have hpat : pat ≠ [] := by
    rintro rfl
    simp at h
  induction s with
  | nil => exact absurd (List.infix_nil.mp hin) hpat
  | cons c s ih =>
    rcases replaceAll_cases hpat new c s with ⟨rest, heq, -, hrep⟩ | ⟨hmiss, hrep⟩
    · have hrest := replaceAll_length_le h.le hpat rest
      have hlen := congrArg length heq
      simp only [length_append, length_cons] at hlen
      rw [hrep, length_append, length_cons]
      omega
    · rw [hrep, length_cons, length_cons]
      have hlater := ih ((List.infix_cons_iff.mp hin).resolve_left hmiss)
      omega

/-- A measure that adds up over the parts of a text does not change if the literal and what replaces it
measure the same. -/
theorem replaceAll_additive {f : List α → ℕ} (hf : ∀ a b, f (a ++ b) = f a + f b) (hpat : pat ≠ [])
    (hsame : f pat = f new) (s : List α) : f (replaceAll pat new s) = f s := by
  induction hn : s.length using Nat.strong_induction_on generalizing s with
  | _ n ih =>
    cases s with
    | nil => rfl
    | cons c s =>
      rw [length_cons] at hn
      rcases replaceAll_cases hpat new c s with ⟨rest, heq, hle, hrep⟩ | ⟨-, hrep⟩
      · rw [hrep, heq, hf, hf, ih rest.length (by omega) rest rfl, hsame]
      · have htail := ih s.length (by omega) s rfl
        rw [hrep, ← singleton_append, hf, htail, ← hf, singleton_append]

/-- One replacement after the other, all with the same text. -/
def replaceEach (pats : List (List α)) (new s : List α) : List α :=
  pats.foldl (fun s pat => replaceAll pat new s) s

variable {pats : List (List α)}

theorem replaceEach_of_free (new : List α) (h : ∀ pat ∈ pats, ¬ pat <:+: s) :
    replaceEach pats new s = s := by
  induction pats with
  | nil => rfl
  | cons pat pats ih =>
    rw [replaceEach, foldl_cons, replaceAll_of_absent new (h pat (by simp))]
    exact ih fun p hp => h p (by simp [hp])

theorem replaceEach_additive {f : List α → ℕ} (hf : ∀ a b, f (a ++ b) = f a + f b)
    (hpats : ∀ pat ∈ pats, pat ≠ [] ∧ f pat = f new) (s : List α) : f (replaceEach pats new s) = f s := by
  induction pats generalizing s with
  | nil => rfl
  | cons pat pats ih =>
    obtain ⟨⟨hne, hsame⟩, hrest⟩ := forall_mem_cons.mp hpats
    rw [replaceEach, foldl_cons]
    exact (ih hrest _).trans (replaceAll_additive hf hne hsame s)

theorem replaceEach_length_le (hnew : ∀ pat ∈ pats, new.length < pat.length) (s : List α) :
    (replaceEach pats new s).length ≤ s.length := by
  induction pats generalizing s with
  | nil => exact Nat.le_refl _
  | cons pat pats ih =>
    have hlt := hnew pat (by simp)
    have hne : pat ≠ [] := by
      rintro rfl
      simp at hlt
    rw [replaceEach, foldl_cons]
    exact (ih (fun p hp => hnew p (by simp [hp])) _).trans (replaceAll_length_le hlt.le hne s)

theorem replaceEach_length_lt (hnew : ∀ pat ∈ pats, new.length < pat.length)
    (h : ∃ pat ∈ pats, pat <:+: s) : (replaceEach pats new s).length < s.length := by
  induction pats with
  | nil => simp at h
  | cons pat pats ih =>
    rw [replaceEach, foldl_cons]
    by_cases hpat : pat <:+: s
    · exact Nat.lt_of_le_of_lt
        (replaceEach_length_le (fun p hp => hnew p (by simp [hp])) _)
        (replaceAll_length_lt (hnew pat (by simp)) hpat)
    · rw [replaceAll_of_absent new hpat]
      obtain ⟨p, hp, hin⟩ := h
      rcases mem_cons.mp hp with rfl | later
      · exact absurd hin hpat
      · exact ih (fun p hp => hnew p (by simp [hp])) ⟨p, later, hin⟩

end TextLib
