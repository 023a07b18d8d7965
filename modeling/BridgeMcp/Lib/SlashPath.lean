import BridgeMcp.Lib.Text

/-!
Absolute paths as texts: runs of slashes count as one and trailing ones are dropped. Two paths
touch when one is the other or lies inside it.
-/
namespace SlashPath
open TextLib List

/-- Every run of slashes as one. -/
def squeeze (s : Text) : Text :=
  s.foldr (fun c t => if c = '/' ∧ t.head? = some '/' then t else c :: t) []

/-- Without double and trailing slashes. -/
def normal (p : Text) : Text := (squeeze p).rdropWhile (· = '/')

def IsAbsolute (p : Text) : Prop := p.head? = some '/'

instance (p : Text) : Decidable (IsAbsolute p) := inferInstanceAs (Decidable (_ = _))

/-- `p` is `d`, lies inside `d` or is an ancestor of `d`. -/
def Touches (p d : Text) : Prop :=
  IsAbsolute p ∧ (normal p = d ∨ d ++ ['/'] <+: normal p ∨ normal p ++ ['/'] <+: d)

theorem squeeze_cons (c : Char) (s : Text) :
    squeeze (c :: s) =
      if c = '/' ∧ (squeeze s).head? = some '/' then squeeze s else c :: squeeze s := rfl

@[simp] theorem head?_squeeze (s : Text) : (squeeze s).head? = s.head? := by
  cases s with
  | nil => rfl
  | cons c s =>
    rw [squeeze_cons]
    split_ifs with h
    · rw [h.1, h.2]
      rfl
    · rfl

variable {s p : Text}

theorem squeeze_slashes (h : s.head? = some '/') : squeeze ('/' :: s) = squeeze s := by
  rw [squeeze_cons, head?_squeeze, if_pos ⟨rfl, h⟩]

variable {c : Char}

theorem squeeze_cons_of_not (h : ¬ (c = '/' ∧ s.head? = some '/')) :
    squeeze (c :: s) = c :: squeeze s := by
  rw [squeeze_cons, head?_squeeze, if_neg h]

theorem squeeze_no_double (s : Text) : ¬ ['/', '/'] <:+: squeeze s := by
  induction s with
  | nil => simp [squeeze]
  | cons c s ih =>
    by_cases h : c = '/' ∧ s.head? = some '/'
    · rw [h.1, squeeze_slashes h.2]
      exact ih
    · rw [squeeze_cons_of_not h, infix_cons_iff, not_or]
      refine ⟨?_, ih⟩
      intro hdouble
      obtain ⟨hc, hnext⟩ := cons_prefix_cons.mp hdouble
      obtain ⟨t, ht⟩ := hnext
      exact h ⟨hc.symm, by rw [← head?_squeeze, ← ht]; rfl⟩

theorem mem_squeeze : c ∈ squeeze s ↔ c ∈ s := by
  induction s with
  | nil => rfl
  | cons d s ih =>
    by_cases h : d = '/' ∧ s.head? = some '/'
    · rw [h.1, squeeze_slashes h.2, ih, mem_cons]
      refine ⟨.inr, ?_⟩
      rintro (rfl | hc)
      · exact mem_of_head? h.2
      · exact hc
    · rw [squeeze_cons_of_not h, mem_cons, mem_cons, ih]

theorem squeeze_append {u : Text} (h : ¬ ['/', '/'] <:+: u ++ ['/']) (v : Text) :
    squeeze (u ++ '/' :: v) = u ++ squeeze ('/' :: v) := by
  induction u with
  | nil => rfl
  | cons c u ih =>
    rw [cons_append, infix_cons_iff, not_or] at h
    have hnot : ¬ (c = '/' ∧ (u ++ '/' :: v).head? = some '/') := by
      rintro ⟨rfl, hhead⟩
      cases u with
      | nil => exact h.1 (prefix_rfl)
      | cons d u =>
        cases hhead
        exact h.1 (prefix_append ['/', '/'] (u ++ ['/']))
    rw [cons_append, squeeze_cons_of_not hnot, ih h.2, cons_append]

theorem squeeze_filter (keep : Char → Bool) (hslash : keep '/' = true) (s : Text) :
    squeeze ((squeeze s).filter keep) = squeeze (s.filter keep) := by
  induction s with
  | nil => rfl
  | cons c s ih =>
    by_cases h : c = '/' ∧ s.head? = some '/'
    · obtain ⟨t, rfl⟩ := head?_eq_some_iff.mp h.2
      have hkept : ('/' :: '/' :: t).filter keep = '/' :: '/' :: t.filter keep := by
        rw [filter_cons_of_pos hslash, filter_cons_of_pos hslash]
      rw [h.1, squeeze_slashes rfl, ih, hkept, squeeze_slashes rfl,
        filter_cons_of_pos hslash]
    · rw [squeeze_cons_of_not h]
      by_cases hc : keep c = true
      · rw [filter_cons_of_pos hc, filter_cons_of_pos hc, squeeze_cons, squeeze_cons, ih]
      · rw [filter_cons_of_neg hc, filter_cons_of_neg hc, ih]

theorem normal_start (p : Text) : normal p <+: squeeze p := rdropWhile_prefix _ _

theorem mem_of_mem_normal (h : c ∈ normal p) : c ∈ p :=
  mem_squeeze.mp ((normal_start p).subset h)

theorem mem_normal (hslash : c ≠ '/') (h : c ∈ p) : c ∈ normal p := by
  rw [← mem_squeeze, ← rdropWhile_append_rtakeWhile (p := (· = '/')) (l := squeeze p)] at h
  rcases mem_append.mp h with h | h
  · exact h
  · have heq : c = '/' := by simpa using mem_rtakeWhile_imp h
    exact absurd heq hslash

theorem normal_component {d rest : Text} (h : normal p = d ++ '/' :: rest) :
    rest.takeWhile (· ≠ '/') ≠ [] := by
  cases rest with
  | nil =>
    have hne : normal p ≠ [] := by
      rw [h]
      simp
    have hlast := rdropWhile_last_not (· = '/') (squeeze p) hne
    have heq : (normal p).getLast hne = '/' := by
      simp only [h, getLast_append_singleton]
    exact absurd (decide_eq_true heq) hlast
  | cons c rest =>
    have hc : c ≠ '/' := by
      rintro rfl
      have hin : ['/', '/'] <:+: normal p := ⟨d, rest, by rw [h]; simp⟩
      exact squeeze_no_double p (hin.trans (normal_start p).isInfix)
    simp [hc]

theorem ancestor_of_child {q r name : Text} (hname : '/' ∉ name) :
    q ++ ['/'] <+: r ++ '/' :: name ↔ q ++ ['/'] <+: r ++ ['/'] := by
  have hchild : r ++ '/' :: name = (r ++ ['/']) ++ name := by simp
  constructor
  · intro h
    rw [hchild] at h
    rcases prefix_or_prefix_of_prefix h (prefix_append (r ++ ['/']) name) with hq | hr
    · exact hq
    · obtain ⟨rest, hrest⟩ := hr
      rcases eq_nil_or_concat rest with rfl | ⟨body, c, rfl⟩
      · rw [← hrest, append_nil]
      · -- the last slash of the ancestor would stand in the name
        have hc : c = '/' := by
          have hlast := congrArg getLast? hrest
          rw [concat_eq_append, ← append_assoc, getLast?_concat,
            getLast?_concat] at hlast
          exact Option.some.inj hlast
        rw [← hrest, prefix_append_right_inj] at h
        exact absurd (h.subset (by simp [hc])) hname
  · intro h
    rw [hchild]
    exact h.trans (prefix_append _ _)

section Filter
variable {keep : Char → Bool}

theorem filter_eq_self_of_normal (hslash : keep '/' = true) {p : Text}
    (h : ∀ c ∈ normal p, keep c = true) : p.filter keep = p := by
  apply filter_eq_self.mpr
  intro c hc
  by_cases hc' : c = '/'
  · rw [hc', hslash]
  · exact h c (mem_normal hc' hc)

theorem IsAbsolute.filter (hslash : keep '/' = true) {p : Text} (h : IsAbsolute p) :
    IsAbsolute (p.filter keep) := by
  obtain ⟨t, rfl⟩ := head?_eq_some_iff.mp h
  rw [IsAbsolute, filter_cons_of_pos hslash]
  rfl

theorem normal_append_slash {d t : Text} (h : ¬ ['/', '/'] <:+: d ++ ['/']) :
    (d ++ '/' :: t).rdropWhile (· = '/') = d ∨
      d ++ ['/'] <+: (d ++ '/' :: t).rdropWhile (· = '/') := by
  induction t using reverseRecOn with
  | nil =>
    left
    have hd : d.rdropWhile (· = '/') = d := by
      rw [rdropWhile_eq_self_iff]
      intro hne hlast
      obtain ⟨body, c, rfl⟩ := eq_nil_or_concat d |>.resolve_left hne
      have hc : c = '/' := by simpa using hlast
      exact h ⟨body, [], by simp [hc]⟩
    rw [rdropWhile_concat_pos _ _ _ (by simp), hd]
  | append_singleton t c ih =>
    rw [← cons_append, ← append_assoc]
    by_cases hc : c = '/'
    · rw [rdropWhile_concat_pos _ _ _ (by simpa using hc)]
      exact ih
    · right
      rw [rdropWhile_concat_neg _ _ _ (by simpa using hc)]
      exact ⟨t ++ [c], by simp⟩

/-- Dropping characters that `d` does not have keeps a path in touch with it. -/
theorem Touches.filter (hslash : keep '/' = true) {p d : Text} (hd : ∀ c ∈ d, keep c = true)
    (h : Touches p d) : Touches (p.filter keep) d := by
  obtain ⟨habs, rfl | hin | hup⟩ := h
  · rw [filter_eq_self_of_normal hslash hd]
    exact ⟨habs, .inl rfl⟩
  · refine ⟨habs.filter hslash, ?_⟩
    have hsingle : ¬ ['/', '/'] <:+: d ++ ['/'] := fun hdouble =>
      squeeze_no_double p (hdouble.trans (hin.trans (normal_start p)).isInfix)
    obtain ⟨rest, hrest⟩ := hin.trans (normal_start p)
    have hkept : (squeeze p).filter keep = d ++ '/' :: rest.filter keep := by
      rw [← hrest, filter_append, filter_append, filter_eq_self.mpr hd,
        filter_cons_of_pos hslash]
      simp
    obtain ⟨t, ht⟩ : ∃ t, squeeze ('/' :: rest.filter keep) = '/' :: t :=
      head?_eq_some_iff.mp (head?_squeeze _)
    have hsqueeze : squeeze (p.filter keep) = d ++ '/' :: t := by
      rw [← squeeze_filter keep hslash, hkept, squeeze_append hsingle, ht]
    rw [normal, hsqueeze]
    rcases normal_append_slash hsingle with heq | hinside
    · exact .inl heq
    · exact .inr (.inl hinside)
  · rw [filter_eq_self_of_normal hslash fun c hc => hd c (hup.subset (by simp [hc]))]
    exact ⟨habs, .inr (.inr hup)⟩

end Filter

end SlashPath
