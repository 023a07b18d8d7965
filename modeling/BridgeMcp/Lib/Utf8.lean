import BridgeMcp.Lib.Text

/-!
Byte offsets into text. A `str` is measured and sliced in UTF-8 bytes while its content is a list
of characters, so an offset either separates two characters (a boundary) or falls inside one.
-/
namespace TextLib
open List

def utf8Len : Text → ℕ
  | [] => 0
  | c :: s => c.utf8Size + utf8Len s

@[simp] theorem utf8Len_nil : utf8Len [] = 0 := rfl

@[simp] theorem utf8Len_cons (c : Char) (s : Text) :
    utf8Len (c :: s) = c.utf8Size + utf8Len s := rfl

@[simp] theorem utf8Len_append (s t : Text) : utf8Len (s ++ t) = utf8Len s + utf8Len t := by
  induction s with
  | nil => simp
  | cons c s ih =>
    simp only [cons_append, utf8Len_cons, ih]
    omega

variable {s : Text}

theorem utf8Len_eq_zero : utf8Len s = 0 ↔ s = [] := by
  cases s with
  | nil => simp
  | cons c s =>
    have hpos := c.utf8Size_pos
    simp only [utf8Len_cons, reduceCtorEq, iff_false]
    omega

theorem utf8Len_cons_succ (c : Char) (s : Text) :
    ∃ n, c.utf8Size + utf8Len s = n + 1 ∧ n + 1 - c.utf8Size = utf8Len s := by
  have hpos := c.utf8Size_pos
  exact ⟨c.utf8Size + utf8Len s - 1, by omega, by omega⟩

def isCharBoundary : Text → ℕ → Bool
  | _, 0 => true
  | [], _ + 1 => false
  | c :: s, i + 1 => if i + 1 < c.utf8Size then false else isCharBoundary s (i + 1 - c.utf8Size)

/-- Splits at a byte offset; `none` when the offset is not a boundary, where slicing panics. -/
def splitAtByte : Text → ℕ → Option (Text × Text)
  | s, 0 => some ([], s)
  | [], _ + 1 => none
  | c :: s, i + 1 =>
    if i + 1 < c.utf8Size then none
    else (splitAtByte s (i + 1 - c.utf8Size)).map fun p => (c :: p.1, p.2)

/-- `&s[start..end]`; `none` is a panic. -/
def slice (s : Text) (start stop : ℕ) : Option Text :=
  if stop < start then none
  else
    match splitAtByte s start with
    | none => none
    | some (_, rest) => (splitAtByte rest (stop - start)).map Prod.fst

theorem splitAtByte_append (s t : Text) : splitAtByte (s ++ t) (utf8Len s) = some (s, t) := by
  induction s with
  | nil => simp [splitAtByte]
  | cons c s ih =>
    obtain ⟨n, hn, hrest⟩ := utf8Len_cons_succ c s
    simp only [cons_append, utf8Len_cons, hn, splitAtByte, hrest, ih]
    rw [if_neg (by omega)]
    rfl

theorem slice_append (s t u : Text) :
    slice (s ++ (t ++ u)) (utf8Len s) (utf8Len s + utf8Len t) = some t := by
  unfold slice
  rw [if_neg (by omega), splitAtByte_append]
  simp [splitAtByte_append]

theorem isCharBoundary_append (s t : Text) : isCharBoundary (s ++ t) (utf8Len s) = true := by
  induction s with
  | nil => cases t <;> simp [isCharBoundary]
  | cons c s ih =>
    obtain ⟨n, hn, hrest⟩ := utf8Len_cons_succ c s
    simp only [cons_append, utf8Len_cons, hn, isCharBoundary, hrest, ih]
    rw [if_neg (by omega)]

theorem isCharBoundary_iff {i : ℕ} :
    isCharBoundary s i = true ↔ ∃ pre post, s = pre ++ post ∧ utf8Len pre = i := by
  constructor
  · intro h
    fun_induction isCharBoundary s i with
    | case1 s => exact ⟨[], s, rfl, rfl⟩
    | case2 => cases h
    | case3 => cases h
    | case4 c s i hge ih =>
      obtain ⟨pre, post, hs, hlen⟩ := ih h
      refine ⟨c :: pre, post, by rw [hs, cons_append], ?_⟩
      rw [utf8Len_cons, hlen]
      omega
  · rintro ⟨pre, post, rfl, rfl⟩
    exact isCharBoundary_append pre post

/-- Characters have at most four bytes, so the three offsets after any offset inside the text
reach a boundary. -/
theorem exists_boundary_window {i : ℕ} (h : i ≤ utf8Len s) :
    ∃ j, i ≤ j ∧ j ≤ i + 3 ∧ j ≤ utf8Len s ∧ isCharBoundary s j = true := by
  induction s generalizing i with
  | nil =>
    simp only [utf8Len_nil, Nat.le_zero] at h
    exact ⟨0, by omega, by omega, Nat.le_refl _, rfl⟩
  | cons c s ih =>
    have hle := c.utf8Size_le_four
    have hwhole := isCharBoundary_append [c] s
    by_cases hi : i = 0
    · subst hi
      exact ⟨0, Nat.le_refl _, by omega, by omega, by simp [isCharBoundary]⟩
    by_cases hin : i ≤ c.utf8Size
    · refine ⟨c.utf8Size, hin, by omega, by simp, ?_⟩
      simpa using hwhole
    · obtain ⟨j, hij, hj3, hjs, hj⟩ := ih (i := i - c.utf8Size) (by
        simp only [utf8Len_cons] at h
        omega)
      obtain ⟨pre, post, hs, hpre⟩ := isCharBoundary_iff.mp hj
      refine ⟨c.utf8Size + j, by omega, by omega, by simpa using hjs, ?_⟩
      exact isCharBoundary_iff.mpr ⟨c :: pre, post, by simp [hs], by simp [hpre]⟩

def findChar (c : Char) : Text → Option ℕ
  | [] => none
  | d :: s => if d = c then some 0 else (findChar c s).map (d.utf8Size + ·)

def rfindChar (c : Char) : Text → Option ℕ
  | [] => none
  | d :: s =>
    match rfindChar c s with
    | some i => some (d.utf8Size + i)
    | none => if d = c then some 0 else none

variable {c : Char}

theorem findChar_eq_none (h : c ∉ s) : findChar c s = none := by
  induction s with
  | nil => rfl
  | cons d s ih =>
    obtain ⟨hd, hs⟩ := not_or.mp (mt mem_cons.mpr h)
    rw [findChar, if_neg (Ne.symm hd), ih hs]
    rfl

theorem findChar_append {pre : Text} (h : c ∉ pre) (post : Text) :
    findChar c (pre ++ c :: post) = some (utf8Len pre) := by
  induction pre with
  | nil => exact if_pos rfl
  | cons d pre ih =>
    obtain ⟨hd, hpre⟩ := not_or.mp (mt mem_cons.mpr h)
    rw [cons_append, findChar, if_neg (Ne.symm hd), ih hpre]
    rfl

theorem rfindChar_eq_none (h : c ∉ s) : rfindChar c s = none := by
  induction s with
  | nil => rfl
  | cons d s ih =>
    obtain ⟨hd, hs⟩ := not_or.mp (mt mem_cons.mpr h)
    simp only [rfindChar, ih hs]
    exact if_neg (Ne.symm hd)

theorem rfindChar_append (pre : Text) {post : Text} (h : c ∉ post) :
    rfindChar c (pre ++ c :: post) = some (utf8Len pre) := by
  induction pre with
  | nil =>
    simp only [nil_append, rfindChar, rfindChar_eq_none h]
    rfl
  | cons d pre ih =>
    simp only [cons_append, rfindChar, ih]
    rfl

end TextLib
