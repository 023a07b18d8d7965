import BridgeMcp.Lib.Utf8

/-!
The character-boundary searches of `domain/output_truncator.rs`.
-/
namespace BridgeMcp.Output
open TextLib List

/-- The largest boundary in the four-position window that ends at `index`. -/
def floorCharBoundary (s : Text) (index : ℕ) : ℕ :=
  let index := min index (utf8Len s)
  (((range' (index - 3) (index + 1 - (index - 3))).reverse).find? (isCharBoundary s)).getD 0

/-- The smallest boundary in the four-position window that starts at `index`. -/
def ceilCharBoundary (s : Text) (index : ℕ) : ℕ :=
  let index := min index (utf8Len s)
  ((range' index (min (index + 3) (utf8Len s) + 1 - index)).find? (isCharBoundary s)).getD
    (utf8Len s)

theorem ceilCharBoundary_spec {s : Text} {index : ℕ} (h : index ≤ utf8Len s) :
    isCharBoundary s (ceilCharBoundary s index) = true ∧ index ≤ ceilCharBoundary s index ∧
      ceilCharBoundary s index ≤ utf8Len s := by
  obtain ⟨j, hij, hj3, hjs, hj⟩ := exists_boundary_window h
  have hmin : min index (utf8Len s) = index := Nat.min_eq_left h
  have hmem : j ∈ range' index (min (index + 3) (utf8Len s) + 1 - index) := by
    rw [mem_range'_1]
    omega
  simp only [ceilCharBoundary, hmin]
  cases hfind : (range' index (min (index + 3) (utf8Len s) + 1 - index)).find?
      (isCharBoundary s) with
  | none => exact absurd hj (find?_eq_none.mp hfind j hmem)
  | some b =>
    have hb := mem_of_find?_eq_some hfind
    rw [mem_range'_1] at hb
    refine ⟨find?_some hfind, ?_, ?_⟩ <;> simp only [Option.getD_some] <;> omega

theorem ceilCharBoundary_of_boundary {s : Text} {index : ℕ} (h : index ≤ utf8Len s)
    (hb : isCharBoundary s index = true) : ceilCharBoundary s index = index := by
  have hmin : min index (utf8Len s) = index := Nat.min_eq_left h
  have hpos : min (index + 3) (utf8Len s) + 1 - index =
      (min (index + 3) (utf8Len s) - index) + 1 := by omega
  simp only [ceilCharBoundary, hmin]
  rw [hpos, range'_succ]
  simp [hb]

theorem ceilCharBoundary_le {s : Text} {index j : ℕ} (h : index ≤ utf8Len s) (hij : index ≤ j)
    (hj : isCharBoundary s j = true) : ceilCharBoundary s index ≤ j := by
  have hmin : min index (utf8Len s) = index := Nat.min_eq_left h
  simp only [ceilCharBoundary, hmin]
  cases hfind : (range' index (min (index + 3) (utf8Len s) + 1 - index)).find?
      (isCharBoundary s) with
  | none =>
    obtain ⟨k, hik, hk3, hks, hk⟩ := exists_boundary_window h
    have hmem : k ∈ range' index (min (index + 3) (utf8Len s) + 1 - index) := by
      rw [mem_range'_1]
      omega
    exact absurd hk (find?_eq_none.mp hfind k hmem)
  | some b =>
    obtain ⟨-, -, hfirst⟩ := find?_range'_eq_some.mp hfind
    by_contra hlt
    have hnone := hfirst j hij (Nat.lt_of_not_le hlt)
    rw [hj] at hnone
    cases hnone

theorem floorCharBoundary_spec (s : Text) (index : ℕ) :
    isCharBoundary s (floorCharBoundary s index) = true ∧ floorCharBoundary s index ≤ index := by
  simp only [floorCharBoundary]
  cases hfind : ((range' (min index (utf8Len s) - 3) (min index (utf8Len s) + 1 -
      (min index (utf8Len s) - 3))).reverse).find? (isCharBoundary s) with
  | none => exact ⟨isCharBoundary_append [] s, Nat.zero_le _⟩
  | some b =>
    have hb := mem_of_find?_eq_some hfind
    rw [mem_reverse, mem_range'_1] at hb
    refine ⟨find?_some hfind, ?_⟩
    rw [Option.getD_some]
    omega

end BridgeMcp.Output
