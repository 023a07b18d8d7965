import Mathlib.Data.List.Basic
import Mathlib.Data.List.Pairwise

/-!
A bounded first-in first-out queue whose elements also expire. `push` drops what has expired, then
the oldest element if the queue is still at capacity, and appends the new one.
-/
namespace BoundedQueue
open List

variable {α : Type*}

def push (cap : ℕ) (keep : α → Bool) (q : List α) (a : α) : List α :=
  (if cap ≤ (q.filter keep).length then (q.filter keep).tail else q.filter keep) ++ [a]

/-- `q` is what is left of the history `h`: at most `cap` elements at its end, and none of the
last `cap` is missing unless it is dead. -/
def Window (cap : ℕ) (dead : α → Prop) (h q : List α) : Prop :=
  ∃ k ≤ h.length, q = h.drop k ∧ h.length ≤ k + cap ∧
    ∀ i x, h[i]? = some x → h.length ≤ i + cap → i < k → dead x

theorem window_nil (cap : ℕ) (dead : α → Prop) : Window cap dead [] [] :=
  ⟨0, Nat.le_refl _, rfl, Nat.zero_le _, fun i x h => by simp at h⟩

theorem Window.length_le {cap : ℕ} {dead : α → Prop} {h q : List α} (hw : Window cap dead h q) :
    q.length ≤ cap := by
  obtain ⟨k, -, rfl, hcap, -⟩ := hw
  rw [length_drop]
  omega

theorem filter_eq_drop {keep : α → Bool} {l : List α}
    (h : l.Pairwise fun x y => keep x = true → keep y = true) :
    ∃ k ≤ l.length, l.filter keep = l.drop k ∧ ∀ i x, l[i]? = some x → i < k → keep x = false := by
  induction l with
  | nil => exact ⟨0, Nat.le_refl _, rfl, fun i x hx => by simp at hx⟩
  | cons a l ih =>
    rw [pairwise_cons] at h
    by_cases ha : keep a = true
    · have hall : ∀ x ∈ a :: l, keep x = true := by
        intro x hx
        rcases mem_cons.mp hx with rfl | later
        · exact ha
        · exact h.1 x later ha
      exact ⟨0, Nat.zero_le _, filter_eq_self.mpr hall, fun i x _ hi => by omega⟩
    · obtain ⟨k, hk, hfilter, hdead⟩ := ih h.2
      refine ⟨k + 1, by simpa using hk, by simp [ha, hfilter], ?_⟩
      intro i x hx hi
      cases i with
      | zero =>
        simp only [getElem?_cons_zero, Option.some.injEq] at hx
        subst hx
        simpa using ha
      | succ i => exact hdead i x (by simpa using hx) (by omega)

theorem Window.push {cap : ℕ} (hcap : 1 ≤ cap) {dead dead' : α → Prop} {keep : α → Bool}
    {h q : List α} (hw : Window cap dead h q) (a : α)
    (hmono : ∀ x ∈ h, dead x → dead' x) (hkeep : ∀ x ∈ h, keep x = false → dead' x)
    (hsorted : h.Pairwise fun x y => keep x = true → keep y = true) :
    Window cap dead' (h ++ [a]) (BoundedQueue.push cap keep q a) := by
  obtain ⟨k, hk, rfl, hlen, hdead⟩ := hw
  obtain ⟨d, hd, hfilter, hgone⟩ := filter_eq_drop (hsorted.sublist (drop_sublist k h))
  rw [length_drop] at hd
  rw [drop_drop] at hfilter
  -- Everything before position `k + d` that still counts as recent is dead by now.
  have hearly : ∀ i x, h[i]? = some x → h.length ≤ i + cap → i < k + d → dead' x := by
    intro i x hx hi hikd
    have hmem : x ∈ h := mem_of_getElem? hx
    by_cases hik : i < k
    · exact hmono x hmem (hdead i x hx hi hik)
    · refine hkeep x hmem (hgone (i - k) x ?_ (by omega))
      rw [getElem?_drop, show k + (i - k) = i by omega, hx]
  have hback : ∀ i x, (h ++ [a])[i]? = some x → i < h.length → h[i]? = some x := by
    intro i x hx hi
    rwa [getElem?_append_left hi] at hx
  unfold BoundedQueue.push
  rw [hfilter, length_drop]
  split
  · rename_i hfull
    refine ⟨k + d + 1, by simp; omega, ?_, by simp; omega, ?_⟩
    · rw [tail_drop, drop_append_of_le_length (by omega)]
    · intro i x _ hi hlt
      simp only [length_append, length_singleton] at hi
      omega
  · refine ⟨k + d, by simp; omega, ?_, by simp; omega, ?_⟩
    · rw [drop_append_of_le_length (by omega)]
    · intro i x hx hi hlt
      simp only [length_append, length_singleton] at hi
      exact hearly i x (hback i x hx (by omega)) (by omega) hlt

end BoundedQueue
