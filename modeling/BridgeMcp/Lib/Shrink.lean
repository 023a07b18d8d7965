import Mathlib.Data.List.Infix
import Mathlib.Data.List.DropRight

/-!
Steps on lists that only ever remove something, and what a chain of them leaves alone.
-/
namespace TextLib
open List

variable {α : Type*} {f g : List α → List α}

def Shrinks (f : List α → List α) : Prop := ∀ s, f s = s ∨ (f s).length < s.length

theorem shrinks_of_infix (h : ∀ s, f s <:+: s) : Shrinks f := by
  intro s
  rcases (h s).length_le.lt_or_eq with hlt | heq
  · exact .inr hlt
  · exact .inl ((h s).eq_of_length heq)

theorem Shrinks.length_le (hf : Shrinks f) (s : List α) : (f s).length ≤ s.length := by
  rcases hf s with h | h
  · rw [h]
  · exact h.le

theorem Shrinks.comp (hg : Shrinks g) (hf : Shrinks f) : Shrinks (g ∘ f) := by
  intro s
  rcases hf s with h | h
  · rw [Function.comp_apply, h]
    exact hg s
  · exact .inr ((hg.length_le (f s)).trans_lt h)

theorem Shrinks.comp_eq_iff (hg : Shrinks g) (hf : Shrinks f) (s : List α) :
    g (f s) = s ↔ f s = s ∧ g s = s := by
  constructor
  · intro h
    have hfirst : f s = s := by
      rcases hf s with hs | hs
      · exact hs
      · have hle := hg.length_le (f s)
        rw [h] at hle
        omega
    rw [hfirst] at h
    exact ⟨hfirst, h⟩
  · rintro ⟨hfirst, hsecond⟩
    rw [hfirst, hsecond]

theorem shrinks_dropWhile (p : α → Bool) : Shrinks (dropWhile p) :=
  shrinks_of_infix fun _ => (List.dropWhile_suffix p).isInfix

theorem shrinks_rdropWhile (p : α → Bool) : Shrinks (rdropWhile p) :=
  shrinks_of_infix fun s => (List.rdropWhile_prefix p s).isInfix

theorem dropWhile_eq_self_iff_head {p : α → Bool} {s : List α} :
    s.dropWhile p = s ↔ ∀ c ∈ s.head?, p c = false := by
  cases s with
  | nil => simp
  | cons c s =>
    rw [dropWhile_eq_self_iff]
    simp

theorem rdropWhile_eq_self_iff_getLast {p : α → Bool} {s : List α} :
    s.rdropWhile p = s ↔ ∀ c ∈ s.getLast?, p c = false := by
  rw [rdropWhile, ← head?_reverse, ← dropWhile_eq_self_iff_head, reverse_eq_iff]

end TextLib
