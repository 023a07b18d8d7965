import Mathlib.Data.List.Basic

/-!
Computations that stop at their first error: what succeeds as a whole succeeds in its parts.
-/
namespace CheckLib

variable {ε α β : Type}

theorem exists_of_bind {x : Except ε β} {f : β → Except ε α} {a : α} (h : (x >>= f) = .ok a) :
    ∃ b, x = .ok b ∧ f b = .ok a := by
  cases x with
  | error e => cases h
  | ok b => exact ⟨b, rfl, h⟩

theorem ok_of_bind {x : Except ε Unit} {y : Except ε α} {a : α}
    (h : (x >>= fun _ => y) = .ok a) : x = .ok () ∧ y = .ok a := by
  obtain ⟨_, hx, hy⟩ := exists_of_bind h
  exact ⟨hx, hy⟩

theorem bind_of_ok {x : Except ε β} {b : β} (h : x = .ok b) (f : β → Except ε α) :
    (x >>= f) = f b := by
  rw [h]
  rfl

end CheckLib
