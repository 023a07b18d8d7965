import Mathlib.Data.List.Infix

/-!
Walking a list of segments: some are skipped, some lead back, and the others are put on a stack.
-/
namespace WalkLib
open List

variable {α : Type*} (skip up : α → Bool)

def walk (stack : List α) : List α → List α
  | [] => stack
  | seg :: rest =>
    if skip seg then walk stack rest
    else if up seg then walk stack.dropLast rest
    else walk (stack ++ [seg]) rest

variable {skip up}

theorem walk_append (stack first second : List α) :
    walk skip up stack (first ++ second) = walk skip up (walk skip up stack first) second := by
  induction first generalizing stack with
  | nil => rfl
  | cons seg first ih =>
    rw [cons_append, walk, walk]
    split_ifs
    · exact ih _
    · exact ih _
    · exact ih _

theorem walk_base (base stack : List α) {segs : List α} (h : segs.length ≤ stack.length) :
    walk skip up (base ++ stack) segs = base ++ walk skip up stack segs := by
  induction segs generalizing stack with
  | nil => rfl
  | cons seg segs ih =>
    rw [length_cons] at h
    rw [walk, walk]
    split_ifs
    · exact ih stack (by omega)
    · have hne : stack ≠ [] := ne_nil_of_length_pos (by omega)
      rw [dropLast_append_of_ne_nil hne]
      apply ih
      rw [length_dropLast]
      omega
    · rw [append_assoc]
      apply ih
      rw [length_append]
      omega

theorem walk_of_plain (stack : List α) {segs : List α}
    (h : ∀ seg ∈ segs, skip seg = false ∧ up seg = false) :
    walk skip up stack segs = stack ++ segs := by
  induction segs generalizing stack with
  | nil => rw [walk, append_nil]
  | cons seg segs ih =>
    obtain ⟨⟨hskip, hup⟩, hrest⟩ := forall_mem_cons.mp h
    rw [walk, hskip, hup, if_neg Bool.false_ne_true, if_neg Bool.false_ne_true, ih _ hrest,
      append_assoc, singleton_append]

theorem mem_walk {stack segs : List α} {seg : α} (h : seg ∈ walk skip up stack segs) :
    seg ∈ stack ∨ seg ∈ segs ∧ skip seg = false ∧ up seg = false := by
  induction segs generalizing stack with
  | nil => exact .inl h
  | cons first segs ih =>
    have hrest : seg ∈ segs ∧ skip seg = false ∧ up seg = false →
        seg ∈ first :: segs ∧ skip seg = false ∧ up seg = false := fun hseg =>
      ⟨mem_cons_of_mem first hseg.1, hseg.2⟩
    rw [walk] at h
    split_ifs at h with hskip hup
    · exact (ih h).imp_right hrest
    · rcases ih h with hstack | hseg
      · exact .inl (mem_of_mem_dropLast hstack)
      · exact .inr (hrest hseg)
    · rcases ih h with hstack | hseg
      · rcases mem_append.mp hstack with hstack | hfirst
        · exact .inl hstack
        · obtain rfl := mem_singleton.mp hfirst
          exact .inr ⟨mem_cons_self, by simpa using hskip, by simpa using hup⟩
      · exact .inr (hrest hseg)

end WalkLib
