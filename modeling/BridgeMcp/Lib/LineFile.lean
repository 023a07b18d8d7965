import Mathlib.Data.List.DropRight
import Mathlib.Data.List.Infix

/-!
Files read as lines, each ended by a separator, the last one possibly by none.
-/
namespace LineFile
open List

variable {α : Type*} [DecidableEq α] (sep : α)

def fileLines : List α → List (List α)
  | [] => []
  | c :: s =>
    if c = sep then [] :: fileLines s
    else
      match fileLines s with
      | [] => [[c]]
      | line :: lines => (c :: line) :: lines

def ended (lines : List (List α)) : List α := lines.flatMap (· ++ [sep])

def Finished (content : List α) : Prop := content = [] ∨ content.getLast? = some sep

instance (content : List α) : Decidable (Finished sep content) :=
  inferInstanceAs (Decidable (_ ∨ _))

variable {sep}

variable {line rest : List α}

theorem fileLines_cons_line (h : sep ∉ line) (s : List α) :
    fileLines sep (line ++ sep :: s) = line :: fileLines sep s := by
  induction line with
  | nil => rw [nil_append, fileLines, if_pos rfl]
  | cons c line ih =>
    obtain ⟨hc, hline⟩ := not_or.mp (mt mem_cons.mpr h)
    rw [cons_append, fileLines, if_neg (Ne.symm hc), ih hline]

theorem fileLines_open (hne : line ≠ []) (h : sep ∉ line) :
    fileLines sep line = [line] := by
  induction line with
  | nil => exact absurd rfl hne
  | cons c line ih =>
    obtain ⟨hc, hline⟩ := not_or.mp (mt mem_cons.mpr h)
    rw [fileLines, if_neg (Ne.symm hc)]
    cases line with
    | nil => rfl
    | cons d line => rw [ih (cons_ne_nil _ _) hline]

variable {lines : List (List α)}

theorem fileLines_ended (h : ∀ line ∈ lines, sep ∉ line) (s : List α) :
    fileLines sep (ended sep lines ++ s) = lines ++ fileLines sep s := by
  induction lines with
  | nil => rfl
  | cons line lines ih =>
    obtain ⟨hline, hlines⟩ := forall_mem_cons.mp h
    have hfirst : ended sep (line :: lines) ++ s = line ++ sep :: (ended sep lines ++ s) := by
      rw [ended, flatMap_cons, ← ended, append_assoc, append_assoc,
        singleton_append]
    rw [hfirst, fileLines_cons_line hline, ih hlines, cons_append]

variable (sep) in
theorem exists_ended (content : List α) : ∃ lines rest, content = ended sep lines ++ rest ∧
    (∀ line ∈ lines, sep ∉ line) ∧ sep ∉ rest := by
  induction content with
  | nil => exact ⟨[], [], rfl, forall_mem_nil _, not_mem_nil⟩
  | cons c s ih =>
    obtain ⟨lines, rest, rfl, hlines, hrest⟩ := ih
    by_cases hc : c = sep
    · refine ⟨[] :: lines, rest, ?_, forall_mem_cons.mpr ⟨not_mem_nil, hlines⟩, hrest⟩
      rw [hc]
      rfl
    · cases lines with
      | nil => exact ⟨[], c :: rest, rfl, hlines, not_mem_cons_of_ne_of_not_mem (Ne.symm hc) hrest⟩
      | cons line lines =>
        obtain ⟨hline, hothers⟩ := forall_mem_cons.mp hlines
        have hfirst := not_mem_cons_of_ne_of_not_mem (Ne.symm hc) hline
        exact ⟨(c :: line) :: lines, rest, rfl, forall_mem_cons.mpr ⟨hfirst, hothers⟩, hrest⟩

omit [DecidableEq α] in
theorem finished_ended_iff (hrest : sep ∉ rest) :
    Finished sep (ended sep lines ++ rest) ↔ rest = [] := by
  constructor
  · intro h
    by_contra hne
    cases h with
    | inl hnil => exact hne (append_eq_nil_iff.mp hnil).2
    | inr hlast =>
      rw [getLast?_append_of_ne_nil _ hne] at hlast
      exact hrest (mem_of_getLast? hlast)
  · rintro rfl
    rw [append_nil]
    cases lines using reverseRecOn with
    | nil => exact .inl rfl
    | append_singleton lines line =>
      refine .inr ?_
      rw [ended, flatMap_append, flatMap_singleton, ← append_assoc,
        getLast?_concat]

theorem fileLines_parts (h : ∀ line ∈ lines, sep ∉ line) (hrest : sep ∉ rest) :
    fileLines sep (ended sep lines ++ rest) = lines ++ if rest = [] then [] else [rest] := by
  rw [fileLines_ended h]
  split_ifs with hnil
  · rw [hnil]
    rfl
  · rw [fileLines_open hnil hrest]

theorem fileLines_append (h : ∀ line ∈ lines, sep ∉ line) (hrest : sep ∉ rest)
    (hline : sep ∉ line) :
    fileLines sep (ended sep lines ++ rest ++ (line ++ [sep])) = lines ++ [rest ++ line] := by
  have hjoined : sep ∉ rest ++ line := by
    rw [mem_append, not_or]
    exact ⟨hrest, hline⟩
  rw [append_assoc, ← append_assoc rest line [sep], fileLines_ended h,
    fileLines_cons_line hjoined]
  rfl

end LineFile
