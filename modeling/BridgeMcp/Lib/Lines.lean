import Mathlib.Data.Char
import Mathlib.Data.List.Dedup
import Mathlib.Data.List.Lex
import Mathlib.Data.List.Sort
import BridgeMcp.Lib.TextScan

/-!
The lines that pass between the commands of a shell pipeline: how a text splits into lines and is
captured again, and the line filters `sort -u` and `comm -23` over any linear order.
-/
namespace LineLib
open TextLib List

section Order
variable {α : Type*} [LinearOrder α]

def sortUnique (l : List α) : List α := (l.insertionSort (· ≤ ·)).dedup

variable {l m : List α}

theorem mem_sortUnique {a : α} : a ∈ sortUnique l ↔ a ∈ l := by
  rw [sortUnique, mem_dedup, mem_insertionSort]

theorem sortUnique_sorted (l : List α) : (sortUnique l).Pairwise (· < ·) := by
  have hle : (sortUnique l).Pairwise (· ≤ ·) :=
    (pairwise_insertionSort (· ≤ ·) l).sublist (dedup_sublist _)
  have hne : (sortUnique l).Pairwise (· ≠ ·) := nodup_dedup _
  exact (hle.and hne).imp fun h => lt_of_le_of_ne h.1 h.2

/-- `comm -23`, the lines of the first list alone. For each of them the second list is read up to
the first line that is not smaller. -/
def comm23 : List α → List α → List α
  | [], _ => []
  | a :: l, m =>
    let ahead := m.dropWhile (· < a)
    if ahead.head? = some a then comm23 l ahead.tail else a :: comm23 l ahead

theorem comm23_sublist (l m : List α) : (comm23 l m).Sublist l := by
  induction l generalizing m with
  | nil => exact List.Sublist.slnil
  | cons a l ih =>
    rw [comm23]
    split_ifs
    · exact (ih _).cons a
    · exact (ih _).cons_cons a

theorem mem_dropWhile_lt {a x : α} (hx : a ≤ x) :
    x ∈ m.dropWhile (· < a) ↔ x ∈ m := by
  constructor
  · exact (dropWhile_sublist _).mem
  · intro h
    rw [← takeWhile_append_dropWhile (p := (· < a)) (l := m)] at h
    rcases mem_append.mp h with h | h
    · have hlt : x < a := by simpa using mem_takeWhile_imp h
      exact absurd hx hlt.not_ge
    · exact h

theorem head?_dropWhile_lt (hm : m.Pairwise (· < ·)) {a : α} :
    (m.dropWhile (· < a)).head? = some a ↔ a ∈ m := by
  rw [← mem_dropWhile_lt (m := m) (le_refl a)]
  constructor
  · exact mem_of_head?
  · intro h
    have hsorted := hm.sublist (dropWhile_sublist (· < a))
    have hfirst := head?_dropWhile_not (· < a) m
    cases hahead : m.dropWhile (· < a) with
    | nil =>
      rw [hahead] at h
      exact absurd h not_mem_nil
    | cons b ahead =>
      rw [hahead] at h hsorted hfirst
      have hle : a ≤ b := not_lt.mp (by simpa using hfirst)
      rcases mem_cons.mp h with rfl | h
      · rfl
      · exact absurd hle (rel_of_pairwise_cons hsorted h).not_ge

theorem mem_comm23 (hl : l.Pairwise (· < ·)) (hm : m.Pairwise (· < ·)) {x : α} :
    x ∈ comm23 l m ↔ x ∈ l ∧ x ∉ m := by
  induction l generalizing m with
  | nil => simp [comm23]
  | cons a l ih =>
    obtain ⟨hfirst, hrest⟩ := pairwise_cons.mp hl
    have hsorted := hm.sublist (dropWhile_sublist (· < a))
    have hskip : x ∈ l → (x ∈ m.dropWhile (· < a) ↔ x ∈ m) := fun hx =>
      mem_dropWhile_lt (hfirst x hx).le
    rw [comm23]
    split_ifs with hhit
    · -- `a` is in both lists; what is left of the second starts behind it
      obtain ⟨ahead, hahead⟩ := head?_eq_some_iff.mp hhit
      have ha : a ∈ m := (head?_dropWhile_lt hm).mp hhit
      rw [hahead] at hsorted hskip
      rw [hahead, tail_cons, ih hrest hsorted.of_cons, mem_cons]
      constructor
      · rintro ⟨hx, hnot⟩
        refine ⟨.inr hx, fun hm => ?_⟩
        rcases mem_cons.mp ((hskip hx).mpr hm) with rfl | hin
        · exact lt_irrefl _ (hfirst _ hx)
        · exact hnot hin
      · rintro ⟨rfl | hx, hnot⟩
        · exact absurd ha hnot
        · exact ⟨hx, fun hin => hnot ((hskip hx).mp (mem_cons_of_mem a hin))⟩
    · have ha : a ∉ m := mt (head?_dropWhile_lt hm).mpr hhit
      rw [mem_cons, ih hrest hsorted, mem_cons]
      constructor
      · rintro (rfl | ⟨hx, hnot⟩)
        · exact ⟨.inl rfl, ha⟩
        · exact ⟨.inr hx, mt (hskip hx).mpr hnot⟩
      · rintro ⟨rfl | hx, hnot⟩
        · exact .inl rfl
        · exact .inr ⟨hx, mt (hskip hx).mp hnot⟩

end Order

section Split
variable {α : Type*} [DecidableEq α]

theorem splitOn_append_cons (c : α) (s t : List α) :
    (s ++ c :: t).splitOn c = s.splitOn c ++ t.splitOn c :=
  splitOnP_append_cons s t (beq_self_eq_true c)

theorem splitOn_cons_ne {c d : α} (h : d ≠ c) (s : List α) :
    (d :: s).splitOn c = (s.splitOn c).modifyHead (d :: ·) := by
  rw [splitOn_cons_eq_if_modifyHead, if_neg (by simpa using h)]

theorem head?_splitOn (c : α) (s : List α) :
    (s.splitOn c).head? = some (s.takeWhile (· ≠ c)) := by
  induction s with
  | nil => rfl
  | cons d s ih =>
    by_cases hd : d = c
    · rw [splitOn_cons_eq_if_modifyHead]
      simp [hd]
    · rw [splitOn_cons_ne hd, head?_modifyHead, ih]
      simp [hd]

theorem splitOn_append_left {c : α} {start : List α} (h : c ∉ start) (s : List α) :
    (start ++ s).splitOn c = (s.splitOn c).modifyHead (start ++ ·) := by
  induction start with
  | nil =>
    rw [nil_append]
    cases s.splitOn c <;> rfl
  | cons d start ih =>
    obtain ⟨hd, hstart⟩ := not_or.mp (mt mem_cons.mpr h)
    rw [cons_append, splitOn_cons_ne (Ne.symm hd), ih hstart, modifyHead_modifyHead]
    rfl

theorem of_mem_splitOn {c : α} {s part : List α} (h : part ∈ s.splitOn c) :
    c ∉ part ∧ part ⊆ s := by
  induction s generalizing part with
  | nil =>
    rw [splitOn_nil, mem_singleton] at h
    simp [h]
  | cons d s ih =>
    obtain ⟨first, rest, hparts⟩ := exists_cons_of_ne_nil (splitOn_ne_nil c s)
    by_cases hd : d = c
    · rw [splitOn_cons_eq_if_modifyHead, if_pos (by simpa using hd)] at h
      rcases mem_cons.mp h with rfl | h
      · simp
      · exact ⟨(ih h).1, subset_cons_of_subset d (ih h).2⟩
    · rw [splitOn_cons_ne hd, hparts, modifyHead_cons] at h
      rcases mem_cons.mp h with rfl | h
      · have hfirst := ih (hparts ▸ mem_cons_self)
        refine ⟨?_, cons_subset_cons d hfirst.2⟩
        rw [mem_cons, not_or]
        exact ⟨Ne.symm hd, hfirst.1⟩
      · have hrest := ih (hparts ▸ mem_cons_of_mem first h)
        exact ⟨hrest.1, subset_cons_of_subset d hrest.2⟩

end Split

def inputLines (t : Text) : List Text :=
  let parts := t.splitOn '\n'
  if parts.getLast? = some [] then parts.dropLast else parts

def unlines (l : List Text) : Text := l.flatMap (· ++ ['\n'])

/-- `$(...)`: a variable holds no NUL, and the line feeds at the end are dropped. -/
def capture (t : Text) : Text := (t.filter (· ≠ '\x00')).rdropWhile (· = '\n')

theorem nul_notMem_capture (t : Text) : '\x00' ∉ capture t := by
  intro hc
  have hkept := (List.rdropWhile_prefix _ _).subset hc
  simp at hkept

theorem inputLines_newline (t : Text) : inputLines (t ++ ['\n']) = t.splitOn '\n' := by
  rw [inputLines, splitOn_append_cons, splitOn_nil]
  simp

theorem splitOn_unlines (l : List Text) (t : Text) :
    (unlines l ++ t).splitOn '\n' = l.flatMap (·.splitOn '\n') ++ t.splitOn '\n' := by
  induction l with
  | nil => rfl
  | cons line l ih =>
    rw [unlines, flatMap_cons, append_assoc, append_assoc, singleton_append,
      splitOn_append_cons, flatMap_cons, append_assoc]
    exact congrArg _ ih

theorem inputLines_unlines (l : List Text) :
    inputLines (unlines l) = l.flatMap (·.splitOn '\n') := by
  have hparts := splitOn_unlines l []
  rw [append_nil, splitOn_nil] at hparts
  rw [inputLines, hparts]
  simp

def PlainLine (line : Text) : Prop := ∀ c ∈ line, c ≠ '\n' ∧ c ≠ '\x00'

variable {line : Text}

theorem plainLine_of_all (h : line.all (fun c => c ≠ '\n' ∧ c ≠ '\x00') = true) :
    PlainLine line := fun c hc =>
  of_decide_eq_true (all_eq_true.mp h c hc)

theorem PlainLine.lineFeed (h : PlainLine line) : '\n' ∉ line := fun hc =>
  (h _ hc).1 rfl

def Plain (l : List Text) : Prop := ∀ line ∈ l, PlainLine line

theorem plain_splitOn {value : Text} (h : '\x00' ∉ value) : Plain (value.splitOn '\n') := by
  intro line hline c hc
  obtain ⟨hfeed, hsub⟩ := of_mem_splitOn hline
  constructor
  · rintro rfl
    exact hfeed hc
  · rintro rfl
    exact h (hsub hc)

variable {l : List Text}

theorem flatMap_splitOn_plain (h : Plain l) : l.flatMap (·.splitOn '\n') = l := by
  induction l with
  | nil => rfl
  | cons line l ih =>
    rw [flatMap_cons, splitOn_eq_singleton (h line mem_cons_self).lineFeed,
      ih fun line hline => h line (mem_cons_of_mem _ hline)]
    rfl

theorem filter_unlines (keep : Char → Bool) (hkeep : keep '\n' = true) (l : List Text) :
    (unlines l).filter keep = unlines (l.map (·.filter keep)) := by
  induction l with
  | nil => rfl
  | cons line l ih =>
    rw [unlines, flatMap_cons, filter_append, filter_append,
      filter_cons_of_pos hkeep, map_cons, unlines, flatMap_cons]
    exact congrArg _ ih

theorem filter_unlines_plain (h : Plain l) :
    (unlines l).filter (· ≠ '\x00') = unlines l := by
  have hkept : ∀ line ∈ l, line.filter (· ≠ '\x00') = line := by
    intro line hline
    apply filter_eq_self.mpr
    intro c hc
    simpa using (h line hline c hc).2
  rw [filter_unlines _ rfl, map_congr_left hkept, map_id']

theorem capture_unlines_concat {last : Text} (h : Plain (l ++ [last])) (hlast : last ≠ []) :
    capture (unlines (l ++ [last])) = unlines l ++ last := by
  obtain ⟨body, c, rfl⟩ := eq_nil_or_concat last |>.resolve_left hlast
  rw [concat_eq_append] at h ⊢
  have hc : c ≠ '\n' := by
    rintro rfl
    exact (h (body ++ ['\n']) (by simp)).lineFeed (by simp)
  have hunlines : unlines (l ++ [body ++ [c]]) = unlines l ++ body ++ [c] ++ ['\n'] := by
    simp [unlines]
  rw [capture, filter_unlines_plain h, hunlines, rdropWhile_concat_pos _ _ _ (by simp),
    rdropWhile_concat_neg _ _ _ (by simpa using hc), append_assoc]

theorem capture_unlines_eq_nil (h : Plain l) (hne : [] ∉ l) :
    capture (unlines l) = [] ↔ l = [] := by
  constructor
  · intro hnil
    by_contra hl
    obtain ⟨init, last, rfl⟩ := eq_nil_or_concat l |>.resolve_left hl
    rw [concat_eq_append] at h hnil hne
    have hlast : last ≠ [] := by
      rintro rfl
      exact hne (by simp)
    rw [capture_unlines_concat h hlast] at hnil
    exact hlast (append_eq_nil_iff.mp hnil).2
  · rintro rfl
    rfl

def recaptured (l : List Text) : List Text := inputLines (capture (unlines l) ++ ['\n'])

section
variable (hsorted : l.Pairwise (· < ·)) (h : Plain l)
include hsorted h

theorem recaptured_eq :
    recaptured l = if l = [] then [[]] else l := by
  by_cases hl : l = []
  · rw [hl]
    rfl
  · rw [if_neg hl, recaptured, inputLines_newline]
    obtain ⟨init, last, rfl⟩ := eq_nil_or_concat l |>.resolve_left hl
    rw [concat_eq_append] at hsorted h ⊢
    by_cases hlast : last = []
    · have hinit : init = [] := by
        apply eq_nil_iff_forall_not_mem.mpr
        intro line hline
        have hlt := (pairwise_append.mp hsorted).2.2 line hline last (by simp)
        rw [hlast] at hlt
        exact not_lt_nil _ hlt
      rw [hinit, hlast]
      rfl
    · have hparts := flatMap_splitOn_plain h
      rw [flatMap_append, flatMap_singleton] at hparts
      rw [capture_unlines_concat h hlast, splitOn_unlines, hparts]

theorem plain_recaptured :
    Plain (recaptured l) := by
  rw [recaptured_eq hsorted h]
  split_ifs
  · intro line hline c hc
    rw [mem_singleton.mp hline] at hc
    exact absurd hc not_mem_nil
  · exact h

theorem recaptured_sorted :
    (recaptured l).Pairwise (· < ·) := by
  rw [recaptured_eq hsorted h]
  split_ifs
  · exact pairwise_singleton _ _
  · exact hsorted

theorem mem_recaptured (hline : line ≠ []) :
    line ∈ recaptured l ↔ line ∈ l := by
  rw [recaptured_eq hsorted h]
  split_ifs with hl
  · rw [hl]
    simp [hline]
  · rfl

end

theorem lines_lineFeed (hline : '\n' ∉ line) (rest : Text) :
    ∃ first, lines (line ++ '\n' :: rest) = first :: lines rest ∧
      (line.getLast? ≠ some '\r' → first = line) := by
  induction line with
  | nil => exact ⟨[], by simp [lines], fun _ => rfl⟩
  | cons c line ih =>
    obtain ⟨hc, hrest⟩ := not_or.mp (mt mem_cons.mpr hline)
    obtain ⟨first, hfirst, hsame⟩ := ih hrest
    rw [cons_append, lines, if_neg (Ne.symm hc)]
    split_ifs with hreturn
    · refine ⟨first, hfirst, fun hlast => absurd ?_ hlast⟩
      have hnil : line = [] := by
        cases line with
        | nil => rfl
        | cons d line =>
          cases hreturn.2
          exact absurd mem_cons_self hrest
      rw [hnil, hreturn.1]
      rfl
    · refine ⟨c :: first, by rw [hfirst], fun hlast => ?_⟩
      rw [hsame]
      intro hlast'
      apply hlast
      cases line with
      | nil => cases hlast'
      | cons d line => rwa [getLast?_cons_cons]

theorem lines_single (hne : line ≠ []) (hline : '\n' ∉ line) : lines line = [line] := by
  induction line with
  | nil => exact absurd rfl hne
  | cons c line ih =>
    obtain ⟨hc, hrest⟩ := not_or.mp (mt mem_cons.mpr hline)
    have hkeep : ¬ (c = '\r' ∧ line.head? = some '\n') := fun h =>
      hrest (mem_of_head? h.2)
    rw [lines, if_neg (Ne.symm hc), if_neg hkeep]
    cases line with
    | nil => rfl
    | cons d line => rw [ih (cons_ne_nil d line) hrest]

theorem mem_lines_of_mem_splitOn {content : Text} (h : line ∈ content.splitOn '\n')
    (hne : line ≠ []) (hreturn : line.getLast? ≠ some '\r') : line ∈ lines content := by
  obtain ⟨parts, hparts, hplain⟩ : ∃ parts : List Text, content.splitOn '\n' = parts ∧
      ∀ part ∈ parts, '\n' ∉ part := ⟨_, rfl, fun part hpart => (of_mem_splitOn hpart).1⟩
  have hcontent : content = ['\n'].intercalate parts := by
    rw [← hparts, intercalate_splitOn]
  rw [hparts] at h
  clear hparts
  induction parts generalizing content with
  | nil => exact absurd h not_mem_nil
  | cons part parts ih =>
    have hpart := hplain part mem_cons_self
    cases parts with
    | nil =>
      obtain rfl := mem_singleton.mp h
      rw [hcontent, intercalate_singleton, lines_single hne hpart]
      exact h
    | cons next parts =>
      have hsplit : content = part ++ '\n' :: ['\n'].intercalate (next :: parts) := by
        rw [hcontent, intercalate_cons_cons]
        simp
      obtain ⟨first, hfirst, hsame⟩ := lines_lineFeed hpart (['\n'].intercalate (next :: parts))
      rw [hsplit, hfirst]
      rcases mem_cons.mp h with rfl | h
      · rw [hsame hreturn]
        exact mem_cons_self
      · apply mem_cons_of_mem
        exact ih h (fun part hpart => hplain part (mem_cons_of_mem _ hpart)) rfl

end LineLib
