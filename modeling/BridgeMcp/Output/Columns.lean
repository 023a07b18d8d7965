import BridgeMcp.Lib.TextScan
import BridgeMcp.Lib.Utf8Bytes
import Mathlib.Data.List.Forall2

/-!
Tables in the output of commands (`mcp/tool_handlers/utils.rs`). Columns are cut at byte positions
before which every data row has a gap.
-/
namespace BridgeMcp.Output.Columns
open TextLib List Option

structure ParsedTable where
  headers : List Text
  rows : List (List Text)
  deriving DecidableEq

/-- All data rows have a space at the position, or are shorter. -/
def isDataGap (dataLines : List Text) (pos : ℕ) : Bool :=
  dataLines.all fun line => (utf8Bytes line)[pos]?.all (· == 0x20)

theorem length_dropWhile_lt (gaps : List Bool) (hne : gaps ≠ []) :
    ((gaps.dropWhile (!·)).dropWhile id).length < gaps.length := by
  cases gaps with
  | nil => exact absurd rfl hne
  | cons gap gaps =>
    have hinner := (dropWhile_suffix (l := gaps) (!·)).length_le
    have houter := (dropWhile_suffix (l := gaps.dropWhile (!·)) id).length_le
    have hrun := (dropWhile_suffix (l := gaps) id).length_le
    cases gap with
    | false =>
      simp only [dropWhile_cons, Bool.not_false, if_true, length_cons]
      omega
    | true =>
      simp only [dropWhile_cons, Bool.not_true, Bool.false_eq_true, if_false, id, if_true,
        length_cons]
      omega

/-- The loop over content and gap, at position `i`; the flags from there on are `gaps`. -/
def nextStarts (i : ℕ) (gaps : List Bool) : List ℕ :=
  if gaps = [] then []
  else
    let gapStart := i + (gaps.takeWhile (!·)).length
    let width := ((gaps.dropWhile (!·)).takeWhile id).length
    let rest := (gaps.dropWhile (!·)).dropWhile id
    if 2 ≤ width ∧ rest ≠ [] then (gapStart + width) :: nextStarts (gapStart + width) rest
    else nextStarts (gapStart + width) rest
termination_by gaps.length
decreasing_by all_goals exact length_dropWhile_lt gaps (by assumption)

def colStarts (gaps : List Bool) : List ℕ :=
  let i := (gaps.takeWhile id).length
  let rest := gaps.dropWhile id
  if rest = [] then [] else i :: nextStarts i rest

def columns : List ℕ → List (ℕ × Option ℕ)
  | [] => []
  | start :: starts => (start, starts.head?) :: columns starts

def between (line : Text) (start : ℕ) (next : Option ℕ) : Text :=
  trim ((slice line start (min (next.getD (utf8Len line)) (utf8Len line))).getD [])

def cell (line : Text) (column : ℕ × Option ℕ) : Text :=
  if utf8Len line ≤ column.1 then [] else between line column.1 column.2

/-- `Vec::resize` with empty cells, which also cuts off what is too much. -/
def resize (count : ℕ) (cells : List Text) : List Text :=
  (cells ++ replicate count []).take count

section
variable (toLowercase : Text → Text)

def tabTable (header : Text) (dataLines : List Text) : ParsedTable :=
  let headers := (header.splitOn '\t').map fun s => toLowercase (trim s)
  ⟨headers, dataLines.map fun line => resize headers.length ((line.splitOn '\t').map trim)⟩

def maxLen (lines : List Text) : ℕ :=
  (lines.map utf8Len).foldr max 0

def gutterTable (header : Text) (dataLines : List Text) : Option ParsedTable :=
  if maxLen (header :: dataLines) = 0 then none
  else
    let starts :=
      colStarts ((range (maxLen (header :: dataLines))).map (isDataGap dataLines))
    if starts = [] then none
    else some
      ⟨(columns starts).map fun column => toLowercase (between header column.1 column.2),
        dataLines.map fun line => (columns starts).map (cell line)⟩

def nonEmptyLines (output : Text) : List Text :=
  (lines output).filter fun line => !(trim line).isEmpty

/-- JSON in place of a table is refused. -/
def looksLikeJson (header : Text) : Bool :=
  (trimStart header).head? == some '{' || (trimStart header).head? == some '['

def parseColumnarOutput (output : Text) : Option ParsedTable :=
  match nonEmptyLines output with
  | header :: line :: dataLines =>
    if looksLikeJson header then none
    else if '\t' ∈ header then some (tabTable toLowercase header (line :: dataLines))
    else gutterTable toLowercase header (line :: dataLines)
  | _ => none

/-- `none` is an index out of bounds. -/
def ParsedTable.selectColumns (table : ParsedTable) (cols : List Text) : Option ParsedTable :=
  let lowercaseCols := cols.map toLowercase
  let indices := (table.headers.zipIdx.filter fun entry => lowercaseCols.contains entry.1).map
    Prod.snd
  if indices.isEmpty then some table
  else do
    let headers ← indices.mapM fun i => table.headers[i]?
    let rows ← table.rows.mapM fun row => indices.mapM fun i => row[i]?
    some ⟨headers, rows⟩

end

theorem split_flags (gaps : List Bool) :
    gaps.takeWhile (!·) ++ ((gaps.dropWhile (!·)).takeWhile id ++
      (gaps.dropWhile (!·)).dropWhile id) = gaps := by
  rw [takeWhile_append_dropWhile, takeWhile_append_dropWhile]

theorem getElem?_rest (gaps : List Bool) (k : ℕ) :
    gaps[(gaps.takeWhile (!·)).length + ((gaps.dropWhile (!·)).takeWhile id).length + k]? =
      ((gaps.dropWhile (!·)).dropWhile id)[k]? := by
  have hafter (content run rest : List Bool) :
      (content ++ (run ++ rest))[content.length + run.length + k]? = rest[k]? := by
    rw [Nat.add_assoc, getElem?_append_right (Nat.le_add_right _ _), Nat.add_sub_cancel_left,
      getElem?_append_right (Nat.le_add_right _ _), Nat.add_sub_cancel_left]
  have hflags := hafter (gaps.takeWhile (!·)) ((gaps.dropWhile (!·)).takeWhile id)
    ((gaps.dropWhile (!·)).dropWhile id)
  rwa [split_flags] at hflags

variable {gaps : List Bool}

theorem getElem?_before_rest {width : ℕ}
    (hwidth : ((gaps.dropWhile (!·)).takeWhile id).length = width + 1) :
    gaps[(gaps.takeWhile (!·)).length + width]? = some true := by
  have hinside (content run rest : List Bool) (hlt : width < run.length) :
      (content ++ (run ++ rest))[content.length + width]? = run[width]? := by
    rw [getElem?_append_right (Nat.le_add_right _ _), Nat.add_sub_cancel_left,
      getElem?_append_left hlt]
  have hlt : width < ((gaps.dropWhile (!·)).takeWhile id).length := by omega
  have hflags := hinside (gaps.takeWhile (!·)) _ ((gaps.dropWhile (!·)).dropWhile id) hlt
  rw [split_flags, getElem?_eq_getElem hlt] at hflags
  have htrue : id ((gaps.dropWhile (!·)).takeWhile id)[width] = true :=
    mem_takeWhile_imp (getElem_mem hlt)
  rw [hflags]
  exact congrArg some htrue

theorem mem_nextStarts {i p : ℕ} (hp : p ∈ nextStarts i gaps) :
    ∃ k, p = i + k + 1 ∧ gaps[k]? = some true := by
  fun_induction nextStarts i gaps with
  | case1 => cases hp
  | case2 i gaps hne gapStart width rest hpush ih =>
    cases hp with
    | head =>
      obtain ⟨n, hn⟩ : ∃ n, width = n + 1 := ⟨width - 1, by omega⟩
      refine ⟨(gaps.takeWhile (!·)).length + n, ?_, getElem?_before_rest hn⟩
      omega
    | tail _ hlater =>
      obtain ⟨k, rfl, hk⟩ := ih hlater
      exact ⟨_, by omega, (getElem?_rest gaps k).trans hk⟩
  | case3 i gaps hne gapStart width rest hskip ih =>
    obtain ⟨k, rfl, hk⟩ := ih hp
    exact ⟨_, by omega, (getElem?_rest gaps k).trans hk⟩

theorem nextStarts_increasing (i : ℕ) (gaps : List Bool) :
    (nextStarts i gaps).Pairwise (· < ·) := by
  fun_induction nextStarts i gaps with
  | case1 => exact .nil
  | case2 i gaps hne gapStart width rest hpush ih =>
    refine pairwise_cons.mpr ⟨fun p hp => ?_, ih⟩
    obtain ⟨k, rfl, -⟩ := mem_nextStarts hp
    omega
  | case3 i gaps hne gapStart width rest hskip ih => exact ih

theorem colStarts_spec (hcontent : false ∈ gaps) :
    ∃ (first : ℕ) (later : List ℕ), colStarts gaps = first :: later ∧
      (∀ k < first, gaps[k]? = some true) ∧
      (∀ p ∈ later, ∃ k, p = k + 1 ∧ gaps[k]? = some true) ∧
      (first :: later).Pairwise (· < ·) := by
  have hrest : gaps.dropWhile id ≠ [] := by
    intro hnil
    exact absurd (dropWhile_eq_nil_iff.mp hnil false hcontent) (by decide)
  refine ⟨(gaps.takeWhile id).length, nextStarts (gaps.takeWhile id).length (gaps.dropWhile id),
    if_neg hrest, fun k hk => ?_, fun p hp => ?_, pairwise_cons.mpr ⟨fun p hp => ?_, ?_⟩⟩
  · have htrue : id (gaps.takeWhile id)[k] = true :=
      mem_takeWhile_imp (getElem_mem hk)
    have hflags : (gaps.takeWhile id ++ gaps.dropWhile id)[k]? = (gaps.takeWhile id)[k]? :=
      getElem?_append_left hk
    rw [takeWhile_append_dropWhile, getElem?_eq_getElem hk] at hflags
    rw [hflags]
    exact congrArg some htrue
  · obtain ⟨k, rfl, hk⟩ := mem_nextStarts hp
    refine ⟨(gaps.takeWhile id).length + k, rfl, ?_⟩
    have hflags : (gaps.takeWhile id ++ gaps.dropWhile id)[(gaps.takeWhile id).length + k]? =
        (gaps.dropWhile id)[(gaps.takeWhile id).length + k - (gaps.takeWhile id).length]? :=
      getElem?_append_right (Nat.le_add_right _ _)
    rw [takeWhile_append_dropWhile, Nat.add_sub_cancel_left] at hflags
    rw [hflags, hk]
  · obtain ⟨k, rfl, -⟩ := mem_nextStarts hp
    omega
  · exact nextStarts_increasing _ _

/-- No character of the line lies across the position. -/
def Cut (line : Text) (pos : ℕ) : Prop :=
  pos ≤ utf8Len line → ∃ front back, line = front ++ back ∧ utf8Len front = pos

variable {dataLines : List Text} {line front back : Text} {pos count : ℕ}

theorem byte_of_gap (hline : line ∈ dataLines) (hgap : isDataGap dataLines pos = true)
    (hlt : pos < (utf8Bytes line).length) :
    (utf8Bytes line)[pos] = 0x20 := by
  have hall := all_eq_true.mp hgap line hline
  rw [getElem?_eq_getElem hlt, all_some] at hall
  exact beq_iff_eq.mp hall

theorem cut_of_gap (hline : line ∈ dataLines) (hgap : isDataGap dataLines pos = true) :
    Cut line (pos + 1) := by
  intro hle
  rw [← length_utf8Bytes] at hle
  have hbytes : utf8Bytes line =
      (utf8Bytes line).take pos ++ UInt8.ofNat ' '.toNat :: (utf8Bytes line).drop (pos + 1) := by
    have hbyte : UInt8.ofNat ' '.toNat = (utf8Bytes line)[pos] := (byte_of_gap hline hgap hle).symm
    rw [hbyte, getElem_cons_drop, take_append_drop]
  obtain ⟨front, back, hsplit, hfront, -⟩ := utf8Bytes_split_char (by decide) hbytes
  refine ⟨front ++ [' '], back, by rw [hsplit, append_assoc, singleton_append], ?_⟩
  rw [utf8Len_append, ← length_utf8Bytes, hfront, length_take_of_le (Nat.le_of_lt hle)]
  rfl

theorem exists_leading (hspaces : ∀ k < pos, ∀ b ∈ (utf8Bytes line)[k]?, b = 0x20) :
    ∃ front back, line = front ++ back ∧ (∀ c ∈ front, c = ' ') ∧
      (utf8Len front = pos ∨ back = [] ∧ utf8Len front < pos) := by
  induction line generalizing pos with
  | nil =>
    refine ⟨[], [], rfl, nofun, ?_⟩
    cases pos with
    | zero => exact .inl rfl
    | succ pos => exact .inr ⟨rfl, Nat.succ_pos _⟩
  | cons c line ih =>
    cases pos with
    | zero => exact ⟨[], c :: line, rfl, nofun, .inl rfl⟩
    | succ pos =>
      obtain ⟨b, bytes, hbytes⟩ : ∃ b bytes, String.utf8EncodeChar c = b :: bytes := by
        obtain ⟨lead, tail, hencode, -⟩ := firstChar_encode c []
        exact ⟨lead, tail, hencode⟩
      have hfirst : b = 0x20 := by
        refine hspaces 0 (Nat.succ_pos _) b ?_
        rw [utf8Bytes_cons, hbytes]
        rfl
      subst hfirst
      obtain rfl : c = ' ' := eq_of_encode_cons (by decide) hbytes
      have hlater : ∀ k < pos, ∀ b ∈ (utf8Bytes line)[k]?, b = 0x20 :=
        fun k hk => hspaces (k + 1) (Nat.succ_lt_succ hk)
      obtain ⟨front, back, rfl, hfront, hlength⟩ := ih hlater
      refine ⟨' ' :: front, back, rfl, forall_mem_cons.mpr ⟨rfl, hfront⟩, ?_⟩
      have hsize : utf8Len (' ' :: front) = utf8Len front + 1 := Nat.add_comm _ _
      rw [hsize]
      exact hlength.imp (congrArg (· + 1)) fun h => ⟨h.1, Nat.succ_lt_succ h.2⟩

def visible (s : Text) : Text := s.filter (!isWhitespace ·)

theorem visible_append (s t : Text) : visible (s ++ t) = visible s ++ visible t :=
  filter_append ..

theorem visible_dropWhile (s : Text) : visible (s.dropWhile isWhitespace) = visible s := by
  induction s with
  | nil => rfl
  | cons c s ih =>
    cases hc : isWhitespace c with
    | true =>
      rw [dropWhile_cons_of_pos hc, ih]
      exact (filter_cons_of_neg (by simp [hc])).symm
    | false => rw [dropWhile_cons_of_neg (by simp [hc])]

theorem visible_trim (s : Text) : visible (trim s) = visible s := by
  have hend (t : Text) : visible (trimEnd t) = visible t := by
    have hreverse := visible_dropWhile t.reverse
    rw [visible, visible, filter_reverse] at hreverse
    rw [visible, trimEnd, rdropWhile, filter_reverse, hreverse, reverse_reverse]
    rfl
  rw [trim, hend, visible_dropWhile]

theorem visible_of_blank {s : Text} (h : ∀ c ∈ s, c = ' ') : visible s = [] := by
  rw [visible, filter_eq_nil_iff]
  intro c hc
  rw [h c hc]
  decide

theorem flatten_past {starts : List ℕ} (h : ∀ p ∈ starts, utf8Len line ≤ p) :
    ((columns starts).map (cell line)).flatten = [] := by
  induction starts with
  | nil => rfl
  | cons start starts ih =>
    obtain ⟨hstart, hstarts⟩ := forall_mem_cons.mp h
    rw [columns, map_cons, flatten_cons, ih hstarts, cell, if_pos hstart]
    rfl

theorem visible_between {front mid back : Text} {next : Option ℕ}
    (hstop : min (next.getD (utf8Len (front ++ (mid ++ back)))) (utf8Len (front ++ (mid ++ back))) =
      utf8Len front + utf8Len mid) :
    visible (between (front ++ (mid ++ back)) (utf8Len front) next) = visible mid := by
  rw [between, hstop, slice_append, getD_some, visible_trim]

theorem visible_cells {start : ℕ} {starts : List ℕ} (hcut : ∀ p ∈ starts, Cut line p)
    (hsorted : (start :: starts).Pairwise (· < ·)) (hline : line = front ++ back)
    (hfront : utf8Len front = start) :
    visible ((columns (start :: starts)).map (cell line)).flatten = visible back := by
  induction starts generalizing start front back with
  | nil =>
    rw [columns, columns, map_singleton, flatten_singleton, cell]
    subst hfront
    split_ifs with hend
    · rw [hline, utf8Len_append] at hend
      rw [utf8Len_eq_zero.mp (show utf8Len back = 0 by omega)]
    · have hwhole : line = front ++ (back ++ []) := by rw [hline, append_nil]
      rw [hwhole]
      refine visible_between ?_
      simp only [head?_nil, getD_none, utf8Len_append, utf8Len_nil, min_self,
        Nat.add_zero]
  | cons next starts ih =>
    obtain ⟨hnext, hcuts⟩ := forall_mem_cons.mp hcut
    obtain ⟨hfirst, hrest⟩ := pairwise_cons.mp hsorted
    have hlater := (pairwise_cons.mp hrest).1
    have hlt := hfirst next mem_cons_self
    have hlen : utf8Len line = utf8Len front + utf8Len back := by rw [hline, utf8Len_append]
    rw [columns, map_cons, flatten_cons, visible_append, head?_cons]
    by_cases hinside : next ≤ utf8Len line
    · -- the next column starts inside the line
      obtain ⟨front', back', hline', hfront'⟩ := hnext hinside
      obtain ⟨mid, rfl, hback⟩ | ⟨mid, rfl, hback⟩ :=
        append_eq_append_iff.mp (hline.symm.trans hline')
      · rw [ih hcuts hrest hline' hfront', cell, if_neg (by dsimp only; omega), hback,
          visible_append]
        subst hfront
        have hwhole : line = front ++ (mid ++ back') := by rw [hline, hback]
        rw [hwhole] at hinside ⊢
        rw [visible_between]
        rw [getD_some, min_eq_left hinside, ← hfront', utf8Len_append]
      · rw [utf8Len_append] at hfront
        omega
    · have hpast : ∀ p ∈ next :: starts, utf8Len line ≤ p := by
        refine forall_mem_cons.mpr ⟨by omega, fun p hp => ?_⟩
        exact (Nat.le_of_lt (Nat.lt_of_not_le hinside)).trans (Nat.le_of_lt (hlater p hp))
      rw [flatten_past hpast, cell]
      subst hfront
      split_ifs with hend
      · rw [hlen] at hend
        rw [utf8Len_eq_zero.mp (show utf8Len back = 0 by dsimp only at hend; omega)]
        rfl
      · have hwhole : line = front ++ (back ++ []) := by rw [hline, append_nil]
        rw [hwhole] at hinside ⊢
        rw [visible_between]
        · exact append_nil _
        · rw [getD_some, min_eq_right (Nat.le_of_lt (Nat.lt_of_not_le hinside)),
            utf8Len_append, append_nil]

theorem le_maxLen {lines : List Text} (hline : line ∈ lines) :
    utf8Len line ≤ maxLen lines := by
  induction hline with
  | head => exact Nat.le_max_left _ _
  | tail _ _ ih => exact ih.trans (Nat.le_max_right _ _)

theorem gap_of_flag {k : ℕ} (h : ((List.range count).map (isDataGap dataLines))[k]? = some true) :
    isDataGap dataLines k = true := by
  rw [List.getElem?_map, map_eq_some_iff] at h
  obtain ⟨pos, hpos, hgap⟩ := h
  obtain ⟨_, hk⟩ := List.getElem?_eq_some_iff.mp hpos
  rw [List.getElem_range] at hk
  exact hk ▸ hgap

theorem bytes_of_gaps (hline : line ∈ dataLines) (hgaps : ∀ k < pos, isDataGap dataLines k = true) :
    ∀ k < pos, ∀ b ∈ (utf8Bytes line)[k]?, b = 0x20 := by
  intro k hk b hb
  obtain ⟨hlt, rfl⟩ := List.getElem?_eq_some_iff.mp hb
  exact byte_of_gap hline (hgaps k hk) hlt

theorem false_mem_flags (hline : line ∈ dataLines) (hblank : trim line ≠ [])
    (hcount : utf8Len line ≤ count) :
    false ∈ (range count).map (isDataGap dataLines) := by
  by_contra hnone
  have hgaps : ∀ k < utf8Len line, isDataGap dataLines k = true := by
    intro k hk
    by_contra hgap
    refine hnone (mem_map.mpr ⟨k, mem_range.mpr (by omega), ?_⟩)
    exact Bool.eq_false_iff.mpr hgap
  obtain ⟨front, back, hsplit, hfront, hlength⟩ := exists_leading (bytes_of_gaps hline hgaps)
  have hback : back = [] := by
    rw [hsplit, utf8Len_append] at hlength
    exact hlength.elim (fun h => utf8Len_eq_zero.mp (by omega)) And.left
  have hspace : ∀ c ∈ line, isWhitespace c = true := by
    intro c hc
    rw [hsplit, hback, append_nil] at hc
    rw [hfront c hc]
    decide
  have hdrop : line.dropWhile isWhitespace = [] := dropWhile_eq_nil_iff.mpr hspace
  exact hblank (by rw [trim, hdrop]; rfl)

theorem visible_row (hline : line ∈ dataLines) {first : ℕ} {later : List ℕ}
    (hfirst : ∀ k < first, isDataGap dataLines k = true)
    (hlater : ∀ p ∈ later, ∃ k, p = k + 1 ∧ isDataGap dataLines k = true)
    (hsorted : (first :: later).Pairwise (· < ·)) :
    visible ((columns (first :: later)).map (cell line)).flatten = visible line := by
  have hcut : ∀ p ∈ later, Cut line p := by
    intro p hp
    obtain ⟨k, rfl, hgap⟩ := hlater p hp
    exact cut_of_gap hline hgap
  obtain ⟨front, back, hsplit, hfront, hlength | ⟨rfl, hlength⟩⟩ :=
    exists_leading (bytes_of_gaps hline hfirst)
  · rw [visible_cells hcut hsorted hsplit hlength, hsplit, visible_append, visible_of_blank hfront,
      nil_append]
  · rw [append_nil] at hsplit
    subst hsplit
    have hpast : ∀ p ∈ first :: later, utf8Len line ≤ p := by
      refine forall_mem_cons.mpr ⟨Nat.le_of_lt hlength, fun p hp => ?_⟩
      exact (Nat.le_of_lt hlength).trans
        (Nat.le_of_lt ((pairwise_cons.mp hsorted).1 p hp))
    rw [flatten_past hpast, visible_of_blank hfront]
    rfl

theorem gutterTable_spec (toLowercase : Text → Text) (header : Text) (hline : line ∈ dataLines)
    (hblank : trim line ≠ []) :
    ∃ table, gutterTable toLowercase header dataLines = some table ∧
      List.Forall₂ (fun line row => row.length = table.headers.length ∧
        visible row.flatten = visible line) dataLines table.rows := by
  have hcontent := false_mem_flags hline hblank (le_maxLen (mem_cons_of_mem header hline))
  obtain ⟨first, later, hstarts, hfirst, hlater, hsorted⟩ := colStarts_spec hcontent
  have hlen : maxLen (header :: dataLines) ≠ 0 := by
    intro hzero
    rw [hzero] at hcontent
    cases hcontent
  refine ⟨_, (if_neg hlen).trans (if_neg ?_), ?_⟩
  · rw [hstarts]
    exact cons_ne_nil _ _
  · rw [hstarts, forall₂_map_right_iff, forall₂_same]
    intro other hother
    refine ⟨by rw [length_map, length_map], ?_⟩
    exact visible_row hother (fun k hk => gap_of_flag (hfirst k hk))
      (fun p hp => (hlater p hp).imp fun k hk => ⟨hk.1, gap_of_flag hk.2⟩) hsorted

/-- A text that is read by its gutters has a row of full length for each line after the first, with
the line's characters in their order, whitespace aside. -/
theorem parseColumnarOutput_keeps (toLowercase : Text → Text) {output header line : Text}
    {dataLines : List Text} (hlines : nonEmptyLines output = header :: line :: dataLines)
    (hjson : looksLikeJson header = false) (htab : '\t' ∉ header) :
    ∃ table, parseColumnarOutput toLowercase output = some table ∧
      List.Forall₂ (fun line row => row.length = table.headers.length ∧
        visible row.flatten = visible line) (line :: dataLines) table.rows := by
  have hmem : line ∈ nonEmptyLines output := by
    rw [hlines]
    exact mem_cons_of_mem _ mem_cons_self
  have hblank : trim line ≠ [] := by simpa using (mem_filter.mp hmem).2
  have hparse : parseColumnarOutput toLowercase output =
      gutterTable toLowercase header (line :: dataLines) := by
    rw [parseColumnarOutput, hlines]
    simp only [hjson, Bool.false_eq_true, if_false, if_neg htab]
  rw [hparse]
  exact gutterTable_spec toLowercase header mem_cons_self hblank

theorem parseColumnarOutput_keeps_accents :
    ∃ table, parseColumnarOutput id "A  B\nété  x\ny\n".toList = some table ∧
      List.Forall₂ (fun line row => row.length = table.headers.length ∧
        visible row.flatten = visible line) ["été  x".toList, "y".toList] table.rows :=
  parseColumnarOutput_keeps id (show nonEmptyLines _ = "A  B".toList :: _ from rfl) rfl (by decide)

def ParsedTable.Rectangular (table : ParsedTable) : Prop :=
  ∀ row ∈ table.rows, row.length = table.headers.length

theorem length_resize (count : ℕ) (cells : List Text) : (resize count cells).length = count := by
  rw [resize, length_take, length_append, length_replicate]
  omega

theorem parseColumnarOutput_rectangular {toLowercase : Text → Text} {output : Text}
    {table : ParsedTable} (h : parseColumnarOutput toLowercase output = some table) :
    table.Rectangular := by
  unfold parseColumnarOutput at h
  split at h
  · split_ifs at h with hjson htab
    · cases h
      exact forall_mem_map.mpr fun line _ => length_resize _ _
    · unfold gutterTable at h
      dsimp only at h
      split_ifs at h
      cases h
      refine forall_mem_map.mpr fun line _ => ?_
      rw [length_map, length_map]
  · cases h

theorem exists_mapM {α β : Type} {f : α → Option β} {l : List α} (h : ∀ a ∈ l, ∃ b, f a = some b) :
    ∃ l', l.mapM f = some l' ∧ l'.length = l.length ∧ ∀ b ∈ l', ∃ a ∈ l, f a = some b := by
  induction l with
  | nil => exact ⟨[], rfl, rfl, nofun⟩
  | cons a l ih =>
    obtain ⟨⟨b, hb⟩, hl⟩ := forall_mem_cons.mp h
    obtain ⟨l', hrest, hlength, hmem⟩ := ih hl
    refine ⟨b :: l', by rw [mapM_cons, hb, hrest]; rfl, congrArg (· + 1) hlength, ?_⟩
    refine forall_mem_cons.mpr ⟨⟨a, mem_cons_self, hb⟩, fun b' hb' => ?_⟩
    obtain ⟨a', ha', heq⟩ := hmem b' hb'
    exact ⟨a', mem_cons_of_mem _ ha', heq⟩

theorem selectColumns_rectangular (toLowercase : Text → Text) {table : ParsedTable}
    (h : table.Rectangular) (cols : List Text) :
    ∃ table', table.selectColumns toLowercase cols = some table' ∧ table'.Rectangular := by
  unfold ParsedTable.selectColumns
  extract_lets lowercaseCols indices
  have hindex : ∀ i ∈ indices, i < table.headers.length := by
    intro i hi
    obtain ⟨entry, hentry, rfl⟩ := mem_map.mp hi
    exact (mem_zipIdx' (mem_filter.mp hentry).1).1
  have hselect : ∀ cells : List Text, cells.length = table.headers.length →
      ∃ selected, indices.mapM (fun i => cells[i]?) = some selected ∧
        selected.length = indices.length := by
    intro cells hcells
    obtain ⟨selected, heq, hlength, -⟩ := exists_mapM (f := fun i => cells[i]?) fun i hi =>
      ⟨_, getElem?_eq_getElem (hcells ▸ hindex i hi)⟩
    exact ⟨selected, heq, hlength⟩
  split_ifs with hempty
  · exact ⟨table, rfl, h⟩
  · obtain ⟨headers, hheaders, hcount⟩ := hselect table.headers rfl
    obtain ⟨rows, hrows, -, hmem⟩ := exists_mapM fun row hrow =>
      (hselect row (h row hrow)).imp fun _ => And.left
    refine ⟨⟨headers, rows⟩, by rw [hheaders, hrows]; rfl, fun selected hselected => ?_⟩
    obtain ⟨row, hrow, heq⟩ := hmem selected hselected
    obtain ⟨selected', heq', hcount'⟩ := hselect row (h row hrow)
    obtain rfl := some.inj (heq.symm.trans heq')
    exact hcount'.trans hcount.symm

/-- A parsed table can be narrowed to any columns: no index is out of bounds, and every row is as
long as the header. -/
theorem parsed_columns_selectable (toLowercase : Text → Text) (output : Text) (cols : List Text)
    (table : ParsedTable) (h : parseColumnarOutput toLowercase output = some table) :
    ∃ selected, table.selectColumns toLowercase cols = some selected ∧ selected.Rectangular :=
  selectColumns_rectangular toLowercase (parseColumnarOutput_rectangular h) cols

theorem parsed_columns_selectable_tabs : ∃ selected : ParsedTable,
    ParsedTable.selectColumns id ⟨["a".toList, "b".toList], [["1".toList, []]]⟩ ["b".toList] =
      some selected ∧ selected.Rectangular :=
  parsed_columns_selectable id "a\tb\n1" ["b".toList] _ (by decide)

end BridgeMcp.Output.Columns
