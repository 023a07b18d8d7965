import BridgeMcp.Kubernetes.LocalPath

/-!
Which directories the `local-path` collector removes.
-/
namespace BridgeMcp.Kubernetes
open TextLib LineLib SlashPath Shell List Option

structure RootText (r : Text) : Prop where
  absolute : (r ++ ['/']).head? = some '/'
  plain : PlainLine r

theorem chars_of_validateAbsPath {path : Text} (h : validateAbsPath path = .ok ()) :
    path.head? = some '/' ∧ ∀ c ∈ path, isPathChar c = true := by
  unfold validateAbsPath at h
  split_ifs at h with hempty hhead hdots
  split at h
  · cases h
  · next hfind =>
      refine ⟨not_not.mp hhead, fun c hc => ?_⟩
      simpa using find?_eq_none.mp hfind c hc

theorem RootText.of_validate {root : Text} (h : validateStorageRoot root = .ok ()) :
    RootText (trimSlashes root) := by
  have habs : validateAbsPath root = .ok () := by
    cases hp : validateAbsPath root with
    | ok u => rfl
    | error e =>
      rw [validateStorageRoot, hp] at h
      cases h
  obtain ⟨hhead, hchars⟩ := chars_of_validateAbsPath habs
  have hstart : trimSlashes root <+: root := List.rdropWhile_prefix _ _
  constructor
  · cases hr : trimSlashes root with
    | nil => rfl
    | cons c r =>
      rw [hr] at hstart
      obtain ⟨t, rfl⟩ := hstart
      exact hhead
  · intro c hc
    have hpath := hchars c (hstart.subset hc)
    constructor <;> rintro rfl <;> exact absurd hpath (by decide)

/-- `p` has a segment that only the file system can resolve. -/
def Dotted (p : Text) : Prop :=
  IsAbsolute p ∧ ("/./" <:+: '/' :: normal p ++ ['/'] ∨
    "/../" <:+: '/' :: normal p ++ ['/'])

/-- `p` is the root or one of its parents. -/
def Covers (r p : Text) : Prop := IsAbsolute p ∧ normal p ++ ['/'] <+: r ++ ['/']

def LiesUnder (r p : Text) : Prop := IsAbsolute p ∧ r ++ ['/'] <+: normal p

section LiveAwk
variable {r line : Text}

theorem liveAwk_relative (h : ¬ IsAbsolute line) : liveAwk r line = none := by
  have hhead : (squeeze line).head? ≠ some '/' := by
    rw [head?_squeeze]
    exact h
  simp only [liveAwk, if_pos hhead]

/-- The child of `r` that has the line. -/
def childOf (r line : Text) : Option Text :=
  match stripPrefix (r ++ ['/']) (normal line) with
  | none => none
  | some s =>
    if s.takeWhile (· ≠ '/') = [] then none else some (r ++ '/' :: s.takeWhile (· ≠ '/'))

theorem liveAwk_absolute (h : IsAbsolute line) : liveAwk r line =
    if contains ('/' :: normal line ++ ['/']) "/./".toList ||
        contains ('/' :: normal line ++ ['/']) "/../".toList then some "!UNSURE".toList
    else if normal line = r ∨ normal line ++ ['/'] <+: r ++ ['/'] then some "!COVERS".toList
    else childOf r line := by
  have hhead : ¬ (squeeze line).head? ≠ some '/' := by
    rw [head?_squeeze, not_not]
    exact h
  simp only [liveAwk, if_neg hhead]
  rfl

theorem liveAwk_dotted (h : Dotted line) : liveAwk r line = some "!UNSURE".toList := by
  rw [liveAwk_absolute h.1, if_pos]
  rw [Bool.or_eq_true, TextLib.contains_iff, TextLib.contains_iff]
  exact h.2

variable (hplain : ¬ Dotted line) (habs : IsAbsolute line)
include hplain habs

theorem liveAwk_plain : liveAwk r line =
    if normal line = r ∨ normal line ++ ['/'] <+: r ++ ['/'] then some "!COVERS".toList
    else childOf r line := by
  rw [liveAwk_absolute habs, if_neg]
  rw [Bool.or_eq_true, TextLib.contains_iff, TextLib.contains_iff]
  exact fun hdots => hplain ⟨habs, hdots⟩

theorem liveAwk_covers (h : Covers r line) : liveAwk r line = some "!COVERS".toList := by
  rw [liveAwk_plain hplain habs, if_pos (.inr h.2)]

variable (hcovers : ¬ Covers r line)
include hcovers

theorem liveAwk_uncovered : liveAwk r line = childOf r line := by
  rw [liveAwk_plain hplain habs, if_neg]
  rintro (heq | hup)
  · exact hcovers ⟨habs, heq ▸ List.prefix_rfl⟩
  · exact hcovers ⟨habs, hup⟩

theorem liveAwk_below {s : Text} (h : normal line = r ++ '/' :: s) :
    liveAwk r line = some (r ++ '/' :: s.takeWhile (· ≠ '/')) := by
  have hstrip : stripPrefix (r ++ ['/']) (normal line) = some s := by
    rw [stripPrefix_eq_some, h]
    simp
  rw [liveAwk_uncovered hplain habs hcovers, childOf, hstrip]
  exact if_neg (normal_component h)

theorem liveAwk_elsewhere (h : ¬ LiesUnder r line) : liveAwk r line = none := by
  have hstrip : stripPrefix (r ++ ['/']) (normal line) = none :=
    if_neg fun hunder => h ⟨habs, hunder⟩
  rw [liveAwk_uncovered hplain habs hcovers, childOf, hstrip]

end LiveAwk

theorem liveAwk_eq_some {r line x : Text} (h : liveAwk r line = some x) :
    (Dotted line ∧ x = "!UNSURE") ∨ (Covers r line ∧ x = "!COVERS") ∨
      (¬ Covers r line ∧ IsAbsolute line ∧
        ∃ s, normal line = r ++ '/' :: s ∧ x = r ++ '/' :: s.takeWhile (· ≠ '/')) := by
  by_cases hdots : Dotted line
  · rw [liveAwk_dotted hdots] at h
    exact .inl ⟨hdots, (some.inj h).symm⟩
  by_cases habs : IsAbsolute line
  · by_cases hcovers : Covers r line
    · rw [liveAwk_covers hdots habs hcovers] at h
      exact .inr (.inl ⟨hcovers, (some.inj h).symm⟩)
    · by_cases hunder : LiesUnder r line
      · obtain ⟨s, hs⟩ := hunder.2
        have hnormal : normal line = r ++ '/' :: s := by
          rw [← hs]
          simp
        rw [liveAwk_below hdots habs hcovers hnormal] at h
        exact .inr (.inr ⟨hcovers, habs, s, hnormal, (some.inj h).symm⟩)
      · rw [liveAwk_elsewhere hdots habs hcovers hunder] at h
        cases h
  · rw [liveAwk_relative habs] at h
    cases h

def printed (r : Text) (lines : List Text) : List Text := lines.filterMap (liveAwk r)

/-- The directory `d` under the root `r` is an orphan to go by these paths. -/
def Collects (r : Text) (paths : List Text) (d : Text) : Prop :=
  (∀ p ∈ paths, ¬ Dotted p ∧ ¬ Touches p d) ∧ ∃ p ∈ paths, LiesUnder r p

theorem takeWhile_slash_iff {r x q : Text} (hx : '/' ∉ x) :
    (∃ s, q = r ++ '/' :: s ∧ s.takeWhile (· ≠ '/') = x) ↔
      q = r ++ '/' :: x ∨ r ++ '/' :: x ++ ['/'] <+: q := by
  constructor
  · rintro ⟨s, rfl, rfl⟩
    cases hrest : s.dropWhile (· ≠ '/') with
    | nil =>
      left
      rw [takeWhile_eq_self_iff.mpr (dropWhile_eq_nil_iff.mp hrest)]
    | cons c rest =>
      right
      have hc := head?_dropWhile_not (· ≠ '/') s
      rw [hrest] at hc
      have hslash : c = '/' := by simpa using hc
      refine ⟨rest, ?_⟩
      nth_rewrite 2 [← takeWhile_append_dropWhile (p := (· ≠ '/')) (l := s)]
      rw [hrest, hslash]
      simp
  · have hkeep : ∀ c ∈ x, (decide (c ≠ '/')) = true := by
      intro c hc
      apply decide_eq_true
      rintro rfl
      exact hx hc
    rintro (rfl | ⟨rest, rfl⟩)
    · exact ⟨x, rfl, takeWhile_eq_self_iff.mpr hkeep⟩
    · refine ⟨x ++ '/' :: rest, by simp, ?_⟩
      rw [takeWhile_append_of_pos hkeep]
      simp

section Printed
variable {r : Text} {lines : List Text}

theorem mem_printed {x : Text} : x ∈ printed r lines ↔ ∃ line ∈ lines, liveAwk r line = some x :=
  mem_filterMap

theorem root_ne_mark (hr : RootText r) (s mark : Text) (hmark : mark.head? = some '!') :
    r ++ '/' :: s ≠ mark := by
  intro heq
  have hhead : (r ++ '/' :: s).head? = some '/' := by
    have := hr.absolute
    cases r with
    | nil => rfl
    | cons c r => exact this
  rw [heq, hmark] at hhead
  exact absurd hhead (by decide)

theorem unsure_mem_printed (hr : RootText r) :
    "!UNSURE".toList ∈ printed r lines ↔ ∃ line ∈ lines, Dotted line := by
  rw [mem_printed]
  constructor
  · rintro ⟨line, hline, h⟩
    obtain ⟨hdots, -⟩ | ⟨-, heq⟩ | ⟨-, -, s, -, heq⟩ := liveAwk_eq_some h
    · exact ⟨line, hline, hdots⟩
    · exact absurd heq (by decide)
    · exact absurd heq.symm (root_ne_mark hr _ _ rfl)
  · rintro ⟨line, hline, hdots⟩
    exact ⟨line, hline, liveAwk_dotted hdots⟩

theorem covers_mem_printed (hr : RootText r) (hplain : ∀ line ∈ lines, ¬ Dotted line) :
    "!COVERS".toList ∈ printed r lines ↔ ∃ line ∈ lines, Covers r line := by
  rw [mem_printed]
  constructor
  · rintro ⟨line, hline, h⟩
    obtain ⟨hdots, -⟩ | ⟨hcovers, -⟩ | ⟨-, -, s, -, heq⟩ := liveAwk_eq_some h
    · exact absurd hdots (hplain line hline)
    · exact ⟨line, hline, hcovers⟩
    · exact absurd heq.symm (root_ne_mark hr _ _ rfl)
  · rintro ⟨line, hline, hcovers⟩
    exact ⟨line, hline, liveAwk_covers (hplain line hline) hcovers.1 hcovers⟩

theorem touches_child {p x : Text} (hx : '/' ∉ x) : Touches p (r ++ '/' :: x) ↔
    Covers r p ∨ (IsAbsolute p ∧ ∃ s, normal p = r ++ '/' :: s ∧ s.takeWhile (· ≠ '/') = x) := by
  rw [takeWhile_slash_iff hx, Touches, Covers, ancestor_of_child hx]
  tauto

variable (hclear : ∀ line ∈ lines, ¬ Dotted line ∧ ¬ Covers r line)
include hclear

theorem child_mem_printed {x : Text} (hx : '/' ∉ x) :
    r ++ '/' :: x ∈ printed r lines ↔ ∃ line ∈ lines, Touches line (r ++ '/' :: x) := by
  rw [mem_printed]
  constructor
  · rintro ⟨line, hline, h⟩
    refine ⟨line, hline, (touches_child hx).mpr ?_⟩
    obtain ⟨hdots, -⟩ | ⟨hcovers, -⟩ | ⟨-, habs, s, hs, heq⟩ := liveAwk_eq_some h
    · exact absurd hdots (hclear line hline).1
    · exact .inl hcovers
    · have hcomponent : s.takeWhile (· ≠ '/') = x := by simpa using heq.symm
      exact .inr ⟨habs, s, hs, hcomponent⟩
  · rintro ⟨line, hline, h⟩
    obtain ⟨hdots, hcovers⟩ := hclear line hline
    obtain ⟨habs, s, hs, rfl⟩ := ((touches_child hx).mp h).resolve_left hcovers
    exact ⟨line, hline, liveAwk_below hdots habs hcovers hs⟩

theorem printed_ne_nil : printed r lines ≠ [] ↔ ∃ line ∈ lines, LiesUnder r line := by
  constructor
  · intro hne
    obtain ⟨x, hx⟩ := exists_mem_of_ne_nil _ hne
    obtain ⟨line, hline, h⟩ := mem_printed.mp hx
    refine ⟨line, hline, ?_⟩
    obtain ⟨hdots, -⟩ | ⟨hcovers, -⟩ | ⟨-, habs, s, hs, -⟩ := liveAwk_eq_some h
    · exact absurd hdots (hclear line hline).1
    · exact absurd hcovers (hclear line hline).2
    · exact ⟨habs, s, by rw [hs]; simp⟩
  · rintro ⟨line, hline, habs, s, hs⟩
    obtain ⟨hdots, hcovers⟩ := hclear line hline
    have hnormal : normal line = r ++ '/' :: s := by
      rw [← hs]
      simp
    apply ne_nil_of_mem
    exact mem_printed.mpr ⟨line, hline, liveAwk_below hdots habs hcovers hnormal⟩

end Printed

variable {lines : List Text}

theorem collects_iff {r : Text} {x : Text} (hx : '/' ∉ x) :
    Collects r lines (r ++ '/' :: x) ↔
      (∀ line ∈ lines, ¬ Dotted line ∧ ¬ Covers r line) ∧ printed r lines ≠ [] ∧
        r ++ '/' :: x ∉ printed r lines := by
  constructor
  · rintro ⟨hnone, hunder⟩
    have hclear : ∀ line ∈ lines, ¬ Dotted line ∧ ¬ Covers r line := fun line hline =>
      ⟨(hnone line hline).1, fun hcovers =>
        (hnone line hline).2 ((touches_child hx).mpr (.inl hcovers))⟩
    refine ⟨hclear, (printed_ne_nil hclear).mpr hunder, fun hlive => ?_⟩
    obtain ⟨line, hline, htouch⟩ := (child_mem_printed hclear hx).mp hlive
    exact (hnone line hline).2 htouch
  · rintro ⟨hclear, hne, hnot⟩
    refine ⟨fun p hp => ⟨(hclear p hp).1, fun htouch => hnot ?_⟩, (printed_ne_nil hclear).mp hne⟩
    exact (child_mem_printed hclear hx).mpr ⟨p, hp, htouch⟩

section Pipeline
variable {r : Text} (hr : RootText r)
include hr

theorem plain_printed (h : Plain lines) : Plain (printed r lines) := by
  intro x hx c hc
  obtain ⟨line, hline, hawk⟩ := mem_printed.mp hx
  obtain ⟨-, rfl⟩ | ⟨-, rfl⟩ | ⟨-, -, s, hs, rfl⟩ := liveAwk_eq_some hawk
  · exact plainLine_of_all rfl c hc
  · exact plainLine_of_all rfl c hc
  · rcases mem_append.mp hc with hc | hc
    · exact hr.plain c hc
    · rcases mem_cons.mp hc with rfl | hc
      · decide
      · have hnormal : c ∈ normal line := by
          rw [hs]
          simp [(List.takeWhile_prefix _).subset hc]
        exact h line hline c (mem_of_mem_normal hnormal)

omit hr in
theorem nil_notMem_printed : [] ∉ printed r lines := by
  intro hx
  obtain ⟨line, hline, hawk⟩ := mem_printed.mp hx
  obtain ⟨-, heq⟩ | ⟨-, heq⟩ | ⟨-, -, s, hs, heq⟩ := liveAwk_eq_some hawk
  · exact absurd heq (by decide)
  · exact absurd heq (by decide)
  · simp at heq

theorem liveDirs_eq {out : Text} : liveDirs r (capture out) =
    capture (unlines (sortUnique (printed r ((capture out).splitOn '\n')))) := by
  have hplain := plain_printed hr (plain_splitOn (nul_notMem_capture out))
  rw [liveDirs, sortU, inputLines_newline, inputLines_unlines]
  exact congrArg (fun l => capture (unlines (sortUnique l))) (flatMap_splitOn_plain hplain)

theorem hasLine_liveDirs {out line : Text} (hline : line ≠ []) :
    hasLine (liveDirs r (capture out)) line = true ↔
      line ∈ printed r ((capture out).splitOn '\n') := by
  have hplain := plain_printed hr (plain_splitOn (nul_notMem_capture out))
  rw [hasLine, liveDirs_eq hr, contains_iff_mem]
  have hsorted : Plain (sortUnique (printed r ((capture out).splitOn '\n'))) := fun x hx =>
    hplain x (mem_sortUnique.mp hx)
  exact (mem_recaptured (sortUnique_sorted _) hsorted hline).trans mem_sortUnique

theorem checkLive_ok {out : Text} : checkLive (liveDirs r (capture out)) = .ok () ↔
    ∀ line ∈ (capture out).splitOn '\n', ¬ Dotted line ∧ ¬ Covers r line := by
  unfold checkLive
  split_ifs with hunsure hcovers
  · rw [hasLine_liveDirs hr (by decide), unsure_mem_printed hr] at hunsure
    obtain ⟨line, hline, hdots⟩ := hunsure
    exact iff_of_false (by simp) fun h => (h line hline).1 hdots
  · rw [hasLine_liveDirs hr (by decide), unsure_mem_printed hr] at hunsure
    push Not at hunsure
    rw [hasLine_liveDirs hr (by decide), covers_mem_printed hr hunsure] at hcovers
    obtain ⟨line, hline, hcover⟩ := hcovers
    exact iff_of_false (by simp) fun h => (h line hline).2 hcover
  · rw [hasLine_liveDirs hr (by decide), unsure_mem_printed hr] at hunsure
    push Not at hunsure
    rw [hasLine_liveDirs hr (by decide), covers_mem_printed hr hunsure] at hcovers
    push Not at hcovers
    exact iff_of_true rfl fun line hline => ⟨hunsure line hline, hcovers line hline⟩

theorem liveDirs_eq_nil {out : Text} : liveDirs r (capture out) = [] ↔
    printed r ((capture out).splitOn '\n') = [] := by
  have hplain := plain_printed hr (plain_splitOn (nul_notMem_capture out))
  rw [liveDirs_eq hr, capture_unlines_eq_nil]
  · rw [eq_nil_iff_forall_not_mem, eq_nil_iff_forall_not_mem]
    simp only [mem_sortUnique]
  · exact fun x hx => hplain x (mem_sortUnique.mp hx)
  · exact fun hnil => nil_notMem_printed (mem_sortUnique.mp hnil)

def foundLines (r : Text) (disk : List FileName) : List Text :=
  ((disk.filter fun dir => "pvc-".toList.isPrefixOf dir.text).map fun dir =>
    r ++ '/' :: dir.text).flatMap (·.splitOn '\n')

omit hr in
theorem mem_foundLines {disk : List FileName} {x : Text} : x ∈ foundLines r disk ↔
    ∃ dir ∈ disk, "pvc-".toList <+: dir.text ∧ x ∈ (r ++ '/' :: dir.text).splitOn '\n' := by
  simp [foundLines, List.isPrefixOf_iff_prefix, and_assoc]

theorem plain_foundLines (disk : List FileName) : Plain (foundLines r disk) := by
  intro x hx
  obtain ⟨dir, -, -, hx⟩ := mem_foundLines.mp hx
  apply plain_splitOn _ x hx
  intro hc
  rcases mem_append.mp hc with hc | hc
  · exact (hr.plain _ hc).2 rfl
  · rcases mem_cons.mp hc with hc | hc
    · exact absurd hc (by decide)
    · exact dir.nul hc

omit hr in
theorem onDisk_eq (disk : List FileName) :
    onDisk r disk = capture (unlines (sortUnique (foundLines r disk))) := by
  rw [onDisk, findPvc, sortU, inputLines_unlines]
  rfl

def firstLine (name : Text) : Text := name.takeWhile (· ≠ '\n')

def Removable (r d : Text) : Prop := ∃ x, d = r ++ '/' :: x ∧ "pvc-" <+: x ∧ '/' ∉ x

omit hr in
theorem removeOrphan_ok {d e : Text} :
    (removeOrphan r d).toOption = some e ↔ e = d ∧ Removable r d := by
  simp only [removeOrphan]
  split_ifs with hstart hslash
  · -- a slash behind the root's
    refine iff_of_false (by simp [Except.toOption]) ?_
    rintro ⟨-, x, rfl, -, hx⟩
    have hrel : stripPrefix (r ++ ['/']) (r ++ '/' :: x) = some x := by
      rw [stripPrefix_eq_some]
      simp
    rw [hrel, getD_some, contains_iff_mem] at hslash
    exact hx hslash
  · obtain ⟨rest, rfl⟩ := hstart
    have hrel : stripPrefix (r ++ ['/']) (r ++ "/pvc-" ++ rest) =
        some ("pvc-" ++ rest) := by
      rw [stripPrefix_eq_some]
      simp
    rw [hrel, getD_some, contains_iff_mem] at hslash
    have hremovable : Removable r (r ++ "/pvc-" ++ rest) :=
      ⟨"pvc-" ++ rest, by simp, List.prefix_append _ _, hslash⟩
    simp only [Except.toOption, some.injEq, hremovable, and_true]
    exact eq_comm
  · refine iff_of_false (by simp [Except.toOption]) ?_
    rintro ⟨-, x, rfl, ⟨rest, rfl⟩, -⟩
    exact hstart ⟨rest, by simp⟩

omit hr in
theorem firstLine_pvc {name : Text} (h : "pvc-" <+: name) :
    "pvc-" <+: firstLine name := by
  obtain ⟨rest, rfl⟩ := h
  rw [firstLine, takeWhile_append_of_pos]
  · exact List.prefix_append _ _
  · exact all_eq_true.mp rfl

theorem removable_mem_foundLines {disk : List FileName} {d : Text} (hd : Removable r d) :
    d ∈ foundLines r disk ↔
      ∃ dir ∈ disk, "pvc-" <+: dir.text ∧ d = r ++ '/' :: firstLine dir.text := by
  have hfeed : '\n' ∉ r ++ ['/'] := by
    rw [mem_append, not_or]
    exact ⟨hr.plain.lineFeed, by decide⟩
  rw [mem_foundLines]
  refine exists_congr fun dir => and_congr_right fun _ => and_congr_right fun _ => ?_
  obtain ⟨first, rest, hparts⟩ := exists_cons_of_ne_nil (splitOn_ne_nil '\n' dir.text)
  have hfirst : first = firstLine dir.text := by
    have hhead := head?_splitOn '\n' dir.text
    rw [hparts] at hhead
    exact some.inj hhead
  have hlines : (r ++ '/' :: dir.text).splitOn '\n' = (r ++ '/' :: firstLine dir.text) :: rest := by
    have hsplit := splitOn_append_left hfeed dir.text
    rw [hparts, hfirst, modifyHead_cons] at hsplit
    simpa using hsplit
  rw [hlines, mem_cons]
  refine or_iff_left fun hrest => ?_
  obtain ⟨x, rfl, -, -⟩ := hd
  apply dir.slash
  apply (of_mem_splitOn (hparts ▸ mem_cons_of_mem first hrest)).2
  simp

end Pipeline

theorem assigned_escape (w : Text) : assigned (escape w .posix) = w := by
  have hwords : shellWords (escape w .posix) = some [w] := by
    have hread := escape_reads w .start []
    rw [append_nil] at hread
    exact hread
  rw [assigned, hwords]
  rfl

def loopRemovals (r orph : Text) : List Text :=
  (inputLines (orph ++ ['\n'])).filterMap fun d => (removeOrphan r d).toOption

theorem mem_loopRemovals {r orph d : Text} :
    d ∈ loopRemovals r orph ↔ d ∈ inputLines (orph ++ ['\n']) ∧ Removable r d := by
  rw [loopRemovals, mem_filterMap]
  constructor
  · rintro ⟨line, hline, hok⟩
    obtain ⟨rfl, hd⟩ := removeOrphan_ok.mp hok
    exact ⟨hline, hd⟩
  · rintro ⟨hline, hd⟩
    exact ⟨d, hline, removeOrphan_ok.mpr ⟨rfl, hd⟩⟩

variable {r d : Text}

theorem Removable.ne_nil (h : Removable r d) : d ≠ [] := by
  obtain ⟨x, rfl, -⟩ := h
  simp

theorem loopRemovals_nil (r : Text) : loopRemovals r [] = [] := by
  apply eq_nil_iff_forall_not_mem.mpr
  intro d hd
  obtain ⟨hline, hremovable⟩ := mem_loopRemovals.mp hd
  have hlines : inputLines ([] ++ ['\n']) = [[]] := rfl
  rw [hlines, mem_singleton] at hline
  exact hremovable.ne_nil hline

theorem removeOrphans_removed (apply r live on orph : Text) :
    (removeOrphans apply r live on orph).toOption.elim [] GcReport.removed =
      if apply = "true" ∧ live ≠ [] then loopRemovals r orph else [] := by
  unfold removeOrphans
  by_cases horph : orph = []
  · rw [if_neg fun h => h.2 horph, horph, loopRemovals_nil, ite_self]
    rfl
  · by_cases happly : apply = "true"
    · rw [if_pos ⟨happly, horph⟩]
      by_cases hlive : live = []
      · rw [if_pos hlive, if_neg fun h => h.2 hlive]
        rfl
      · rw [if_neg hlive, if_pos ⟨happly, hlive⟩]
        exact filterMap_map
    · rw [if_neg fun h => happly h.1, if_neg fun h => happly h.1]
      rfl

theorem removed_some (script : GcScript) (out : Text) (disk : List FileName) :
    script.removed (some out) disk =
      let r := assigned script.rootEsc
      let live := liveDirs r (capture out)
      if "PVLIST_OK" <:+ capture out ∧ checkLive live = .ok () ∧
          assigned script.applyStr = "true" ∧ live ≠ [] then
        loopRemovals r (orphans (onDisk r disk) live)
      else [] := by
  dsimp only
  by_cases hmark : "PVLIST_OK" <:+ capture out
  · have hpvl : pvList (some out) = .ok (capture out) := if_pos hmark
    rw [GcScript.removed, GcScript.run, hpvl]
    cases hcheck : checkLive (liveDirs (assigned script.rootEsc) (capture out)) with
    | error e =>
      rw [if_neg fun h => absurd h.2.1 (by simp)]
      simp only [bind, Except.bind, hcheck]
      rfl
    | ok u =>
      simp only [bind, Except.bind, hcheck, removeOrphans_removed]
      simp only [hmark, true_and]
  · obtain ⟨e, hpvl⟩ : ∃ e, pvList (some out) = .error e := ⟨_, if_neg hmark⟩
    rw [if_neg fun h => hmark h.1, GcScript.removed, GcScript.run, hpvl]
    rfl

section Removed
variable {r : Text} (hr : RootText r) {out d : Text} {disk : List FileName}
include hr

theorem mem_orphans (hd : Removable r d) :
    d ∈ inputLines (orphans (onDisk r disk) (liveDirs r (capture out)) ++ ['\n']) ↔
      d ∈ foundLines r disk ∧ d ∉ printed r ((capture out).splitOn '\n') := by
  have hfound : Plain (sortUnique (foundLines r disk)) := fun x hx =>
    plain_foundLines hr disk x (mem_sortUnique.mp hx)
  have hlive : Plain (sortUnique (printed r ((capture out).splitOn '\n'))) := fun x hx =>
    plain_printed hr (plain_splitOn (nul_notMem_capture out)) x (mem_sortUnique.mp hx)
  set found := recaptured (sortUnique (foundLines r disk)) with hfounds
  set live := recaptured (sortUnique (printed r ((capture out).splitOn '\n'))) with hlives
  have horph : inputLines (orphans (onDisk r disk) (liveDirs r (capture out)) ++ ['\n']) =
      recaptured (comm23 found live) := by
    rw [orphans, onDisk_eq, liveDirs_eq hr]
    rfl
  have hfoundSorted : found.Pairwise (· < ·) := recaptured_sorted (sortUnique_sorted _) hfound
  have hsorted : (comm23 found live).Pairwise (· < ·) :=
    hfoundSorted.sublist (comm23_sublist _ _)
  have hplain : Plain (comm23 found live) := fun x hx =>
    plain_recaptured (sortUnique_sorted _) hfound x ((comm23_sublist _ _).mem hx)
  rw [horph, mem_recaptured hsorted hplain hd.ne_nil,
    mem_comm23 hfoundSorted (recaptured_sorted (sortUnique_sorted _) hlive),
    mem_recaptured (sortUnique_sorted _) hfound hd.ne_nil,
    mem_recaptured (sortUnique_sorted _) hlive hd.ne_nil, mem_sortUnique, mem_sortUnique]

omit hr in
theorem firstLine_slash (dir : FileName) : '/' ∉ firstLine dir.text := fun hc =>
  dir.slash ((List.takeWhile_prefix _).subset hc)

omit hr in
theorem firstLine_removable (dir : FileName) (h : "pvc-" <+: dir.text) :
    Removable r (r ++ '/' :: firstLine dir.text) :=
  ⟨firstLine dir.text, rfl, firstLine_pvc h, firstLine_slash dir⟩

theorem mem_removed {script : GcScript} (hroot : assigned script.rootEsc = r) :
    d ∈ script.removed (some out) disk ↔
      assigned script.applyStr = "true" ∧ "PVLIST_OK" <:+ capture out ∧
        ∃ dir ∈ disk, "pvc-" <+: dir.text ∧ d = r ++ '/' :: firstLine dir.text ∧
          Collects r ((capture out).splitOn '\n') d := by
  rw [removed_some, hroot]
  dsimp only
  split_ifs with hcond <;> rw [checkLive_ok hr, ne_eq, liveDirs_eq_nil hr] at hcond
  · obtain ⟨hmark, hclear, happly, hlive⟩ := hcond
    rw [mem_loopRemovals]
    constructor
    · rintro ⟨hmem, hd⟩
      obtain ⟨hfound, hnot⟩ := (mem_orphans hr hd).mp hmem
      obtain ⟨dir, hdir, hpvc, rfl⟩ := (removable_mem_foundLines hr hd).mp hfound
      exact ⟨happly, hmark, dir, hdir, hpvc, rfl,
        (collects_iff (firstLine_slash dir)).mpr ⟨hclear, hlive, hnot⟩⟩
    · rintro ⟨-, -, dir, hdir, hpvc, rfl, hcollects⟩
      have hd := firstLine_removable (r := r) dir hpvc
      have hnot := ((collects_iff (firstLine_slash dir)).mp hcollects).2.2
      refine ⟨(mem_orphans hr hd).mpr ⟨?_, hnot⟩, hd⟩
      exact (removable_mem_foundLines hr hd).mpr ⟨dir, hdir, hpvc, rfl⟩
  · refine iff_of_false not_mem_nil ?_
    rintro ⟨happly, hmark, dir, -, -, rfl, hcollects⟩
    obtain ⟨hclear, hlive, -⟩ := (collects_iff (firstLine_slash dir)).mp hcollects
    exact hcond ⟨hmark, hclear, happly, hlive⟩

end Removed

def delivered (p : Text) : Text := p.filter (· ≠ '\x00')

theorem collects_congr {paths lines : List Text} (h : ∀ p, IsAbsolute p → (p ∈ paths ↔ p ∈ lines)) :
    Collects r paths d ↔ Collects r lines d := by
  have hstep : ∀ {as bs : List Text}, (∀ p, IsAbsolute p → (p ∈ as ↔ p ∈ bs)) →
      Collects r as d → Collects r bs d := by
    rintro as bs hsame ⟨hnone, p, hp, hunder⟩
    refine ⟨fun q hq => ?_, p, (hsame p hunder.1).mp hp, hunder⟩
    constructor
    · intro hdots
      exact (hnone q ((hsame q hdots.1).mpr hq)).1 hdots
    · intro htouch
      exact (hnone q ((hsame q htouch.1).mpr hq)).2 htouch
  exact ⟨hstep h, hstep fun p hp => (h p hp).symm⟩

theorem capture_pvOutput (pvs : List PersistentVolume) :
    capture (pvOutput pvs) = unlines ((pvFields pvs).map delivered) ++ "PVLIST_OK" := by
  have hlast : "PVLIST_OK" = "PVLIST_O" ++ ['K'] := rfl
  have hkept : (pvOutput pvs).filter (· ≠ '\x00') =
      unlines ((pvFields pvs).map delivered) ++ "PVLIST_OK" := by
    rw [pvOutput, filter_append, filter_unlines _ rfl]
    rfl
  rw [capture, hkept, hlast, ← append_assoc, rdropWhile_concat_neg _ _ _ (by decide)]

theorem mem_pvFields {pvs : List PersistentVolume} {p : Text} (h : p ∈ pvFields pvs) :
    p = [] ∨ ∃ pv ∈ pvs, p ∈ pv.paths := by
  obtain ⟨pv, hpv, hp⟩ := mem_flatMap.mp h
  have hcase : ∀ field : Option Text, p = field.getD [] → p = [] ∨ p ∈ field.toList := by
    rintro (- | path) hpath
    · exact .inl hpath
    · exact .inr (mem_singleton.mpr hpath)
  rw [mem_cons, mem_singleton] at hp
  rcases hp with hp | hp
  · exact (hcase _ hp).imp id fun hin => ⟨pv, hpv, mem_append_left _ hin⟩
  · exact (hcase _ hp).imp id fun hin => ⟨pv, hpv, mem_append_right _ hin⟩

theorem mem_pvFields_of_path {pvs : List PersistentVolume} {pv : PersistentVolume} (hpv : pv ∈ pvs)
    {p : Text} (hp : p ∈ pv.paths) : p ∈ pvFields pvs := by
  apply mem_flatMap.mpr ⟨pv, hpv, _⟩
  rcases mem_append.mp hp with hp | hp
  · simp [mem_toList.mp hp]
  · simp [mem_toList.mp hp]

theorem lines_pvOutput (pvs : List PersistentVolume) :
    (capture (pvOutput pvs)).splitOn '\n' =
      (pvFields pvs).map delivered ++ ["PVLIST_OK".toList] := by
  have hplain : Plain ((pvFields pvs).map delivered) := by
    intro line hline c hc
    obtain ⟨p, hp, rfl⟩ := mem_map.mp hline
    obtain ⟨hin, hnul⟩ := mem_filter.mp hc
    refine ⟨?_, by simpa using hnul⟩
    rintro rfl
    rcases mem_pvFields hp with rfl | ⟨pv, -, hpv⟩
    · exact absurd hin not_mem_nil
    · exact pv.oneLine p hpv hin
  rw [capture_pvOutput, splitOn_unlines, flatMap_splitOn_plain hplain,
    splitOn_eq_singleton (by decide)]

def pvPaths (pvs : List PersistentVolume) : List Text := pvs.flatMap PersistentVolume.paths

theorem collects_pvOutput (pvs : List PersistentVolume) :
    Collects r ((capture (pvOutput pvs)).splitOn '\n') d ↔
      Collects r ((pvPaths pvs).map delivered) d := by
  rw [lines_pvOutput]
  apply collects_congr
  intro p habs
  rw [mem_append, List.mem_map, List.mem_map]
  constructor
  · rintro (⟨q, hq, rfl⟩ | hmark)
    · rcases mem_pvFields hq with rfl | ⟨pv, hpv, hq⟩
      · cases habs
      · exact ⟨q, mem_flatMap.mpr ⟨pv, hpv, hq⟩, rfl⟩
    · rw [mem_singleton.mp hmark] at habs
      exact absurd habs (by decide)
  · rintro ⟨q, hq, rfl⟩
    obtain ⟨pv, hpv, hq⟩ := mem_flatMap.mp hq
    exact .inl ⟨q, mem_pvFields_of_path hpv hq, rfl⟩

theorem Collects.not_touches {paths : List Text}
    (h : Collects r (paths.map delivered) d) (hd : '\x00' ∉ d) {p : Text} (hp : p ∈ paths) :
    ¬ Touches p d := by
  intro htouch
  have hkeep : ∀ c ∈ d, decide (c ≠ '\x00') = true := by
    intro c hc
    apply decide_eq_true
    rintro rfl
    exact hd hc
  exact (h.1 _ (mem_map_of_mem hp)).2 (htouch.filter (by decide) hkeep)

/-- Only `pvc-` directories of the disk that no volume touches go, and nothing goes without a
complete list or without `apply`. -/
def RemovesOrphansOnly (root : Text) (apply : Bool) (listing : Listing) (disk : List FileName) :
    Prop :=
  let removed := (buildLocalpathGcCommand root apply).removed listing.answer disk
  match apply, listing with
  | true, .complete pvs =>
    ∀ d ∈ removed, ∃ dir ∈ disk, "pvc-" <+: dir.text ∧
      d = trimSlashes root ++ '/' :: dir.text ∧ ∀ pv ∈ pvs, ∀ p ∈ pv.paths, ¬ Touches p d
  | _, _ => removed = []

/-- The first line of an orphan's name is a directory of the disk itself, and a list that was cut
behind the marker's text leaves no orphan. -/
def OrphansNamed (root : Text) (apply : Bool) (listing : Listing) (disk : List FileName) : Prop :=
  let r := trimSlashes root
  apply = true → ∀ dir ∈ disk, "pvc-" <+: dir.text →
    match listing with
    | .failed => True
    | .complete pvs =>
      Collects r ((pvPaths pvs).map delivered) (r ++ '/' :: firstLine dir.text) →
        ∃ named ∈ disk, named.text = firstLine dir.text
    | .truncated _ out _ _ =>
      "PVLIST_OK" <:+ capture out →
        ¬ Collects r ((capture out).splitOn '\n') (r ++ '/' :: firstLine dir.text)

theorem orphansNamed_of_oneLine (root : Text) (apply : Bool) (pvs : List PersistentVolume)
    {disk : List FileName} (h : ∀ dir ∈ disk, '\n' ∉ dir.text) :
    OrphansNamed root apply (.complete pvs) disk := by
  intro _ dir hdir _ _
  refine ⟨dir, hdir, Eq.symm ?_⟩
  apply takeWhile_eq_self_iff.mpr
  intro c hc
  apply decide_eq_true
  rintro rfl
  exact h dir hdir hc

section Safety
variable {root : Text} (hvalid : validateStorageRoot root = .ok ()) {disk : List FileName}
  {apply : Bool} {out d : Text}
include hvalid

theorem mem_removed_build :
    d ∈ (buildLocalpathGcCommand root apply).removed (some out) disk ↔
      apply = true ∧ "PVLIST_OK" <:+ capture out ∧
        ∃ dir ∈ disk, "pvc-" <+: dir.text ∧
          d = trimSlashes root ++ '/' :: firstLine dir.text ∧
            Collects (trimSlashes root) ((capture out).splitOn '\n') d := by
  have happly : assigned (buildLocalpathGcCommand root apply).applyStr = "true" ↔
      apply = true := by
    cases apply with
    | false => exact iff_of_false (show assigned "false" ≠ "true" by decide) (by decide)
    | true => exact iff_of_true rfl rfl
  rw [mem_removed (RootText.of_validate hvalid) (assigned_escape _), happly]

theorem nul_notMem_child (dir : FileName) :
    '\x00' ∉ trimSlashes root ++ '/' :: firstLine dir.text := by
  intro hc
  rcases mem_append.mp hc with hc | hc
  · exact ((RootText.of_validate hvalid).plain _ hc).2 rfl
  · rcases mem_cons.mp hc with hc | hc
    · exact absurd hc (by decide)
    · exact dir.nul ((List.takeWhile_prefix _).subset hc)

theorem removes_complete (pvs : List PersistentVolume) :
    RemovesOrphansOnly root true (.complete pvs) disk ↔
      OrphansNamed root true (.complete pvs) disk := by
  have hmark : "PVLIST_OK" <:+ capture (pvOutput pvs) := by
    rw [capture_pvOutput]
    exact suffix_append _ _
  constructor
  · intro h _ dir hdir hpvc hcollects
    have hgone : trimSlashes root ++ '/' :: firstLine dir.text ∈
        (buildLocalpathGcCommand root true).removed (some (pvOutput pvs)) disk :=
      (mem_removed_build hvalid).mpr
        ⟨rfl, hmark, dir, hdir, hpvc, rfl, (collects_pvOutput pvs).mpr hcollects⟩
    obtain ⟨named, hnamed, -, heq, -⟩ := h _ hgone
    refine ⟨named, hnamed, ?_⟩
    simpa using heq.symm
  · intro h d hd
    obtain ⟨-, -, dir, hdir, hpvc, rfl, hcollects⟩ := (mem_removed_build hvalid).mp hd
    rw [collects_pvOutput] at hcollects
    obtain ⟨named, hnamed, heq⟩ := h rfl dir hdir hpvc hcollects
    refine ⟨named, hnamed, heq ▸ firstLine_pvc hpvc, by rw [heq], ?_⟩
    intro pv hpv p hp
    exact hcollects.not_touches (nul_notMem_child hvalid dir) (mem_flatMap.mpr ⟨pv, hpv, hp⟩)

end Safety

theorem removes_orphans_only (root : Text) (apply : Bool) (listing : Listing)
    (disk : List FileName) (hvalid : validateStorageRoot root = .ok ()) :
    RemovesOrphansOnly root apply listing disk ↔ OrphansNamed root apply listing disk := by
  cases apply with
  | false =>
    have hnone : (buildLocalpathGcCommand root false).removed listing.answer disk = [] := by
      cases hanswer : listing.answer with
      | none => rfl
      | some out =>
        apply eq_nil_iff_forall_not_mem.mpr
        intro d hd
        exact absurd ((mem_removed_build hvalid).mp hd).1 (by decide)
    refine iff_of_true ?_ (fun h => absurd h (by decide))
    cases listing <;> exact hnone
  | true =>
    cases listing with
    | failed => exact iff_of_true rfl fun _ _ _ _ => trivial
    | complete pvs => exact removes_complete hvalid pvs
    | truncated pvs out _ _ =>
      refine Iff.trans eq_nil_iff_forall_not_mem ?_
      constructor
      · intro h _ dir hdir hpvc hmark hcollects
        exact h _ ((mem_removed_build hvalid).mpr ⟨rfl, hmark, dir, hdir, hpvc, rfl, hcollects⟩)
      · intro h d hd
        obtain ⟨-, hmark, dir, hdir, hpvc, rfl, hcollects⟩ := (mem_removed_build hvalid).mp hd
        exact h rfl dir hdir hpvc hmark hcollects

def liveVolume : PersistentVolume where
  localPath := some "/var/lib/x/pvc-live"
  hostPath := none
  oneLine := by
    intro p hp
    rw [mem_singleton.mp hp]
    decide

def liveDir : FileName := ⟨"pvc-live", by decide, by decide⟩
def oldDir : FileName := ⟨"pvc-old", by decide, by decide⟩

def brokenDir : FileName := ⟨"pvc-a\nb", by decide, by decide⟩

theorem removes_orphans_only_old :
    (buildLocalpathGcCommand "/var/lib/x/".toList true).removed
        (some (pvOutput [liveVolume])) [oldDir, liveDir] = ["/var/lib/x/pvc-old".toList] ∧
      RemovesOrphansOnly "/var/lib/x/".toList true (.complete [liveVolume]) [oldDir, liveDir] := by
  refine ⟨by rfl, (removes_orphans_only _ _ _ _ rfl).mpr (orphansNamed_of_oneLine _ _ _ ?_)⟩
  intro dir hdir
  rcases mem_cons.mp hdir with rfl | hdir
  · decide
  · rw [mem_singleton.mp hdir]
    decide

def markedVolume : PersistentVolume where
  localPath := some "/var/lib/x/pvc-old"
  hostPath := some "/data/PVLIST_OK"
  oneLine := by
    intro p hp
    rcases mem_cons.mp hp with rfl | hp
    · decide
    · rw [mem_singleton.mp hp]
      decide

def cutListing : Listing :=
  .truncated [markedVolume, liveVolume] "/var/lib/x/pvc-old\n/data/PVLIST_OK"
    ⟨"\n/var/lib/x/pvc-live\n\nPVLIST_OK", rfl⟩ (by decide)

theorem first_line_removed :
    validateStorageRoot "/var/lib/x".toList = .ok () ∧
      ¬ RemovesOrphansOnly "/var/lib/x".toList true (.complete [liveVolume])
        [liveDir, brokenDir] ∧
      ¬ RemovesOrphansOnly "/var/lib/x".toList true cutListing [liveDir, oldDir] := by
  have hline : (buildLocalpathGcCommand "/var/lib/x".toList true).removed
      (some (pvOutput [liveVolume])) [liveDir, brokenDir] = ["/var/lib/x/pvc-a".toList] := by rfl
  have hlive : (buildLocalpathGcCommand "/var/lib/x".toList true).removed
      cutListing.answer [liveDir, oldDir] = ["/var/lib/x/pvc-live".toList] := by rfl
  refine ⟨rfl, fun h => ?_, fun h => ?_⟩
  · obtain ⟨dir, hdir, -, heq, -⟩ := h _ (hline ▸ mem_singleton_self _)
    rcases mem_cons.mp hdir with rfl | hdir
    · exact absurd heq (by decide)
    · rw [mem_singleton.mp hdir] at heq
      exact absurd heq (by decide)
  · exact absurd (hlive.symm.trans h) (cons_ne_nil _ _)

end BridgeMcp.Kubernetes
