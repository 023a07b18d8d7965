import Mathlib.Algebra.Order.BigOperators.Group.List
import Mathlib.Algebra.Order.Group.Nat
import BridgeMcp.Lib.Lines
import BridgeMcp.Lib.SlashPath
import BridgeMcp.Lib.Walk

/-!
The declared roots of a client (`ports/tools.rs`): the check of a path against them, and the place
that the path names from a working directory.
-/
namespace BridgeMcp.RootScope
open TextLib LineLib SlashPath WalkLib List

def isCurrent (seg : Text) : Bool := seg == [] || seg == ['.']

def isParent (seg : Text) : Bool := seg == ['.', '.']

/-- The stack of `normalize_path_lexical`. -/
def segments (path : Text) : List Text := walk isCurrent isParent [] (path.splitOn '/')

def normalizePathLexical (path : Text) : Text :=
  let stack := segments path
  if stack = [] then ['/'] else '/' :: ['/'].intercalate stack

structure InvalidRequest where
  reason : Text
  deriving DecidableEq

def rootPath (uri : Text) : Text :=
  (stripPrefix "file://" uri).getD uri

def validateRootScope (roots : List Text) (path : Text) : Except InvalidRequest Unit :=
  if roots = [] then .ok ()
  else
    let normalized := normalizePathLexical path
    if roots.any fun uri =>
        let rootNorm := normalizePathLexical (rootPath uri)
        rootNorm == ['/'] || normalized == rootNorm || decide (rootNorm ++ ['/'] <+: normalized) then
      .ok ()
    else
      .error ⟨"Path '" ++ path ++ "' is outside declared workspace roots"⟩

def resolve (directory path : Text) : List Text :=
  segments (if path.head? = some '/' then path else directory ++ '/' :: path)

/-- An absolute path, or one behind `file://`. -/
def IsRoot (uri : Text) : Prop :=
  IsAbsolute uri ∨ ∃ path, uri = "file://" ++ path ∧ IsAbsolute path

def Within (roots : List Text) (directory : Text) (place : List Text) : Prop :=
  ∃ uri ∈ roots, resolve directory (rootPath uri) <+: place

def Proper (seg : Text) : Prop := seg ≠ [] ∧ '/' ∉ seg

theorem proper_of_mem_segments {path seg : Text} (h : seg ∈ segments path) : Proper seg := by
  rcases mem_walk h with hnil | ⟨hmem, hcurrent, -⟩
  · cases hnil
  · refine ⟨?_, (of_mem_splitOn hmem).1⟩
    rintro rfl
    cases hcurrent

def render (segs : List Text) : Text := segs.flatMap ('/' :: ·)

variable {segs roots : List Text}

theorem render_eq_intercalate (h : segs ≠ []) :
    '/' :: ['/'].intercalate segs = render segs := by
  induction segs with
  | nil => exact absurd rfl h
  | cons seg segs ih =>
    cases segs with
    | nil =>
      rw [intercalate_singleton, render, flatMap_singleton]
    | cons next segs =>
      rw [intercalate_cons_cons, append_assoc, singleton_append,
        ih (cons_ne_nil _ _)]
      rfl

theorem render_start_iff {a b : List Text} (ha : ∀ seg ∈ a, Proper seg) (hb : ∀ seg ∈ b, Proper seg) :
    render a ++ ['/'] <+: render b ++ ['/'] ↔ a <+: b := by
  induction a generalizing b with
  | nil =>
    refine iff_of_true ?_ nil_prefix
    cases b with
    | nil => exact prefix_rfl
    | cons y b => exact prefix_append ['/'] (y ++ render b ++ ['/'])
  | cons x a ih =>
    obtain ⟨hx, ha⟩ := forall_mem_cons.mp ha
    cases b with
    | nil =>
      refine iff_of_false ?_ (by simp)
      intro h
      have hlength := h.length_le
      have hpos := length_pos_of_ne_nil hx.1
      simp [render] at hlength
    | cons y b =>
      obtain ⟨hy, hb⟩ := forall_mem_cons.mp hb
      have hhead : ∀ segs : List Text, ∃ rest, render segs ++ ['/'] = '/' :: rest := by
        intro segs
        cases segs with
        | nil => exact ⟨[], rfl⟩
        | cons seg segs => exact ⟨seg ++ render segs ++ ['/'], rfl⟩
      obtain ⟨resta, hresta⟩ := hhead a
      obtain ⟨restb, hrestb⟩ := hhead b
      have hconsa : render (x :: a) ++ ['/'] = '/' :: (x ++ '/' :: resta) := by
        rw [← hresta, ← append_assoc]
        rfl
      have hconsb : render (y :: b) ++ ['/'] = '/' :: (y ++ '/' :: restb) := by
        rw [← hrestb, ← append_assoc]
        rfl
      rw [hconsa, hconsb, prefix_cons_inj]
      have hsegs : x ++ '/' :: resta <+: y ++ '/' :: restb ↔ x = y ∧ resta <+: restb := by
        constructor
        · rintro ⟨tail, htail⟩
          rw [append_assoc, cons_append, append_cons_inj hx.2 hy.2] at htail
          exact ⟨htail.1, tail, htail.2⟩
        · rintro ⟨rfl, tail, rfl⟩
          exact ⟨tail, by rw [append_assoc, cons_append]⟩
      have hrest := ih ha hb
      rw [hresta, hrestb, prefix_cons_inj] at hrest
      rw [hsegs, hrest, cons_prefix_cons]

theorem render_ne_slash (h : ∀ seg ∈ segs, Proper seg) : render segs ≠ ['/'] := by
  cases segs with
  | nil => nofun
  | cons seg segs =>
    intro heq
    have hnil : seg ++ render segs = [] := cons.inj heq |>.2
    exact (h seg mem_cons_self).1 (append_eq_nil_iff.mp hnil).1

theorem normalizePathLexical_eq (path : Text) :
    normalizePathLexical path = if segments path = [] then ['/'] else render (segments path) := by
  simp only [normalizePathLexical]
  split_ifs with hnil
  · rfl
  · exact render_eq_intercalate hnil

theorem admits_iff (uri path : Text) :
    (normalizePathLexical (rootPath uri) == ['/'] ||
        normalizePathLexical path == normalizePathLexical (rootPath uri) ||
        decide (normalizePathLexical (rootPath uri) ++ ['/'] <+: normalizePathLexical path)) = true ↔
      segments (rootPath uri) <+: segments path := by
  have hroot : ∀ seg ∈ segments (rootPath uri), Proper seg := fun _ => proper_of_mem_segments
  have hpath : ∀ seg ∈ segments path, Proper seg := fun _ => proper_of_mem_segments
  rw [normalizePathLexical_eq, normalizePathLexical_eq]
  by_cases hnil : segments (rootPath uri) = []
  · rw [if_pos hnil, hnil]
    exact iff_of_true rfl nil_prefix
  · rw [if_neg hnil, Bool.or_eq_true, Bool.or_eq_true, beq_iff_eq, beq_iff_eq, decide_eq_true_iff,
      or_iff_right (render_ne_slash hroot)]
    split_ifs with hempty
    · rw [hempty, prefix_nil]
      refine iff_of_false ?_ hnil
      rintro (heq | hstart)
      · exact render_ne_slash hroot heq.symm
      · have hlength := hstart.length_le
        rw [length_append, length_singleton] at hlength
        have hzero : render (segments (rootPath uri)) = [] :=
          eq_nil_of_length_eq_zero (by omega)
        obtain ⟨seg, segs, hsegs⟩ := exists_cons_of_ne_nil hnil
        rw [hsegs] at hzero
        cases hzero
    · rw [← render_start_iff hroot hpath, prefix_concat_iff, append_left_inj, eq_comm]

theorem validate_iff (hne : roots ≠ []) (path : Text) :
    validateRootScope roots path = .ok () ↔
      ∃ uri ∈ roots, segments (rootPath uri) <+: segments path := by
  rw [validateRootScope, if_neg hne]
  simp only [any_eq_true, admits_iff]
  split_ifs with hany
  · exact iff_of_true rfl hany
  · exact iff_of_false nofun hany

theorem isAbsolute_rootPath {uri : Text} (h : IsRoot uri) : IsAbsolute (rootPath uri) := by
  rcases h with habs | ⟨path, rfl, habs⟩
  · have hnot : ¬ "file://" <+: uri := by
      rintro ⟨rest, rfl⟩
      cases habs
    rw [rootPath, stripPrefix, if_neg hnot]
    exact habs
  · rw [rootPath, stripPrefix_append]
    exact habs

theorem resolve_of_isAbsolute {path : Text} (h : IsAbsolute path) (directory : Text) :
    resolve directory path = segments path := by
  rw [resolve, if_pos (show path.head? = some '/' from h)]

theorem within_iff (hroots : ∀ uri ∈ roots, IsRoot uri) (directory : Text) (place : List Text) :
    Within roots directory place ↔ ∃ uri ∈ roots, segments (rootPath uri) <+: place := by
  apply exists_congr
  intro uri
  apply and_congr_right
  intro huri
  rw [resolve_of_isAbsolute (isAbsolute_rootPath (hroots uri huri))]

theorem segments_append (a b : Text) :
    segments (a ++ '/' :: b) = walk isCurrent isParent (segments a) (b.splitOn '/') := by
  rw [segments, splitOn_append_cons, walk_append]
  rfl

theorem splitOn_render (h : ∀ seg ∈ segs, '/' ∉ seg) :
    (render segs).splitOn '/' = [] :: segs := by
  induction segs with
  | nil => rfl
  | cons seg segs ih =>
    obtain ⟨hseg, hsegs⟩ := forall_mem_cons.mp h
    have hrender : render (seg :: segs) = [] ++ '/' :: (seg ++ render segs) := rfl
    rw [hrender, splitOn_append_cons, splitOn_append_left hseg, ih hsegs]
    rw [splitOn_nil, singleton_append, modifyHead_cons, append_nil]

theorem segments_render (hslash : ∀ seg ∈ segs, '/' ∉ seg)
    (hplain : ∀ seg ∈ segs, isCurrent seg = false ∧ isParent seg = false) :
    segments (render segs) = segs := by
  rw [segments, splitOn_render hslash, walk]
  exact (walk_of_plain [] hplain).trans (nil_append segs)

theorem exists_fresh (names : List Text) :
    ∃ name, name ∉ names ∧ '/' ∉ name ∧ isCurrent name = false ∧ isParent name = false := by
  refine ⟨replicate ((names.map length).sum + 1) 'd', ?_, ?_, ?_, ?_⟩
  · intro hmem
    have hle := le_sum_of_mem (mem_map_of_mem (f := length) hmem)
    rw [length_replicate] at hle
    omega
  · intro hmem
    exact absurd (eq_of_mem_replicate hmem) (by decide)
  · rfl
  · rfl

theorem exists_outside (hroots : ∀ uri ∈ roots, segments (rootPath uri) ≠ []) {path : Text}
    (hpath : path.head? ≠ some '/') :
    ∃ directory, IsAbsolute directory ∧
      ∀ uri ∈ roots, ¬ segments (rootPath uri) <+: resolve directory path := by
  obtain ⟨name, hfresh, hslash, hcurrent, hparent⟩ :=
    exists_fresh (roots.filterMap fun uri => (segments (rootPath uri)).head?)
  have hplain : ∀ n, ∀ seg ∈ replicate n name, isCurrent seg = false ∧ isParent seg = false := by
    intro n seg hseg
    rw [eq_of_mem_replicate hseg]
    exact ⟨hcurrent, hparent⟩
  have hfree : ∀ n, ∀ seg ∈ replicate n name, '/' ∉ seg := by
    intro n seg hseg
    rw [eq_of_mem_replicate hseg]
    exact hslash
  refine ⟨render (replicate ((path.splitOn '/').length + 1) name), rfl, ?_⟩
  intro uri huri hstart
  have hplace : resolve (render (replicate ((path.splitOn '/').length + 1) name)) path =
      name :: walk isCurrent isParent (replicate (path.splitOn '/').length name)
        (path.splitOn '/') := by
    rw [resolve, if_neg hpath, segments_append, segments_render (hfree _) (hplain _),
      replicate_succ]
    exact walk_base [name] _ (length_replicate ▸ le_rfl)
  rw [hplace] at hstart
  obtain ⟨seg, segs, hsegs⟩ := exists_cons_of_ne_nil (hroots uri huri)
  rw [hsegs, cons_prefix_cons] at hstart
  apply hfresh
  refine mem_filterMap.mpr ⟨uri, huri, ?_⟩
  rw [hsegs, head?_cons, hstart.1]

/-- An accepted path names a place within the roots from every directory just when it is absolute or
a root is the whole tree; an absolute path within the roots is accepted. -/
theorem scope_confines_iff {roots : List Text} (hne : roots ≠ []) (hroots : ∀ uri ∈ roots, IsRoot uri)
    (path : Text) :
    ((validateRootScope roots path = .ok () →
        ∀ directory, IsAbsolute directory → Within roots directory (resolve directory path)) ↔
      (IsAbsolute path ∨ (∃ uri ∈ roots, segments (rootPath uri) = []) ∨
        ¬ Within roots ['/'] (resolve ['/'] path))) ∧
    (IsAbsolute path → ∀ directory, Within roots directory (resolve directory path) →
      validateRootScope roots path = .ok ()) := by
  have hrelative : ∀ directory, path.head? ≠ some '/' → directory = ['/'] →
      resolve directory path = segments path := by
    rintro directory hpath rfl
    rw [resolve, if_neg hpath, segments_append]
    rfl
  simp only [within_iff hroots, validate_iff hne]
  refine ⟨⟨fun hconfined => ?_, ?_⟩, ?_⟩
  · by_cases habs : IsAbsolute path
    · exact .inl habs
    · refine .inr ?_
      by_contra hneither
      obtain ⟨hnonempty, haccepted⟩ := not_or.mp hneither
      rw [hrelative ['/'] habs rfl, not_not] at haccepted
      have hroot : ∀ uri ∈ roots, segments (rootPath uri) ≠ [] := fun uri huri hnil =>
        hnonempty ⟨uri, huri, hnil⟩
      obtain ⟨directory, hdirectory, houtside⟩ := exists_outside hroot habs
      obtain ⟨uri, huri, hstart⟩ := hconfined haccepted directory hdirectory
      exact houtside uri huri hstart
  · rintro (habs | ⟨uri, huri, hnil⟩ | houtside) haccepted directory -
    · rw [resolve_of_isAbsolute habs]
      exact haccepted
    · exact ⟨uri, huri, hnil ▸ nil_prefix⟩
    · by_cases habs : IsAbsolute path
      · rw [resolve_of_isAbsolute habs]
        exact haccepted
      · rw [hrelative ['/'] habs rfl] at houtside
        exact absurd haccepted houtside
  · intro habs directory hwithin
    rw [resolve_of_isAbsolute habs] at hwithin
    exact hwithin

theorem scope_confines_iff_below :
    validateRootScope ["file:///srv/app".toList] "/srv/app/../app/x".toList = .ok () ∧
      ∀ directory, IsAbsolute directory →
        Within ["file:///srv/app".toList] directory (resolve directory "/srv/app/../app/x".toList) := by
  have hroots : ∀ uri ∈ ["file:///srv/app".toList], IsRoot uri := by
    intro uri huri
    rw [mem_singleton.mp huri]
    exact .inr ⟨"/srv/app".toList, rfl, rfl⟩
  have haccepted : validateRootScope ["file:///srv/app".toList] "/srv/app/../app/x".toList = .ok () :=
    rfl
  have hiff := (scope_confines_iff (cons_ne_nil _ _) hroots "/srv/app/../app/x".toList).1
  exact ⟨haccepted, hiff.mpr (.inl rfl) haccepted⟩

/-- A path that is not absolute is judged as if the working directory were `/`. -/
theorem relative_path_outside :
    validateRootScope ["/srv".toList] "srv/x".toList = .ok () ∧ IsRoot "/srv".toList ∧
      IsAbsolute "/home/u".toList ∧
      resolve "/home/u".toList "srv/x".toList =
        ["home".toList, "u".toList, "srv".toList, "x".toList] ∧
      ¬ Within ["/srv".toList] "/home/u".toList (resolve "/home/u".toList "srv/x".toList) := by
  refine ⟨rfl, .inl rfl, rfl, rfl, ?_⟩
  rintro ⟨uri, huri, hstart⟩
  rw [mem_singleton.mp huri] at hstart
  have hroot : resolve "/home/u".toList (rootPath "/srv".toList) = ["srv".toList] := rfl
  have hplace : resolve "/home/u".toList "srv/x".toList =
      ["home".toList, "u".toList, "srv".toList, "x".toList] := rfl
  rw [hroot, hplace, cons_prefix_cons] at hstart
  exact absurd hstart.1 (by decide)

end BridgeMcp.RootScope
