import BridgeMcp.Lib.Text

/-!
Rust's `std::path` over texts, by the rules of Unix and by those of Windows: how a path splits into
components, and what `PathBuf::push` makes of a base and a second path.
-/
namespace OsPath
open TextLib List Option

inductive Rules where
  | unix
  | windows
  deriving DecidableEq

def isSeparator : Rules → Char → Bool
  | .unix, c => c == '/'
  | .windows, c => c == '/' || c == '\\'

def mainSeparator : Rules → Char
  | .unix => '/'
  | .windows => '\\'

/-- `std::path::Prefix`; `\\?\` begins the verbatim ones. -/
inductive Start where
  | verbatim (name : Text)
  | verbatimUnc (server share : Text)
  | verbatimDisk (letter : Char)
  | deviceNs (name : Text)
  | unc (server share : Text)
  | disk (letter : Char)
  deriving DecidableEq

def Start.isVerbatim : Start → Bool
  | .verbatim _ | .verbatimUnc _ _ | .verbatimDisk _ => true
  | _ => false

def Start.isDrive : Start → Bool
  | .disk _ => true
  | _ => false

def Start.hasImplicitRoot (start : Start) : Bool := !start.isDrive

def shareLength (share : Text) : ℕ := if share.isEmpty then 0 else 1 + share.length

def Start.length : Start → ℕ
  | .verbatim name => 4 + name.length
  | .verbatimUnc server share => 8 + server.length + shareLength share
  | .verbatimDisk _ => 6
  | .deviceNs name => 4 + name.length
  | .unc server share => 2 + server.length + shareLength share
  | .disk _ => 2

def parseNextComponent (separator : Char → Bool) (path : Text) : Text × Text :=
  (path.takeWhile fun c => !separator c, (path.dropWhile fun c => !separator c).tail)

def parseDrive : Text → Option Char
  | letter :: ':' :: _ => if letter.isAlpha then some letter.toUpper else none
  | _ => none

def parseDriveExact (path : Text) : Option Char :=
  if (path.drop 2).head?.all (isSeparator .windows) then parseDrive path else none

/-- Slashes are read as backslashes here. -/
def stripStart (pattern path : Text) : Option Text :=
  if (path.take pattern.length).map (fun c => if c = '/' then '\\' else c) = pattern then
    some (path.drop pattern.length)
  else none

def parseVerbatim (path : Text) : Start :=
  match stripStart "UNC\\" path with
  | some path =>
    let (server, path) := parseNextComponent (· == '\\') path
    .verbatimUnc server (parseNextComponent (· == '\\') path).1
  | none =>
    match parseDriveExact path with
    | some letter => .verbatimDisk letter
    | none => .verbatim (parseNextComponent (· == '\\') path).1

def parseUnc (path : Text) : Option Start :=
  let (server, path) := parseNextComponent (isSeparator .windows) path
  let (share, _) := parseNextComponent (isSeparator .windows) path
  if server.isEmpty || share.isEmpty then none else some (.unc server share)

def parseStart (rules : Rules) (path : Text) : Option Start :=
  match rules with
  | .unix => none
  | .windows =>
    match stripStart "\\\\" path with
    | none => (parseDrive path).map .disk
    | some rest =>
      -- a slash in `\\?\` does not count as a backslash
      if "\\\\?\\" <+: path then some (parseVerbatim (path.drop 4))
      else match stripStart ".\\" rest with
        | some rest => some (.deviceNs (parseNextComponent (isSeparator .windows) rest).1)
        | none => parseUnc rest

inductive Component where
  | start (raw : Text) (parsed : Start)
  | rootDir
  | curDir
  | parentDir
  | normal (name : Text)
  deriving DecidableEq

section
variable (rules : Rules)

def isVerbatim (path : Text) : Bool := (parseStart rules path).any Start.isVerbatim

def startLength (path : Text) : ℕ := ((parseStart rules path).map Start.length).getD 0

def hasPhysicalRoot (path : Text) : Bool :=
  (path.drop (startLength rules path)).head?.any (isSeparator rules)

def hasRoot (path : Text) : Bool :=
  hasPhysicalRoot rules path || (parseStart rules path).any Start.hasImplicitRoot

def isAbsolute (path : Text) : Bool :=
  match rules with
  | .unix => hasRoot .unix path
  | .windows => hasRoot .windows path && (parseStart .windows path).isSome

/-- The separators after the start: verbatim paths have backslashes only. -/
def bodySeparator (path : Text) (c : Char) : Bool :=
  if isVerbatim rules path then c == '\\' else isSeparator rules c

def parseSingleComponent (verbatim : Bool) (part : Text) : Option Component :=
  if part = ['.'] then if verbatim then some .curDir else none
  else if part = ['.', '.'] then some .parentDir
  else if part = [] then none
  else some (.normal part)

def bodyText (path : Text) : Text :=
  if hasPhysicalRoot rules path then (path.drop (startLength rules path)).tail
  else path.drop (startLength rules path)

def body (path : Text) : List Text := (bodyText rules path).splitOnP (bodySeparator rules path)

def rootComponents (path : Text) : List Component :=
  if hasPhysicalRoot rules path then [.rootDir]
  else match parseStart rules path with
    | some start => if start.hasImplicitRoot && !start.isVerbatim then [.rootDir] else []
    | none => if (body rules path).head? = some ['.'] then [.curDir] else []

def components (path : Text) : List Component :=
  ((parseStart rules path).map fun start => .start (path.take start.length) start).toList ++
    (rootComponents rules path ++
      (body rules path).filterMap (parseSingleComponent (isVerbatim rules path)))

def isBareDrive (path : Text) : Bool :=
  (parseStart rules path).any fun start => start.isDrive && start.length == path.length

def needSeparator (base : Text) : Bool :=
  (base.getLast?.any fun c => !isSeparator rules c) && !isBareDrive rules base

def pushComponent (buf : List Component) : Component → List Component
  | .rootDir => buf.take 1 ++ [.rootDir]
  | .curDir => buf
  | .parentDir =>
    match buf.getLast? with
    | some (.normal _) => buf.dropLast
    | _ => buf
  | c => buf ++ [c]

def Component.text : Component → Text
  | .start raw _ => raw
  | .rootDir => [mainSeparator .windows]
  | .curDir => ['.']
  | .parentDir => ['.', '.']
  | .normal name => name

def Component.needSeparator : Component → Bool
  | .rootDir => false
  | .start _ parsed => !parsed.isDrive && 0 < parsed.length
  | _ => true

def render : Bool → List Component → Text
  | _, [] => []
  | needSep, c :: cs =>
    (if needSep && c ≠ .rootDir then [mainSeparator .windows] else []) ++
      (c.text ++ render c.needSeparator cs)

/-- `PathBuf::push`, and so `Path::join`. -/
def push (base path : Text) : Text :=
  if isAbsolute rules path || (parseStart rules path).isSome then path
  else if isVerbatim rules base && !path.isEmpty then
    render false ((components rules path).foldl pushComponent (components rules base))
  else if hasRoot rules path then base.take (startLength rules base) ++ path
  else base ++ ((if needSeparator rules base then [mainSeparator rules] else []) ++ path)

/-- A name that is one component and nothing else: not `.`, `..`, a root or the start of a Windows
path. -/
def Ordinary (name : Text) : Prop := components rules name = [.normal name]

instance (name : Text) : Decidable (Ordinary rules name) := inferInstanceAs (Decidable (_ = _))

/-- `base` with one more component. -/
def extend (base name : Text) : Text :=
  if isVerbatim rules base then render false (components rules base ++ [.normal name])
  else base ++ ((if needSeparator rules base then [mainSeparator rules] else []) ++ name)

/-- `path` is `base` or `base` extended by ordinary components. -/
def Inside (base path : Text) : Prop :=
  ∃ names : List Text, (∀ name ∈ names, Ordinary rules name) ∧
    path = names.foldl (extend rules) base

end

section
variable {rules : Rules} {base path name : Text}

theorem Inside.refl : Inside rules base base := ⟨[], nofun, rfl⟩

theorem Inside.extend (h : Inside rules base path) (hname : Ordinary rules name) :
    Inside rules base (extend rules path name) := by
  obtain ⟨names, hnames, rfl⟩ := h
  refine ⟨names ++ [name], ?_, by rw [foldl_append, foldl_cons, foldl_nil]⟩
  intro n hn
  rcases mem_append.mp hn with hn | hn
  · exact hnames n hn
  · rw [mem_singleton.mp hn]
    exact hname

def Unseparated (rules : Rules) (name : Text) : Prop := ∀ c ∈ name, isSeparator rules c = false

theorem Unseparated.parseStart_eq (h : Unseparated rules name) :
    parseStart rules name = if rules = .windows then (parseDrive name).map .disk else none := by
  cases rules with
  | unix => rfl
  | windows =>
    have hstrip : stripStart "\\\\" name = none := by
      rw [stripStart, if_neg]
      intro heq
      cases name with
      | nil => cases heq
      | cons c name =>
        have hc := h c mem_cons_self
        have hhead : (if c = '/' then '\\' else c) = '\\' := (cons.inj heq).1
        split_ifs at hhead with hslash
        · rw [hslash] at hc
          cases hc
        · rw [hhead] at hc
          cases hc
    rw [parseStart, hstrip, if_pos rfl]

theorem Unseparated.not_hasPhysicalRoot (h : Unseparated rules name) :
    hasPhysicalRoot rules name = false := by
  rw [hasPhysicalRoot]
  cases hhead : (name.drop (startLength rules name)).head? with
  | none => rfl
  | some c => exact h c (mem_of_mem_drop (mem_of_head? hhead))

theorem Unseparated.ordinary (h : Unseparated rules name) (hstart : parseStart rules name = none)
    (hne : name ≠ []) (hdot : name ≠ ['.']) (hdots : name ≠ ['.', '.']) :
    Ordinary rules name := by
  have hverbatim : isVerbatim rules name = false := by rw [isVerbatim, hstart, any_none]
  have hbody : body rules name = [name] := by
    rw [body, bodyText, h.not_hasPhysicalRoot, startLength, hstart]
    apply splitOnP_eq_singleton
    intro c hc
    rw [bodySeparator, hverbatim]
    exact h c hc
  have hroot : rootComponents rules name = [] := by
    rw [rootComponents, h.not_hasPhysicalRoot, hstart, hbody]
    simp [hdot]
  rw [Ordinary, components, hroot, hbody, hstart]
  simp [parseSingleComponent, hne, hdot, hdots]

theorem Ordinary.parseStart (h : Ordinary rules name) : parseStart rules name = none := by
  rw [Ordinary, components] at h
  cases hstart : OsPath.parseStart rules name with
  | none => rfl
  | some start =>
    rw [hstart] at h
    cases h

theorem Ordinary.ne_nil (h : Ordinary rules name) : name ≠ [] := by
  intro heq
  rw [heq] at h
  cases rules <;> exact absurd h (by decide)

theorem of_mem_splitOnP {p : Char → Bool} {s part : Text} (h : part ∈ s.splitOnP p) :
    ∀ c ∈ part, p c = false := by
  induction s generalizing part with
  | nil =>
    rw [splitOnP_nil, mem_singleton] at h
    rw [h]
    nofun
  | cons d s ih =>
    rw [splitOnP_cons_eq_if_modifyHead] at h
    obtain ⟨first, rest, hparts⟩ := exists_cons_of_ne_nil (splitOnP_ne_nil p s)
    split_ifs at h with hd
    · cases mem_cons.mp h with
      | inl h =>
        rw [h]
        nofun
      | inr h => exact ih h
    · rw [hparts, modifyHead_cons] at h
      cases mem_cons.mp h with
      | inl h =>
        rw [h]
        exact forall_mem_cons.mpr ⟨by simpa using hd, ih (hparts ▸ mem_cons_self)⟩
      | inr h => exact ih (hparts ▸ mem_cons_of_mem first h)

theorem parseSingleComponent_normal {verbatim : Bool} {part : Text}
    (h : parseSingleComponent verbatim part = some (.normal name)) : part = name := by
  rw [parseSingleComponent] at h
  split_ifs at h
  all_goals cases h
  rfl

theorem normal_notMem_rootComponents : .normal name ∉ rootComponents rules path := by
  rw [rootComponents]
  by_cases hroot : hasPhysicalRoot rules path = true
  · simp [hroot]
  · rw [if_neg hroot]
    cases parseStart rules path with
    | none =>
      dsimp only
      split_ifs <;> simp
    | some start =>
      dsimp only
      split_ifs <;> simp

theorem Ordinary.single (h : Ordinary rules name) :
    Unseparated rules name ∧ parseSingleComponent false name = some (.normal name) := by
  have hmem : .normal name ∈ components rules name := h ▸ mem_singleton_self _
  have hverbatim : isVerbatim rules name = false := by
    rw [isVerbatim, h.parseStart, any_none]
  rw [components, h.parseStart, hverbatim] at hmem
  rw [map_none, toList_none, nil_append, mem_append] at hmem
  obtain ⟨part, hpart, hsingle⟩ :=
    mem_filterMap.mp (hmem.resolve_left normal_notMem_rootComponents)
  rw [parseSingleComponent_normal hsingle] at hpart hsingle
  refine ⟨?_, hsingle⟩
  intro c hc
  have hseparator := of_mem_splitOnP hpart c hc
  rwa [bodySeparator, hverbatim] at hseparator

theorem push_eq_extend (h : Unseparated rules name) (hname : Ordinary rules name) (base : Text) :
    push rules base name = extend rules base name := by
  have hroot : hasRoot rules name = false := by
    rw [hasRoot, h.not_hasPhysicalRoot, hname.parseStart]
    rfl
  have habsolute : isAbsolute rules name = false := by
    cases rules with
    | unix => exact hroot
    | windows => rw [isAbsolute, hroot, Bool.false_and]
  have hempty : name.isEmpty = false := by simpa using hname.ne_nil
  rw [push, habsolute, hname.parseStart, hroot, hempty, extend, hname]
  simp [pushComponent]

theorem push_of_start (h : (parseStart rules name).isSome = true) (base : Text) :
    push rules base name = name := by
  rw [push, h, Bool.or_true, if_pos rfl]

theorem parseVerbatim_length (path : Text) : 0 < (parseVerbatim path).length := by
  unfold parseVerbatim
  split
  · exact Nat.add_pos_left (Nat.add_pos_left (by decide) _) _
  · split
    · exact Nat.succ_pos 5
    · exact Nat.add_pos_left (by decide) _

theorem not_isVerbatim_parseUnc (path : Text) : (parseUnc path).any Start.isVerbatim = false := by
  unfold parseUnc
  dsimp only
  split_ifs <;> rfl

theorem backslash_of_isVerbatim (h : isVerbatim rules path = true) :
    ∃ rest start, path = '\\' :: rest ∧ parseStart rules path = some start ∧ 0 < start.length := by
  cases rules with
  | unix => cases h
  | windows =>
    rw [isVerbatim, parseStart] at h
    rw [parseStart]
    split at h
    · cases hdrive : parseDrive path with
      | none =>
        rw [hdrive] at h
        cases h
      | some letter =>
        rw [hdrive] at h
        cases h
    · split_ifs at h with hstart
      · obtain ⟨rest, rfl⟩ := hstart
        exact ⟨_, _, rfl, if_pos (prefix_append _ _), parseVerbatim_length _⟩
      · split at h
        · cases h
        · rw [not_isVerbatim_parseUnc] at h
          cases h

theorem extend_of_unseparated (h : Unseparated rules (extend rules base name)) :
    (base = [] ∨ isBareDrive rules base = true) ∧ extend rules base name = base ++ name := by
  have hmain : isSeparator rules (mainSeparator rules) = true := by cases rules <;> rfl
  by_cases hverbatim : isVerbatim rules base = true
  · obtain ⟨rest, start, rfl, hstart, hpos⟩ := backslash_of_isVerbatim hverbatim
    have hmem : '\\' ∈ extend rules ('\\' :: rest) name := by
      obtain ⟨n, hn⟩ := Nat.exists_eq_succ_of_ne_zero hpos.ne'
      rw [extend, if_pos hverbatim, components, hstart, map_some, toList_some, hn]
      exact mem_cons_self
    have hbackslash := h _ hmem
    cases rules with
    | unix => cases hverbatim
    | windows => cases hbackslash
  · rw [extend, if_neg hverbatim] at h ⊢
    have hno : needSeparator rules base = false := by
      by_contra hneed
      rw [Bool.not_eq_false] at hneed
      have hc := h (mainSeparator rules) (by simp [hneed])
      rw [hmain] at hc
      cases hc
    rw [hno, if_neg Bool.false_ne_true, nil_append] at h ⊢
    refine ⟨?_, rfl⟩
    rw [needSeparator, Bool.and_eq_false_iff, Bool.not_eq_false'] at hno
    cases hno with
    | inr hdrive => exact .inr hdrive
    | inl hlast =>
      cases hbase : base.getLast? with
      | none => exact .inl (getLast?_eq_none_iff.mp hbase)
      | some c =>
        rw [hbase] at hlast
        have hc := h c (mem_append_left _ (mem_of_getLast? hbase))
        simp [hc] at hlast

theorem isBareDrive_length (h : isBareDrive rules path = true) :
    path.length = 2 ∧ (parseStart rules path).isSome = true := by
  rw [isBareDrive] at h
  cases hstart : parseStart rules path with
  | none =>
    rw [hstart] at h
    cases h
  | some start =>
    rw [hstart] at h
    cases start with
    | disk letter =>
      have hlength : 2 = path.length := by simpa [Start.isDrive, Start.length] using h
      exact ⟨hlength.symm, rfl⟩
    | _ => cases h

theorem eq_of_inside_of_start (h : Unseparated rules name) (hstart : (parseStart rules name).isSome = true)
    (hinside : Inside rules base name) : name = base ∨
      isBareDrive rules base = true ∧ ∃ last, Ordinary rules last ∧ name = base ++ last := by
  obtain ⟨names, hnames, hname⟩ := hinside
  induction names using reverseRecOn generalizing name with
  | nil => exact .inl hname
  | append_singleton names last ih =>
    right
    have hlast := hnames last (by simp)
    rw [foldl_append, foldl_cons, foldl_nil] at hname
    rw [hname] at h
    obtain ⟨hbefore, happend⟩ := extend_of_unseparated h
    rw [happend] at h hname
    cases hbefore with
    | inl hnil =>
      rw [hnil, nil_append] at hname
      rw [hname, hlast.parseStart] at hstart
      cases hstart
    | inr hdrive =>
      obtain ⟨hlength, hdriveStart⟩ := isBareDrive_length hdrive
      have hsub : Unseparated rules (names.foldl (extend rules) base) :=
        fun c hc => h c (mem_append_left _ hc)
      have hrec := ih hsub hdriveStart (fun n hn => hnames n (mem_append_left _ hn)) rfl
      cases hrec with
      | inl heq =>
        rw [heq] at hdrive hname
        exact ⟨hdrive, last, hlast, hname⟩
      | inr hmore =>
        obtain ⟨hbase, more, hmore, heq⟩ := hmore
        have hpos := length_pos_of_ne_nil hmore.ne_nil
        rw [heq, length_append, (isBareDrive_length hbase).1] at hlength
        omega

/-- Where a path that starts anew, such as `C:x`, is still inside: it is the base itself, or the
base is a drive and no more. -/
def Restarts (base name : Text) : Prop :=
  name = base ∨ isBareDrive .windows base = true ∧ base <+: name ∧ Ordinary .windows (name.drop 2)

instance (base name : Text) : Decidable (Restarts base name) := inferInstanceAs (Decidable (_ ∨ _))

theorem extend_bareDrive (h : isBareDrive rules base = true) : extend rules base name = base ++ name := by
  have hverbatim : isVerbatim rules base = false := by
    rw [isBareDrive] at h
    rw [isVerbatim]
    cases hstart : parseStart rules base with
    | none => rfl
    | some start =>
      rw [hstart] at h
      cases start with
      | disk letter => rfl
      | _ => cases h
  rw [extend, hverbatim, needSeparator, h]
  simp

theorem inside_iff_restarts (h : Unseparated .windows name)
    (hstart : (parseStart .windows name).isSome = true) :
    Inside .windows base name ↔ Restarts base name := by
  constructor
  · intro hinside
    cases eq_of_inside_of_start h hstart hinside with
    | inl heq => exact .inl heq
    | inr hmore =>
      obtain ⟨hdrive, last, hlast, rfl⟩ := hmore
      refine .inr ⟨hdrive, prefix_append _ _, ?_⟩
      rw [← (isBareDrive_length hdrive).1, drop_left]
      exact hlast
  · intro hrestarts
    cases hrestarts with
    | inl heq => exact heq ▸ .refl
    | inr hmore =>
      obtain ⟨hdrive, ⟨last, rfl⟩, hlast⟩ := hmore
      rw [← (isBareDrive_length hdrive).1, drop_left] at hlast
      rw [← extend_bareDrive hdrive]
      exact Inside.refl.extend hlast

section
variable {p : Char → Bool} {m : Char}

theorem splitOnP_extend (hm : p m = true) (hname : ∀ c ∈ name, p c = false) (text : Text) :
    ∃ parts, (text.splitOnP p = parts ∨ text.splitOnP p = parts ++ [[]]) ∧
      (text ++ ((if text.getLast?.any fun c => !p c then [m] else []) ++ name)).splitOnP p =
        parts ++ [name] := by
  have hsingle := splitOnP_eq_singleton hname
  cases text using reverseRecOn with
  | nil => exact ⟨[], .inr rfl, hsingle⟩
  | append_singleton text c =>
    by_cases hc : p c = true
    · refine ⟨text.splitOnP p, .inr (splitOnP_append_cons _ _ hc), ?_⟩
      have hlast : ((text ++ [c]).getLast?.any fun c => !p c) = false := by simp [hc]
      rw [hlast, if_neg Bool.false_ne_true, nil_append, append_assoc,
        singleton_append, splitOnP_append_cons _ _ hc, hsingle]
    · refine ⟨(text ++ [c]).splitOnP p, .inl rfl, ?_⟩
      have hlast : ((text ++ [c]).getLast?.any fun c => !p c) = true := by simp [hc]
      rw [hlast, if_pos rfl, singleton_append, splitOnP_append_cons _ _ hm, hsingle]

end

/-- A base that starts with no more than a drive, whatever follows it. -/
structure PlainStart (rules : Rules) (base : Text) : Prop where
  drive : (parseStart rules base).all Start.isDrive = true
  within : startLength rules base ≤ base.length
  kept : ∀ rest, parseStart rules (base ++ rest) = parseStart rules base

theorem plainStart_unix (base : Text) : PlainStart .unix base :=
  ⟨rfl, Nat.zero_le _, fun _ => rfl⟩

theorem plainStart_drive {letter : Char} (h : letter.isAlpha = true) (rest : Text) :
    PlainStart .windows (letter :: ':' :: rest) := by
  have hstart : ∀ rest, parseStart .windows (letter :: ':' :: rest) = some (.disk letter.toUpper) := by
    intro rest
    have hstrip : stripStart "\\\\" (letter :: ':' :: rest) = none := by
      rw [stripStart, if_neg]
      intro heq
      cases (cons.inj (cons.inj heq).2).1
    rw [parseStart, hstrip, parseDrive, if_pos h]
    rfl
  refine ⟨by rw [hstart]; rfl, by rw [startLength, hstart]; exact Nat.le_add_left 2 _, ?_⟩
  intro more
  rw [hstart, cons_append, cons_append, hstart]

section
variable (h : PlainStart rules base)
include h

theorem PlainStart.not_isVerbatim : isVerbatim rules base = false := by
  have hdrive := h.drive
  rw [isVerbatim]
  cases hstart : parseStart rules base with
  | none => rfl
  | some start =>
    rw [hstart] at hdrive
    cases start with
    | disk letter => rfl
    | _ => cases hdrive

theorem PlainStart.extend_eq (name : Text) : extend rules base name =
    base ++ ((if needSeparator rules base then [mainSeparator rules] else []) ++ name) := by
  rw [extend, h.not_isVerbatim, if_neg Bool.false_ne_true]

theorem PlainStart.parseStart_extend (name : Text) :
    parseStart rules (extend rules base name) = parseStart rules base := by
  rw [h.extend_eq, h.kept]

theorem PlainStart.needSeparator_eq_false
    (hdrop : base.drop (startLength rules base) = []) : needSeparator rules base = false := by
  have hlength := drop_eq_nil_iff.mp hdrop
  have hdrive := h.drive
  have hwithin := h.within
  rw [startLength] at hlength hwithin
  rw [needSeparator, isBareDrive]
  cases hstart : parseStart rules base with
  | none =>
    rw [hstart] at hlength
    rw [length_eq_zero_iff.mp (Nat.le_zero.mp hlength)]
    rfl
  | some start =>
    rw [hstart] at hlength hdrive hwithin
    have heq : start.length = base.length := le_antisymm hwithin hlength
    have hall : start.isDrive = true := hdrive
    simp [hall, heq]

theorem PlainStart.bodyText_extend (hname : Ordinary rules name) (hsep : Unseparated rules name) :
    hasPhysicalRoot rules (extend rules base name) = hasPhysicalRoot rules base ∧
      bodyText rules (extend rules base name) = bodyText rules base ++
        ((if (bodyText rules base).getLast?.any fun c => !isSeparator rules c then
          [mainSeparator rules] else []) ++ name) := by
  have hlength : startLength rules (extend rules base name) = startLength rules base := by
    rw [startLength, startLength, h.parseStart_extend name]
  have hdrop : (extend rules base name).drop (startLength rules base) =
      base.drop (startLength rules base) ++
        ((if needSeparator rules base then [mainSeparator rules] else []) ++ name) := by
    rw [h.extend_eq, drop_append_of_le_length h.within]
  rw [bodyText, bodyText, hasPhysicalRoot, hasPhysicalRoot, hlength, hdrop]
  cases hbase : base.drop (startLength rules base) with
  | nil =>
    rw [h.needSeparator_eq_false hbase]
    cases name with
    | nil => exact absurd rfl hname.ne_nil
    | cons c name =>
      have hc := hsep c mem_cons_self
      simp [hc]
  | cons c rest =>
    -- the last character of the body, where there is one, is that of the base
    have hlast : base.getLast? = (c :: rest).getLast? := by
      rw [← hbase, getLast?_drop, if_neg]
      intro hle
      rw [drop_eq_nil_of_le hle] at hbase
      cases hbase
    have hbare : isBareDrive rules base = false := by
      rw [isBareDrive]
      cases hstart : parseStart rules base with
      | none => rfl
      | some start =>
        rw [startLength, hstart] at hbase
        have hne : start.length ≠ base.length := by
          intro heq
          rw [map_some, getD_some, heq, drop_length] at hbase
          cases hbase
        simp [hne]
    rw [needSeparator, hbare, hlast]
    refine ⟨rfl, ?_⟩
    by_cases hc : isSeparator rules c = true
    · cases rest with
      | nil => simp [hc]
      | cons d rest => simp [hc, getLast?_cons_cons]
    · simp [hc]

end

theorem head?_parts {parts : List Text} {body : List Text} (hbody : body ≠ [])
    (h : body = parts ∨ body = parts ++ [[]]) (hdot : name ≠ ['.']) :
    (parts ++ [name]).head? = some ['.'] ↔ body.head? = some ['.'] := by
  cases parts with
  | nil =>
    cases h with
    | inl h => exact absurd h hbody
    | inr h => simp [h, hdot]
  | cons part parts =>
    cases h with
    | inl h => simp [h]
    | inr h => simp [h]

theorem PlainStart.components_extend (h : PlainStart rules base) (hname : Ordinary rules name) :
    components rules (extend rules base name) = components rules base ++ [.normal name] := by
  obtain ⟨hsep, hsingle⟩ := hname.single
  have hmain : isSeparator rules (mainSeparator rules) = true := by cases rules <;> rfl
  have hdot : name ≠ ['.'] := by
    intro heq
    rw [heq] at hsingle
    cases hsingle
  have hstart := h.parseStart_extend name
  have hverbatim : isVerbatim rules (extend rules base name) = false := by
    rw [isVerbatim, hstart, ← isVerbatim, h.not_isVerbatim]
  have hseparator : ∀ path, isVerbatim rules path = false →
      bodySeparator rules path = isSeparator rules := by
    intro path hpath
    funext c
    rw [bodySeparator, hpath, if_neg Bool.false_ne_true]
  obtain ⟨hroot, hbody⟩ := h.bodyText_extend hname hsep
  obtain ⟨parts, hparts, hsplit⟩ := splitOnP_extend hmain hsep (bodyText rules base)
  rw [← hbody, ← hseparator _ hverbatim, ← body] at hsplit
  rw [← hseparator _ h.not_isVerbatim, ← body] at hparts
  have hfilter : (body rules base).filterMap (parseSingleComponent false) =
      parts.filterMap (parseSingleComponent false) := by
    cases hparts with
    | inl hparts => rw [hparts]
    | inr hparts =>
      rw [hparts, filterMap_append]
      exact append_nil _
  have hroots : rootComponents rules (extend rules base name) = rootComponents rules base := by
    have hne : body rules base ≠ [] := splitOnP_ne_nil _ _
    rw [rootComponents, rootComponents, hroot, hstart, hsplit]
    simp only [head?_parts hne hparts hdot]
  have htake : ∀ start ∈ parseStart rules base,
      (extend rules base name).take start.length = base.take start.length := by
    intro start hmem
    have hwithin : start.length ≤ base.length := by
      have hstart := h.within
      rwa [startLength, hmem] at hstart
    rw [h.extend_eq, take_append_of_le_length hwithin]
  rw [components, components, hstart, hroots, hverbatim, h.not_isVerbatim, hsplit, hfilter,
    filterMap_append, filterMap_cons_some hsingle, filterMap_nil]
  cases hbase : parseStart rules base with
  | none => simp
  | some start => simp [htake start hbase]

theorem PlainStart.extend (h : PlainStart rules base) (name : Text) :
    PlainStart rules (extend rules base name) := by
  have hstart := h.parseStart_extend name
  refine ⟨hstart ▸ h.drive, ?_, ?_⟩
  · rw [startLength, hstart, ← startLength, h.extend_eq, length_append]
    exact Nat.le_add_right_of_le h.within
  · intro rest
    rw [h.extend_eq, append_assoc, h.kept, h.kept]

theorem PlainStart.components_inside (h : PlainStart rules base) {names : List Text}
    (hnames : ∀ name ∈ names, Ordinary rules name) :
    components rules (names.foldl (OsPath.extend rules) base) =
      components rules base ++ names.map .normal := by
  induction names generalizing base with
  | nil => rw [foldl_nil, map_nil, append_nil]
  | cons name names ih =>
    rw [foldl_cons, ih (h.extend name) fun n hn => hnames n (mem_cons_of_mem _ hn),
      h.components_extend (hnames name mem_cons_self), map_cons, append_assoc,
      singleton_append]

end

end OsPath
