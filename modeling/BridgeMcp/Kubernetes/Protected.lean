import BridgeMcp.Kubernetes.Delete
import BridgeMcp.Lib.Lines

/-!
Which namespaces a `kubectl delete` that passed both checks of the tool can reach.
-/
namespace BridgeMcp.Kubernetes
open CheckLib TextLib LineLib Shell List Option

theorem toLower_eq_dot {c : Char} : c.toLower = '.' ↔ c = '.' :=
  ascii_case (P := fun c => c.toLower = '.' ↔ c = '.') (by decide) (fun c h _ => by rw [h]) c

variable {kind name arg value : Text}

theorem isNamespaceKind_iff :
    isNamespaceKind kind = true ↔ DenotesNamespaces kind := by
  have hbase : (lower kind).takeWhile (· ≠ '.') = lower (kind.takeWhile (· ≠ '.')) := by
    rw [lower, takeWhile_map]
    congr 2
    funext c
    simp [toLower_eq_dot]
  rw [isNamespaceKind, head?_splitOn, hbase, DenotesNamespaces]
  simp

theorem comma_notMem_base (h : DenotesNamespaces kind) :
    ',' ∉ kind.takeWhile (· ≠ '.') := by
  intro hcomma
  have hlower : ',' ∈ lower (kind.takeWhile (· ≠ '.')) := mem_map.mpr ⟨',', hcomma, rfl⟩
  have hnone : ∀ base ∈ ["namespace".toList, "namespaces".toList, "ns".toList],
      ',' ∉ base := by decide
  exact hnone _ h hlower

theorem kind_cases (h : DenotesNamespaces kind) :
    ',' ∉ kind ∨ ∃ group, kind = kind.takeWhile (· ≠ '.') ++ '.' :: group := by
  have hbase := comma_notMem_base h
  have hsplit := takeWhile_append_dropWhile (p := (· ≠ '.')) (l := kind)
  cases hrest : kind.dropWhile (· ≠ '.') with
  | nil =>
    rw [hrest, append_nil] at hsplit
    exact Or.inl (hsplit ▸ hbase)
  | cons c group =>
    have hdot : c = '.' := by
      have hhead := head?_dropWhile_not (fun d : Char => decide (d ≠ '.')) kind
      rw [hrest] at hhead
      simpa using hhead
    rw [hrest, hdot] at hsplit
    exact Or.inr ⟨group, hsplit.symm⟩

theorem any_isNamespaceKind (h : DenotesNamespaces kind) (hcomma : ',' ∈ kind) (rest : Text) :
    ((kind ++ rest).splitOn ',').any isNamespaceKind = true := by
  obtain hnone | ⟨group, hkind⟩ := kind_cases h
  · exact absurd hcomma hnone
  have hbase := comma_notMem_base h
  generalize hb : kind.takeWhile (· ≠ '.') = base at hkind hbase
  have hfirst : (base ++ '.' :: (group ++ rest)).takeWhile (· ≠ ',') =
      base ++ '.' :: (group ++ rest).takeWhile (· ≠ ',') := by
    rw [takeWhile_append_of_pos fun c hc => by
      simpa using fun heq : c = ',' => hbase (heq ▸ hc)]
    simp
  have hdot : '.' ∉ base := by
    intro hmem
    have := mem_takeWhile_imp (hb ▸ hmem)
    simp at this
  have hagain : (base ++ '.' :: (group ++ rest).takeWhile (· ≠ ',')).takeWhile (· ≠ '.') = base := by
    rw [takeWhile_append_of_pos fun c hc => by
      simpa using fun heq : c = '.' => hdot (heq ▸ hc)]
    simp
  have hitem : DenotesNamespaces (base ++ '.' :: (group ++ rest).takeWhile (· ≠ ',')) := by
    rw [DenotesNamespaces, hagain, ← hb]
    exact h
  have hhead : ((kind ++ rest).splitOn ',').head? =
      some (base ++ '.' :: (group ++ rest).takeWhile (· ≠ ',')) := by
    rw [head?_splitOn, hkind, append_assoc, cons_append, hfirst]
  exact any_eq_true.mpr ⟨_, mem_of_head? hhead, isNamespaceKind_iff.mpr hitem⟩

theorem protected_plain (h : name ∈ protectedNamespaces) :
    (∀ c ∈ name, c.toNat < 128) ∧ lower name = name ∧ ',' ∉ name := by
  have hall : (protectedNamespaces.all fun name =>
      name.all (fun c => decide (c.toNat < 128)) && lower name == name && !name.contains ',') =
        true := rfl
  have hname := all_eq_true.mp hall name h
  simp only [Bool.and_eq_true, List.all_eq_true, decide_eq_true_eq, beq_iff_eq,
    Bool.not_eq_true', contains_eq_mem, decide_eq_false_iff_not] at hname
  exact ⟨hname.1.1, hname.1.2, hname.2⟩

variable {lowercase : Lowercase}

theorem not_protected_of_validateDelete {resource : Text}
    (h : validateDelete lowercase resource name = .ok ()) {candidate : Text}
    (hmem : candidate ∈ namespaceCandidates resource name) : candidate ∉ protectedNamespaces := by
  intro hprotected
  obtain ⟨hascii, hlower, -⟩ := protected_plain hprotected
  unfold validateDelete at h
  split at h
  · cases h
  · next hnone =>
      have hfound := find?_eq_none.mp hnone candidate hmem
      rw [lowercase.ascii candidate hascii, hlower] at hfound
      exact hfound (contains_iff_mem.mpr hprotected)

structure TargetChecked (args : SshK8sDeleteArgs) : Prop where
  resource : args.resource.head? ≠ some '-'
  name : ∀ name, args.name = some name → name.head? ≠ some '-'
  given : args.name = none →
    (args.labelSelector.isSome || args.fieldSelector.isSome || args.isAll) = true
  selectors : (args.resource.splitOn ',').any isNamespaceKind = true →
    (args.labelSelector.isSome || args.fieldSelector.isSome || args.isAll) = false

theorem refuseOptionLike_ok (h : refuseOptionLike arg value = .ok ()) :
    value.head? ≠ some '-' := by
  unfold refuseOptionLike at h
  split_ifs at h with hdash
  exact hdash

theorem refuseOptionLikeAll_ok {values : List (Text × Option Text)}
    (h : refuseOptionLikeAll values = .ok ()) (hmem : (arg, some value) ∈ values) :
    value.head? ≠ some '-' := by
  induction values with
  | nil => cases hmem
  | cons first rest ih =>
    obtain ⟨hfirst, hrest⟩ := ok_of_bind h
    rcases mem_cons.mp hmem with rfl | hmem
    · exact refuseOptionLike_ok hfirst
    · exact ih hrest hmem

variable {args : SshK8sDeleteArgs}

theorem targetChecked_of_ok
    (h : validateDeleteTarget args.resource args.name args.labelSelector args.fieldSelector
      args.isAll = .ok ()) : TargetChecked args := by
  obtain ⟨hoptions, hrest⟩ := ok_of_bind h
  dsimp only at hrest
  have hname : ∀ name, args.name = some name → name.head? ≠ some '-' := by
    intro name hname
    have hmem : ("name".toList, some name) ∈ [("resource".toList, some args.resource),
        ("name".toList, args.name), ("label_selector".toList, args.labelSelector),
        ("field_selector".toList, args.fieldSelector)] :=
      mem_cons_of_mem _ (hname ▸ mem_cons_self)
    exact refuseOptionLikeAll_ok hoptions hmem
  refine ⟨refuseOptionLikeAll_ok hoptions mem_cons_self, hname, ?_, ?_⟩
  · intro hnone
    rw [hnone] at hrest
    have hgiven : ¬ (!(args.labelSelector.isSome || args.fieldSelector.isSome) &&
        !args.isAll) = true := by
      intro hmissing
      rw [if_neg (by simp), if_pos (by simpa using hmissing)] at hrest
      cases hrest
    rwa [← Bool.not_or, Bool.not_eq_true', Bool.not_eq_false] at hgiven
  · intro hkind
    rw [if_pos hkind] at hrest
    split_ifs at hrest with hboth hmissing hall hselector
    simpa [hall] using hselector

theorem buildCommand_ok {cmd : Text} (h : args.buildCommand = .ok cmd) :
    TargetChecked args ∧ cmd = args.buildDeleteCommand := by
  unfold SshK8sDeleteArgs.buildCommand at h
  cases htarget : validateDeleteTarget args.resource args.name args.labelSelector
      args.fieldSelector args.isAll with
  | error e =>
    rw [htarget] at h
    cases h
  | ok _ =>
    cases hns : ifGiven args.ns validateNamespace with
    | error e =>
      rw [htarget, hns] at h
      cases h
    | ok _ =>
      rw [htarget, hns] at h
      exact ⟨targetChecked_of_ok htarget, (Except.ok.inj h).symm⟩

namespace SshK8sDeleteArgs

variable (args : SshK8sDeleteArgs)

def valued (option : Text) (value : Option Text) : List (Text × Text) :=
  value.elim [] fun v => [(option, option), (escape v .posix, v)]

def optionPieces : List (Text × Text) :=
  valued "-l".toList args.labelSelector ++
    valued "--field-selector".toList args.fieldSelector ++
    (if args.isAll then [("--all".toList, "--all".toList)] else []) ++
    valued "-n".toList args.ns ++
    (args.gracePeriod.elim [] fun period =>
      [("--grace-period=".toList ++ Nat.toDigits 10 period,
        "--grace-period=".toList ++ Nat.toDigits 10 period)]) ++
    (if args.force.getD false then [("--force".toList, "--force".toList)] else []) ++
    (args.dryRun.elim [] fun v =>
      [("--dry-run=".toList ++ escape v .posix, "--dry-run=".toList ++ v)])

def pieces : List (Text × Text) :=
  (escape args.resource .posix, args.resource) ::
    (args.name.toList.map fun n => (escape n .posix, n)) ++ args.optionPieces

theorem given_valued (option : Text) (value : Option Text) :
    given (' ' :: option ++ [' ']) value = spacedTexts (valued option value) := by
  cases value <;> simp [given, valued, spacedTexts]

theorem buildDeleteCommand_eq : args.buildDeleteCommand =
    kubectlDetectPrefix args.kubectlBin ++ ("delete".toList ++ spacedTexts args.pieces) := by
  have hresource : "delete ".toList ++ escape args.resource .posix = "delete".toList ++
      spacedTexts [(escape args.resource .posix, args.resource)] := by
    simp [spacedTexts]
  have hname : given " ".toList args.name =
      spacedTexts (args.name.toList.map fun n => (escape n .posix, n)) := by
    cases args.name <;> simp [given, spacedTexts]
  have hflag : ∀ (b : Bool) (flag : Text), (if b then ' ' :: flag else []) =
      spacedTexts (if b then [(flag, flag)] else []) := by
    intro b flag
    cases b <;> simp [spacedTexts]
  have hperiod : (args.gracePeriod.elim [] fun period =>
      " --grace-period=".toList ++ Nat.toDigits 10 period) =
      spacedTexts (args.gracePeriod.elim [] fun period =>
        [("--grace-period=".toList ++ Nat.toDigits 10 period,
          "--grace-period=".toList ++ Nat.toDigits 10 period)]) := by
    cases args.gracePeriod <;> simp [spacedTexts]
  have hdry : given " --dry-run=".toList args.dryRun =
      spacedTexts (args.dryRun.elim [] fun v =>
        [("--dry-run=".toList ++ escape v .posix, "--dry-run=".toList ++ v)]) := by
    cases args.dryRun <;> simp [given, spacedTexts]
  have hpieces : args.pieces = [(escape args.resource .posix, args.resource)] ++
      (args.name.toList.map fun n => (escape n .posix, n)) ++ args.optionPieces := rfl
  rw [hpieces, optionPieces]
  simp only [spacedTexts_append, ← hname, ← hdry, ← hperiod, ← hflag, ← given_valued]
  rw [← append_assoc "delete".toList, ← append_assoc "delete".toList, ← hresource]
  simp only [buildDeleteCommand, append_assoc]
  rfl

theorem literal_reads {w : Text} (hne : w.isEmpty = false) (hw : w.all isPlain = true) :
    ReadsAs w w :=
  plain_reads w (isEmpty_eq_false_iff.mp hne) (all_eq_true.mp hw)

variable {option word : Text}

theorem valued_reads (hne : option.isEmpty = false) (hw : option.all isPlain = true)
    (value : Option Text) :
    ∀ x ∈ valued option value, ReadsAs x.1 x.2 := by
  cases value with
  | none => nofun
  | some v =>
    intro x hx
    rcases mem_pair.mp hx with rfl | rfl
    · exact literal_reads hne hw
    · exact escape_reads v

theorem isPlain_of_isDigit {c : Char} (h : c.isDigit = true) : isPlain c = true := by
  simp [isPlain, Char.isAlphanum, h]

theorem optionPieces_read : ∀ x ∈ args.optionPieces, ReadsAs x.1 x.2 := by
  simp only [optionPieces, forall_mem_append]
  refine ⟨⟨⟨⟨⟨⟨?_, ?_⟩, ?_⟩, ?_⟩, ?_⟩, ?_⟩, ?_⟩
  · exact valued_reads rfl rfl _
  · exact valued_reads rfl rfl _
  · split_ifs
    · exact forall_mem_singleton.mpr (literal_reads rfl rfl)
    · nofun
  · exact valued_reads rfl rfl _
  · cases args.gracePeriod with
    | none => nofun
    | some period =>
      refine forall_mem_singleton.mpr ((literal_reads rfl rfl).append ?_)
      refine plain_reads _ (Nat.toDigits_ne_nil) fun c hc => ?_
      exact isPlain_of_isDigit (isDigit_toDigits period c hc)
  · split_ifs
    · exact forall_mem_singleton.mpr (literal_reads rfl rfl)
    · nofun
  · cases args.dryRun with
    | none => nofun
    | some v =>
      exact forall_mem_singleton.mpr ((literal_reads rfl rfl).append (escape_reads v))

theorem pieces_read : ∀ x ∈ args.pieces, ReadsAs x.1 x.2 := by
  rw [pieces, cons_append, forall_mem_cons, forall_mem_append]
  refine ⟨escape_reads _, fun x hx => ?_, args.optionPieces_read⟩
  obtain ⟨n, -, rfl⟩ := mem_map.mp hx
  exact escape_reads n

theorem isPlain_of_isBinaryChar {c : Char} (h : isBinaryChar c = true) : isPlain c = true := by
  simp only [isBinaryChar, Bool.or_eq_true, contains_iff_mem] at h
  rcases h with h | h
  · simp [isPlain, h]
  · exact all_eq_true.mp (show ['/', '-', '_', '.'].all isPlain = true from rfl) c h

theorem kubectlWords_named {bin : Text} (h : isNamedBinary bin kubectlNames = true)
    {ws : List (Text × Text)} (hws : ∀ x ∈ ws, ReadsAs x.1 x.2) :
    kubectlWords (bin ++ spacedTexts ws) = some (ws.map Prod.snd) := by
  obtain ⟨hne, hchars⟩ := isNamedBinary_chars h
  have hdetect : stripPrefix kubectlDetect (bin ++ spacedTexts ws) = none := by
    obtain ⟨c, bin, rfl⟩ := exists_cons_of_ne_nil hne
    refine if_neg fun hstart => ?_
    have hdollar : '$' = c := (cons_prefix_cons.mp hstart).1
    have hbinary := hchars c mem_cons_self
    rw [← hdollar] at hbinary
    cases hbinary
  have hbin : ReadsAs bin bin := plain_reads bin hne fun c hc =>
    isPlain_of_isBinaryChar (hchars c hc)
  rw [kubectlWords, hdetect]
  dsimp only
  rw [shellWords_texts (bin, bin) ws (forall_mem_cons.mpr ⟨hbin, hws⟩), map_some,
    tail_cons]

theorem kubectlWords_buildDeleteCommand :
    kubectlWords args.buildDeleteCommand =
      some ("delete".toList :: args.pieces.map Prod.snd) := by
  have hreads : ∀ x ∈ ("delete".toList, "delete".toList) :: args.pieces, ReadsAs x.1 x.2 :=
    forall_mem_cons.mpr ⟨literal_reads rfl rfl, args.pieces_read⟩
  have hdetected : kubectlWords (kubectlDetect ++ ("delete" ++ spacedTexts args.pieces)) =
      some ("delete".toList :: args.pieces.map Prod.snd) := by
    rw [kubectlWords, stripPrefix_append]
    exact shellWords_texts ("delete", "delete") args.pieces hreads
  rw [buildDeleteCommand_eq]
  unfold kubectlDetectPrefix
  split
  · next bin _ =>
      split_ifs with hnamed
      · rw [append_assoc]
        exact kubectlWords_named hnamed hreads
      · exact hdetected
  · exact hdetected

/-- Words that add options and no positional word; `selects` says whether an option is among them
that selects many objects. -/
def AddsOptions (words : List Text) (selects : Bool) : Prop :=
  ∃ options, options.any selectsMany = selects ∧ ∀ rest,
    readWords false (words ++ rest) =
      ((readWords false rest).1, options ++ (readWords false rest).2)

theorem addsOptions_nil : AddsOptions [] false := ⟨[], rfl, fun _ => rfl⟩

theorem AddsOptions.append {words words' : List Text} {selects selects' : Bool}
    (h : AddsOptions words selects) (h' : AddsOptions words' selects') :
    AddsOptions (words ++ words') (selects || selects') := by
  obtain ⟨options, hselects, hreads⟩ := h
  obtain ⟨options', hselects', hreads'⟩ := h'
  refine ⟨options ++ options', by rw [any_append, hselects, hselects'], fun rest => ?_⟩
  rw [append_assoc, hreads, hreads', append_assoc]

theorem addsOptions_word (hoption : isOption word = true) (hend : word ≠ "--")
    (hvalue : takesValue word = false) : AddsOptions [word] (selectsMany word) := by
  refine ⟨[word], by rw [any_cons, any_nil, Bool.or_false], fun rest => ?_⟩
  rw [singleton_append, readWords, if_neg Bool.false_ne_true, if_neg hend, if_pos hoption,
    hvalue]
  rfl

theorem addsOptions_flag (flag : Text) (hoption : isOption flag = true) (hend : flag ≠ "--")
    (hvalue : takesValue flag = false) (b : Bool) :
    AddsOptions ((if b then [(flag, flag)] else []).map Prod.snd) (b && selectsMany flag) := by
  cases b
  · exact addsOptions_nil
  · exact addsOptions_word hoption hend hvalue

theorem addsOptions_valued (option : Text) (hoption : isOption option = true)
    (hend : option ≠ "--") (hvalue : takesValue option = true) (value : Option Text) :
    AddsOptions ((valued option value).map Prod.snd) (value.isSome && selectsMany option) := by
  cases value with
  | none => exact addsOptions_nil
  | some v =>
    refine ⟨[option], by rw [any_cons, any_nil, Bool.or_false]; rfl, fun rest => ?_⟩
    have hwords : (valued option (some v)).map Prod.snd ++ rest = option :: v :: rest := rfl
    rw [hwords, readWords, if_neg Bool.false_ne_true, if_neg hend, if_pos hoption, hvalue,
      readWords, if_pos rfl]
    rfl

theorem addsOptions_assigned (hdash : option.head? = some '-') (hequals : '=' ∈ option)
    (value : Text) : AddsOptions [option ++ value] false := by
  have hnone : ∀ other ∈ [['-'], "--", "-l", "-n", "--field-selector",
      "--all"], option ++ value ≠ other := by
    rintro other hother rfl
    have hplain : ([['-'], "--", "-l", "-n", "--field-selector",
      "--all"].all fun other => !other.contains '=') = true := rfl
    simpa [hequals] using all_eq_true.mp hplain _ hother
  simp only [forall_mem_cons] at hnone
  obtain ⟨hsingle, hend, hl, hn, hfield, hall, -⟩ := hnone
  have hselects : selectsMany (option ++ value) = false := by
    simpa [selectsMany] using ⟨hl, hfield, hall⟩
  rw [← hselects]
  refine addsOptions_word ?_ hend (by simpa [takesValue] using ⟨hl, hn, hfield⟩)
  simp [isOption, head?_append, hdash, hsingle]

theorem optionPieces_addsOptions : AddsOptions (args.optionPieces.map Prod.snd)
    (args.labelSelector.isSome || args.fieldSelector.isSome || args.isAll) := by
  have hlabel := addsOptions_valued "-l".toList rfl (by decide) rfl args.labelSelector
  have hfield := addsOptions_valued "--field-selector".toList rfl (by decide) rfl
    args.fieldSelector
  have hall := addsOptions_flag "--all".toList rfl (by decide) rfl args.isAll
  have hns := addsOptions_valued "-n".toList rfl (by decide) rfl args.ns
  have hforce := addsOptions_flag "--force".toList rfl (by decide) rfl
    (args.force.getD false)
  have hperiod : AddsOptions ((args.gracePeriod.elim [] fun period =>
      [("--grace-period=".toList ++ Nat.toDigits 10 period,
        "--grace-period=".toList ++ Nat.toDigits 10 period)]).map Prod.snd) false := by
    cases args.gracePeriod with
    | none => exact addsOptions_nil
    | some period => exact addsOptions_assigned rfl (by decide) _
  have hdry : AddsOptions ((args.dryRun.elim [] fun v =>
      [("--dry-run=".toList ++ escape v .posix, "--dry-run=".toList ++ v)]).map Prod.snd)
      false := by
    cases args.dryRun with
    | none => exact addsOptions_nil
    | some v => exact addsOptions_assigned rfl (by decide) _
  have hwords := (((((hlabel.append hfield).append hall).append hns).append hperiod).append
    hforce).append hdry
  have hselects : (selectsMany "-l".toList, selectsMany "--field-selector".toList,
      selectsMany "--all".toList, selectsMany "-n".toList, selectsMany "--force".toList) =
      (true, true, true, false, false) := rfl
  simp only [Prod.mk.injEq] at hselects
  obtain ⟨hl, hf, ha, hn, hforces⟩ := hselects
  rw [hl, hf, ha, hn, hforces] at hwords
  simp only [Bool.and_true, Bool.and_false, Bool.or_false] at hwords
  simpa only [optionPieces, map_append] using hwords

theorem readWords_positional (h : word.head? ≠ some '-') (rest : List Text) :
    readWords false (word :: rest) =
      (word :: (readWords false rest).1, (readWords false rest).2) := by
  have hend : word ≠ "--" := by
    rintro rfl
    exact h rfl
  have hoption : ¬ isOption word = true := by simp [isOption, h]
  rw [readWords, if_neg Bool.false_ne_true, if_neg hend, if_neg hoption]

theorem readWords_pieces (h : TargetChecked args) :
    ∃ options, readWords false (args.pieces.map Prod.snd) =
        (args.resource :: args.name.toList, options) ∧
      options.any selectsMany =
        (args.labelSelector.isSome || args.fieldSelector.isSome || args.isAll) := by
  obtain ⟨options, hselects, hreads⟩ := args.optionPieces_addsOptions
  have hoptions : readWords false (args.optionPieces.map Prod.snd) = ([], options) := by
    simpa [readWords] using hreads []
  refine ⟨options, ?_, hselects⟩
  have hpieces : args.pieces.map Prod.snd =
      args.resource :: (args.name.toList ++ args.optionPieces.map Prod.snd) := by
    simp [pieces, Function.comp_def]
  rw [hpieces, readWords_positional h.resource]
  cases hname : args.name with
  | none => rw [toList_none, nil_append, hoptions]
  | some name =>
    rw [toList_some, singleton_append, readWords_positional (h.name name hname),
      hoptions]

end SshK8sDeleteArgs

/-- A word `kind/name` for a protected namespace. -/
def NamesProtected (word : Text) : Prop :=
  ∃ kind name, splitFirst ['/'] word = some (kind, name) ∧ DenotesNamespaces kind ∧
    name ∈ protectedNamespaces

/-- Two words `kind/name`, one of them for a protected namespace, in the places of the resource and
the name. -/
def SmugglesProtected (args : SshK8sDeleteArgs) : Prop :=
  ∃ name, args.name = some name ∧ '/' ∈ args.resource ∧ '/' ∈ name ∧
    (NamesProtected args.resource ∨ NamesProtected name)

theorem spares_named_iff {words : List Text} :
    (∀ d ∈ ((words.filterMap (splitFirst ['/'])).map fun object : Text × Text =>
      Deletion.named object.1 object.2), d.Spares) ↔ ∀ word ∈ words, ¬ NamesProtected word := by
  constructor
  · rintro h word hword ⟨kind, name, hsplit, hkind, hname⟩
    have hmem : (kind, name) ∈ words.filterMap (splitFirst ['/']) :=
      mem_filterMap.mpr ⟨word, hword, hsplit⟩
    exact h (.named kind name) (mem_map.mpr ⟨_, hmem, rfl⟩) hkind hname
  · rintro h d hd
    obtain ⟨⟨kind, name⟩, hmem, rfl⟩ := mem_map.mp hd
    obtain ⟨word, hword, hsplit⟩ := mem_filterMap.mp hmem
    exact fun hkind hname => h word hword ⟨kind, name, hsplit, hkind, hname⟩

theorem not_namesProtected_resource
    (hvalidate : args.validate lowercase = .ok ()) (htarget : TargetChecked args)
    (hname : args.name = none) : ¬ NamesProtected args.resource := by
  rintro ⟨kind, name, hsplit, hkind, hprotected⟩
  have hresource : args.resource = kind ++ '/' :: name := by
    simpa using splitFirst_spec hsplit
  by_cases hcomma : ',' ∈ kind
  · have hitem := any_isNamespaceKind hkind hcomma ('/' :: name)
    rw [← hresource] at hitem
    have hselectors := htarget.selectors hitem
    rw [htarget.given hname] at hselectors
    cases hselectors
  · have hsingle : args.resource.splitOn ',' = [args.resource] := by
      apply splitOn_eq_singleton
      rw [hresource]
      simpa [hcomma] using (protected_plain hprotected).2.2
    refine not_protected_of_validateDelete hvalidate ?_ hprotected
    apply mem_append_left
    rw [hsingle]
    simp [hsplit, isNamespaceKind_iff.mpr hkind]

theorem spares_kinds (hvalidate : args.validate lowercase = .ok ()) (htarget : TargetChecked args)
    {options : List Text} (hselects : options.any selectsMany =
      (args.labelSelector.isSome || args.fieldSelector.isSome || args.isAll)) :
    ∀ d ∈ ((args.resource.splitOn ',').flatMap fun kind => args.name.toList.map (Deletion.named kind) ++
      if options.any selectsMany then [.selected kind] else []), d.Spares := by
  intro d hd
  obtain ⟨kind, hkind, hd⟩ := mem_flatMap.mp hd
  have hany : DenotesNamespaces kind → (args.resource.splitOn ',').any isNamespaceKind = true :=
    fun h => any_eq_true.mpr ⟨kind, hkind, isNamespaceKind_iff.mpr h⟩
  rcases mem_append.mp hd with hd | hd
  · obtain ⟨name, hname, rfl⟩ := mem_map.mp hd
    intro hdenotes
    refine not_protected_of_validateDelete hvalidate ?_
    apply mem_append_right
    rw [if_pos (hany hdenotes), mem_toList.mp hname]
    exact mem_singleton_self name
  · split_ifs at hd with hmany
    · obtain rfl := mem_singleton.mp hd
      intro hdenotes
      rw [hselects, htarget.selectors (hany hdenotes)] at hmany
      cases hmany
    · cases hd

/-- A command of the tool deletes no protected namespace, and no namespace by selector, exactly if
it does not name a protected one in one of two `kind/name` words. -/
theorem protected_namespaces_kept (lowercase : Lowercase) (args : SshK8sDeleteArgs) (cmd : Text)
    (hvalidate : args.validate lowercase = .ok ()) (hbuild : args.buildCommand = .ok cmd) :
    ∃ words, kubectlWords cmd = some ("delete".toList :: words) ∧
      ((∀ d ∈ deletions words, d.Spares) ↔ ¬ SmugglesProtected args) := by
  obtain ⟨htarget, rfl⟩ := buildCommand_ok hbuild
  refine ⟨_, args.kubectlWords_buildDeleteCommand, ?_⟩
  obtain ⟨options, hreads, hselects⟩ := args.readWords_pieces htarget
  -- a smuggled name needs both words to be `kind/name`
  have hslashes : SmugglesProtected args →
      (args.resource :: args.name.toList).all (·.contains '/') = true := by
    rintro ⟨name, hname, hresource, hslash, -⟩
    simp [hname, hresource, hslash]
  rw [deletions, hreads]
  dsimp only
  by_cases hall : (args.resource :: args.name.toList).all (·.contains '/') = true
  · rw [if_pos hall, spares_named_iff]
    cases hname : args.name with
    | none =>
      refine iff_of_true (fun word hword => ?_) fun ⟨name, hsome, _⟩ => ?_
      · obtain rfl := mem_singleton.mp hword
        exact not_namesProtected_resource hvalidate htarget hname
      · rw [hname] at hsome
        cases hsome
    | some name =>
      simp only [hname, toList_some, all_cons, all_nil, Bool.and_true,
        Bool.and_eq_true, contains_iff_mem] at hall
      simp only [toList_some, forall_mem_cons, not_mem_nil, IsEmpty.forall_iff,
        implies_true, and_true, SmugglesProtected, hname, some.injEq, exists_eq_left',
        hall.1, hall.2, true_and, not_or]
  · refine iff_of_true ?_ fun hsmuggles => hall (hslashes hsmuggles)
    rw [if_neg hall]
    by_cases hmixed : (args.resource :: args.name.toList).any (·.contains '/') = true
    · rw [if_pos hmixed]
      nofun
    · rw [if_neg hmixed]
      exact spares_kinds hvalidate htarget hselects

def asciiLowercase : Lowercase := ⟨lower, fun _ _ => rfl⟩

def deleteArgs (resource name : Text) : SshK8sDeleteArgs :=
  ⟨resource, some name, none, none, none, none, none, none, none, none⟩

theorem protected_namespaces_kept_team :
    (deleteArgs "ns" "team-a").validate asciiLowercase = .ok () ∧
    ∃ cmd words, (deleteArgs "ns" "team-a").buildCommand = .ok cmd ∧
      kubectlWords cmd = some ("delete".toList :: words) ∧ ∀ d ∈ deletions words, d.Spares := by
  have hvalidate : (deleteArgs "ns" "team-a").validate asciiLowercase = .ok () := rfl
  obtain ⟨words, hwords, hiff⟩ := protected_namespaces_kept asciiLowercase
    (deleteArgs "ns" "team-a") _ hvalidate rfl
  refine ⟨hvalidate, _, words, rfl, hwords, hiff.mpr ?_⟩
  rintro ⟨name, -, hslash, -⟩
  revert hslash
  decide

/-- `kubectl delete pod/x ns/kube-system` passes both checks. -/
theorem kube_system_deleted :
    (deleteArgs "pod/x".toList "ns/kube-system".toList).validate asciiLowercase = .ok () ∧
    (∃ cmd, (deleteArgs "pod/x".toList "ns/kube-system".toList).buildCommand = .ok cmd ∧
      kubectlWords cmd = some ["delete".toList, "pod/x".toList, "ns/kube-system".toList]) ∧
    deletions ["pod/x".toList, "ns/kube-system".toList] =
      [.named "pod".toList "x".toList, .named "ns".toList "kube-system".toList] ∧
    DenotesNamespaces "ns".toList ∧ "kube-system".toList ∈ protectedNamespaces := by
  refine ⟨rfl, ⟨_, rfl, SshK8sDeleteArgs.kubectlWords_buildDeleteCommand _⟩, rfl, ?_, ?_⟩
  · exact mem_of_getElem? (i := 2) rfl
  · exact mem_of_getElem? (i := 0) rfl

end BridgeMcp.Kubernetes
