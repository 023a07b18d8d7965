import BridgeMcp.Cloud.AwsArgs

/-!
What an accepted `args` lets through: the words the shell passes to `aws`, read from left to
right without the automaton.
-/
namespace BridgeMcp.Cloud
open CheckLib TextLib BridgeMcp.Shell List Option

/-- A value that stands for itself, in any letter case. -/
structure Inert (value : Text) : Prop where
  file : ¬ "file://" <:+: lower value
  fileb : ¬ "fileb://" <:+: lower value
  http : ¬ "http://" <+: lower value
  https : ¬ "https://" <+: lower value

/-- After the words `before`, the next one is a value of `option` unless it is an option itself:
the last option is `option`, without `=` and not a flag, and it takes a list or has no value yet. -/
def Owed (before : List Text) (option : Text) : Prop :=
  ∃ earlier values, before = earlier ++ option :: values ∧ isOption option = true ∧
    (∀ value ∈ values, isOption value = false) ∧ '=' ∉ option ∧ option ∉ awsFlagOptions ∧
    (values = [] ∨ option ∈ awsListOptions)

def IsLocation (word : Text) : Prop :=
  ∃ path, word = "s3://" ++ path ∧
    ∀ segment ∈ path.splitOn '/', segment ≠ "." ∧ segment ≠ ".."

def isRegionChar (c : Char) : Bool := ('a' ≤ c && c ≤ 'z') || c.isDigit || c == '-'

def IsRegion (value : Text) : Prop :=
  2 ≤ value.length ∧ value.length ≤ 32 ∧ ∀ c ∈ value, isRegionChar c = true

structure Permitted (before : List Text) (word : Text) : Prop where
  option : isOption word = true → word.takeWhile (· != '=') ∈ awsAllowedOptions
  operand : isOption word = false → (∃ option, Owed before option) ∨ IsLocation word
  inert : Inert word
  inertValue : isOption word = true → ∀ name value, '=' ∉ name → word = name ++ '=' :: value →
    Inert value
  region : isOption word = false → Owed before "--region" → IsRegion word
  regionValue : ∀ value, word = "--region=" ++ value → IsRegion value

variable {value word name : Text}

theorem inert_of_loadsValue (h : loadsValue value = false) : Inert value := by
  simp only [loadsValue, Bool.or_eq_false_iff] at h
  obtain ⟨⟨⟨hfile, hfileb⟩, hhttp⟩, hhttps⟩ := h
  refine ⟨?_, ?_, ?_, ?_⟩
  · intro hfound
    rw [contains_iff.mpr hfound] at hfile
    cases hfile
  · intro hfound
    rw [contains_iff.mpr hfound] at hfileb
    cases hfileb
  · intro hfound
    rw [List.isPrefixOf_iff_prefix.mpr hfound] at hhttp
    cases hhttp
  · intro hfound
    rw [List.isPrefixOf_iff_prefix.mpr hfound] at hhttps
    cases hhttps

theorem isRegionByte_lt {b : UInt8} (h : isRegionByte b = true) : b.toNat < 128 := by
  simp only [isRegionByte, Bool.or_eq_true, Bool.and_eq_true, decide_eq_true_eq, beq_iff_eq,
    UInt8.le_iff_toNat_le] at h
  rcases h with (⟨-, h⟩ | ⟨-, h⟩) | rfl
  · exact h.trans_lt (by decide)
  · exact h.trans_lt (by decide)
  · decide

theorem isRegionChar_of_byte {c : Char} (hc : c.toNat < 128)
    (h : isRegionByte (UInt8.ofNat c.toNat) = true) : isRegionChar c = true := by
  have hbyte : (UInt8.ofNat c.toNat).toNat = c.toNat := toNat_ofNat_of_lt (by omega)
  simp only [isRegionByte, Bool.or_eq_true, Bool.and_eq_true, decide_eq_true_eq, beq_iff_eq,
    UInt8.le_iff_toNat_le, hbyte] at h
  simp only [isRegionChar, Bool.or_eq_true, Bool.and_eq_true, decide_eq_true_eq, beq_iff_eq]
  rcases h with (⟨hlow, hhigh⟩ | ⟨hlow, hhigh⟩) | hdash
  · exact .inl (.inl ⟨UInt32.le_iff_toNat_le.mpr hlow, UInt32.le_iff_toNat_le.mpr hhigh⟩)
  · exact .inl (.inr (isDigit_iff.mpr ⟨hlow, hhigh⟩))
  · have hcode : c.toNat = 45 := by
      rw [← hbyte, hdash]
      rfl
    exact .inr (ofNat_eq_of_toNat hcode.symm).symm

theorem isRegion_of_isRegionName (h : isRegionName value = true) :
    IsRegion value := by
  simp only [isRegionName, Bool.and_eq_true, decide_eq_true_eq, List.all_eq_true] at h
  obtain ⟨⟨hmin, hmax⟩, hbytes⟩ := h
  have hascii : IsAscii value :=
    (utf8Bytes_lt_iff value).mp fun b hb => isRegionByte_lt (hbytes b hb)
  have hencode := utf8Bytes_of_isAscii hascii
  have hlength : value.length = utf8Len value := by
    rw [← length_utf8Bytes, hencode, length_map]
  refine ⟨hlength ▸ hmin, hlength ▸ hmax, fun c hc => ?_⟩
  apply isRegionChar_of_byte (hascii c hc)
  exact hbytes _ (hencode ▸ mem_map_of_mem hc)

theorem checkValue_ok {option : Text} (h : checkValue option value = .ok ()) :
    Inert value ∧ (option = "--region" → IsRegion value) := by
  unfold checkValue at h
  split at h
  · cases h
  · next hload =>
      split at h
      · cases h
      · next hregion =>
          refine ⟨inert_of_loadsValue (Bool.not_eq_true _ ▸ hload), fun hoption => ?_⟩
          apply isRegion_of_isRegionName
          by_contra hname
          exact hregion ⟨hoption, Bool.not_eq_true _ ▸ hname⟩

theorem checkLocation_ok (h : checkLocation word = .ok ()) : IsLocation word := by
  unfold checkLocation at h
  split at h
  · next hpre =>
      obtain ⟨path, rfl⟩ := isPrefixOf_iff_prefix.mp hpre
      split at h
      · cases h
      · next hsegments =>
          have hdrop : ("s3://" ++ path).drop 5 = path := rfl
          rw [hdrop] at hsegments
          refine ⟨path, rfl, fun segment hsegment => ?_⟩
          simp only [List.any_eq_true, Bool.or_eq_true, beq_iff_eq, not_exists, not_and,
            not_or] at hsegments
          exact hsegments segment hsegment
  · cases h

theorem checkOptionName_ok (h : checkOptionName name = .ok ()) :
    name ∈ awsAllowedOptions := by
  unfold checkOptionName at h
  split_ifs at h with hallowed
  exact hallowed

theorem splitOption_of_eq (hname : '=' ∉ name) (value : Text) :
    splitOption (name ++ '=' :: value) = (name, some value) := by
  rw [splitOption, splitFirst_singleton hname]

theorem splitOption_of_notMem (h : '=' ∉ word) : splitOption word = (word, none) := by
  rw [splitOption, splitFirst_eq_none h]

theorem option_cases (word : Text) :
    (∃ name value, '=' ∉ name ∧ word = name ++ '=' :: value) ∨ '=' ∉ word := by
  by_cases h : '=' ∈ word
  · obtain ⟨name, value, hword, hname⟩ := eq_append_cons_of_mem h
    exact .inl ⟨name, value, hname, hword⟩
  · exact .inr h

theorem takeWhile_name (hname : '=' ∉ name) (rest : Text)
    (hrest : rest = [] ∨ ∃ value, rest = '=' :: value) :
    (name ++ rest).takeWhile (· != '=') = name := by
  have hkept : ∀ c ∈ name, (c != '=') = true := by
    intro c hc
    rw [bne_iff_ne]
    rintro rfl
    exact hname hc
  rw [takeWhile_append_of_pos hkept]
  rcases hrest with rfl | ⟨value, rfl⟩ <;> simp

theorem inert_allowed : ∀ name ∈ awsAllowedOptions, Inert name := by
  have hall : awsAllowedOptions.all (fun name => !loadsValue name) = true := by decide +kernel
  intro name hname
  exact inert_of_loadsValue (by simpa using all_eq_true.mp hall name hname)

theorem Inert.join (hname : Inert name) (hvalue : Inert value)
    (hoption : isOption (name ++ '=' :: value) = true) : Inert (name ++ '=' :: value) := by
  have hlower : lower (name ++ '=' :: value) = lower name ++ '=' :: lower value := by
    rw [lower, map_append, map_cons]
    rfl
  have hhead : (lower (name ++ '=' :: value)).head? = some '-' := by
    rw [lower, head?_map, eq_of_beq hoption]
    rfl
  have hurl : ∀ needle : Text, needle.head? = some 'h' →
      ¬ needle <+: lower (name ++ '=' :: value) := by
    rintro needle hneedle ⟨rest, hrest⟩
    rw [← hrest, head?_append, hneedle, some_or, some.injEq] at hhead
    exact absurd hhead (by decide)
  have hfile : ∀ needle : Text, '=' ∉ needle → ¬ needle <:+: lower name →
      ¬ needle <:+: lower value → ¬ needle <:+: lower (name ++ '=' :: value) := by
    intro needle hneedle hnotName hnotValue hfound
    rw [hlower] at hfound
    rcases infix_of_infix_append_cons hneedle hfound with hfound | hfound
    · exact hnotName hfound
    · exact hnotValue hfound
  exact ⟨hfile _ (by decide) hname.file hvalue.file, hfile _ (by decide) hname.fileb hvalue.fileb,
    hurl _ rfl, hurl _ rfl⟩

theorem owed_nil (option : Text) : ¬ Owed [] option := by
  rintro ⟨earlier, values, h, -⟩
  exact absurd h (by simp)

variable {before : List Text}

theorem owed_concat_option (hword : isOption word = true) (option : Text) :
    Owed (before ++ [word]) option ↔
      option = word ∧ '=' ∉ word ∧ word ∉ awsFlagOptions := by
  constructor
  · rintro ⟨earlier, values, h, -, hvalues, hequal, hflag, -⟩
    rcases eq_nil_or_concat values with rfl | ⟨vs, v, rfl⟩
    · obtain ⟨-, hlast⟩ := append_inj' h rfl
      cases hlast
      exact ⟨rfl, hequal, hflag⟩
    · -- The last word would be a value.
      have hsplit : before ++ [word] = (earlier ++ option :: vs) ++ [v] := by simpa using h
      obtain ⟨-, hlast⟩ := append_inj' hsplit rfl
      cases hlast
      rw [hvalues word (by simp)] at hword
      cases hword
  · rintro ⟨rfl, hequal, hflag⟩
    exact ⟨before, [], rfl, hword, by simp, hequal, hflag, .inl rfl⟩

theorem owed_concat_value (hword : isOption word = false) (option : Text) :
    Owed (before ++ [word]) option ↔ Owed before option ∧ option ∈ awsListOptions := by
  constructor
  · rintro ⟨earlier, values, h, hoption, hvalues, hequal, hflag, hmore⟩
    rcases eq_nil_or_concat values with rfl | ⟨vs, v, rfl⟩
    · obtain ⟨-, hlast⟩ := append_inj' h rfl
      cases hlast
      rw [hword] at hoption
      cases hoption
    · have hsplit : before ++ [word] = (earlier ++ option :: vs) ++ [v] := by simpa using h
      obtain ⟨hbefore, -⟩ := append_inj' hsplit rfl
      have hlist : option ∈ awsListOptions := hmore.resolve_left (by simp)
      exact ⟨⟨earlier, vs, hbefore, hoption, fun x hx => hvalues x (by simp [hx]), hequal, hflag,
        .inr hlist⟩, hlist⟩
  · rintro ⟨⟨earlier, values, rfl, hoption, hvalues, hequal, hflag, -⟩, hlist⟩
    refine ⟨earlier, values ++ [word], by simp, hoption, ?_, hequal, hflag, .inr hlist⟩
    simp only [forall_mem_append, forall_mem_singleton]
    exact ⟨hvalues, hword⟩

def Expect.option : Expect → Option Text
  | .nothing => none
  | .one name => some name
  | .many name => some name

def Expect.Fits : Expect → Prop
  | .nothing => True
  | .one name => name ∉ awsListOptions
  | .many name => name ∈ awsListOptions

structure Tracks (before : List Text) (expect : Expect) : Prop where
  owed : ∀ option, Owed before option ↔ expect.option = some option
  fits : expect.Fits

theorem tracks_nothing (h : ∀ option, ¬ Owed before option) :
    Tracks before .nothing where
  owed option := iff_of_false (h option) (by simp [Expect.option])
  fits := trivial

theorem tracks_inline (hword : isOption word = true) (hequal : '=' ∈ word) :
    Tracks (before ++ [word]) .nothing := by
  apply tracks_nothing
  intro option
  rw [owed_concat_option hword]
  exact fun h => h.2.1 hequal

theorem tracks_expectAfter (before : List Text) (hword : isOption word = true)
    (hequal : '=' ∉ word) : Tracks (before ++ [word]) (expectAfter word) := by
  have howed : word ∉ awsFlagOptions → ∀ option,
      Owed (before ++ [word]) option ↔ some word = some option := by
    intro hflag option
    rw [owed_concat_option hword, some.injEq, eq_comm]
    exact and_iff_left ⟨hequal, hflag⟩
  unfold expectAfter
  split_ifs with hflag hlist
  · apply tracks_nothing
    intro option
    rw [owed_concat_option hword]
    exact fun h => h.2.2 hflag
  · exact ⟨howed hflag, hlist⟩
  · exact ⟨howed hflag, hlist⟩

variable {expect : Expect}

theorem Tracks.of_value {before : List Text} {expect : Expect} (h : Tracks before expect)
    {word : Text} (hword : isOption word = false) {next : Expect} (hnext : next.Fits)
    (hsame : ∀ option, next.option = some option ↔
      expect.option = some option ∧ option ∈ awsListOptions) :
    Tracks (before ++ [word]) next where
  owed option := by rw [owed_concat_value hword, h.owed, hsame]
  fits := hnext

theorem isOption_region (value : Text) : isOption ("--region=" ++ value) = true := rfl

theorem permitted_operand (hword : isOption word = false) (hinert : Inert word)
    (hoperand : (∃ option, Owed before option) ∨ IsLocation word)
    (hregion : Owed before "--region" → IsRegion word) : Permitted before word where
  option h := absurd (hword.symm.trans h) Bool.false_ne_true
  operand _ := hoperand
  inert := hinert
  inertValue h := absurd (hword.symm.trans h) Bool.false_ne_true
  region _ := hregion
  regionValue value h := by
    rw [h, isOption_region] at hword
    cases hword

theorem permitted_bare (hword : isOption word = true) (hequal : '=' ∉ word)
    (hallowed : word ∈ awsAllowedOptions) : Permitted before word where
  option _ := by
    have hname := takeWhile_name hequal [] (.inl rfl)
    rw [append_nil] at hname
    rwa [hname]
  operand h := absurd (h.symm.trans hword) Bool.false_ne_true
  inert := inert_allowed word hallowed
  inertValue _ name value _ h := absurd (h ▸ by simp) hequal
  region h := absurd (h.symm.trans hword) Bool.false_ne_true
  regionValue value h := absurd (h ▸ by simp) hequal

theorem permitted_inline (hname : '=' ∉ name) (hword : isOption (name ++ '=' :: value) = true)
    (hallowed : name ∈ awsAllowedOptions) (hvalue : Inert value)
    (hregion : name = "--region" → IsRegion value) :
    Permitted before (name ++ '=' :: value) := by
  have hunique : ∀ name' value' : Text, '=' ∉ name' →
      name ++ '=' :: value = name' ++ '=' :: value' → name = name' ∧ value = value' := by
    intro name' value' hname' h
    have hsplit := congrArg splitOption h
    rw [splitOption_of_eq hname, splitOption_of_eq hname', Prod.mk.injEq,
      some.injEq] at hsplit
    exact hsplit
  constructor
  · intro _
    rwa [takeWhile_name hname _ (.inr ⟨value, rfl⟩)]
  · intro h
    exact absurd (h.symm.trans hword) Bool.false_ne_true
  · exact (inert_allowed name hallowed).join hvalue hword
  · intro _ name' value' hname' h
    exact (hunique name' value' hname' h).2 ▸ hvalue
  · intro h
    exact absurd (h.symm.trans hword) Bool.false_ne_true
  · intro value' h
    obtain ⟨rfl, rfl⟩ := hunique "--region" value' (by decide) h
    exact hregion rfl

theorem checkWords_cons {rest : List Text} (h : checkWords expect (word :: rest) = .ok ())
    (htracks : Tracks before expect) :
    Permitted before word ∧
      ∃ next, Tracks (before ++ [word]) next ∧ checkWords next rest = .ok () := by
  rw [checkWords.eq_def] at h
  dsimp only at h
  split at h
  · next hword =>
      obtain ⟨hname, h⟩ := ok_of_bind h
      rcases option_cases word with ⟨name, value, hequal, rfl⟩ | hequal
      · rw [splitOption_of_eq hequal] at hname h
        obtain ⟨hvalue, h⟩ := ok_of_bind h
        obtain ⟨hinert, hregion⟩ := checkValue_ok hvalue
        exact ⟨permitted_inline hequal hword (checkOptionName_ok hname) hinert hregion, .nothing,
          tracks_inline hword (by simp), h⟩
      · rw [splitOption_of_notMem hequal] at hname h
        exact ⟨permitted_bare hword hequal (checkOptionName_ok hname), _,
          tracks_expectAfter before hword hequal, h⟩
  · next hword =>
      rw [Bool.not_eq_true] at hword
      cases expect with
      | nothing =>
        obtain ⟨hvalue, h⟩ := ok_of_bind h
        obtain ⟨hlocation, h⟩ := ok_of_bind h
        refine ⟨permitted_operand hword (checkValue_ok hvalue).1
          (.inr (checkLocation_ok hlocation)) ?_, .nothing, ?_, h⟩
        · intro howed
          cases (htracks.owed _).mp howed
        · exact htracks.of_value hword trivial (by simp [Expect.option])
      | one name =>
        obtain ⟨hvalue, h⟩ := ok_of_bind h
        obtain ⟨hinert, hregion⟩ := checkValue_ok hvalue
        have hfits : name ∉ awsListOptions := htracks.fits
        refine ⟨permitted_operand hword hinert (.inl ⟨name, (htracks.owed name).mpr rfl⟩) ?_,
          .nothing, ?_, h⟩
        · intro howed
          exact hregion (some.inj ((htracks.owed _).mp howed))
        · refine htracks.of_value hword trivial fun option => ?_
          simp only [Expect.option, reduceCtorEq, some.injEq, false_iff, not_and]
          rintro rfl
          exact hfits
      | many name =>
        obtain ⟨hvalue, h⟩ := ok_of_bind h
        obtain ⟨hinert, hregion⟩ := checkValue_ok hvalue
        have hfits : name ∈ awsListOptions := htracks.fits
        refine ⟨permitted_operand hword hinert (.inl ⟨name, (htracks.owed name).mpr rfl⟩) ?_,
          .many name, ?_, h⟩
        · intro howed
          exact hregion (some.inj ((htracks.owed _).mp howed))
        · refine htracks.of_value hword hfits fun option => ?_
          simp only [Expect.option, some.injEq, iff_self_and]
          rintro rfl
          exact hfits

theorem checkWords_permitted {words : List Text} (h : checkWords expect words = .ok ())
    (htracks : Tracks before expect) :
    ∀ mid word after, words = mid ++ word :: after → Permitted (before ++ mid) word := by
  induction words generalizing expect before with
  | nil => simp
  | cons first rest ih =>
    obtain ⟨hfirst, next, hnext, hrest⟩ := checkWords_cons h htracks
    intro mid word after hwords
    cases mid with
    | nil =>
      obtain ⟨rfl, -⟩ := cons.inj hwords
      rwa [append_nil]
    | cons w mid =>
      obtain ⟨rfl, hmid⟩ := cons.inj hwords
      have hlater := ih hrest hnext mid word after hmid
      rwa [append_assoc] at hlater

def awsPieces (service subcommand : Text) (words : List Text) : List (Quoting × Text) :=
  [(.escape, service), (.escape, subcommand)] ++ words.map (fun word => (.escape, word)) ++
    [(.posixWord, "--output".toList), (.posixWord, "json".toList)]

theorem run_awsCliCommand (tempPath service subcommand args : Text) :
    run tempPath (buildAwsCliCommand service subcommand (some args)) =
      some ⟨[], ["aws".toList, service, subcommand] ++ (splitAwsArgs args).1 ++
        ["--output".toList, "json".toList], .start⟩ := by
  let words := (splitAwsArgs args).1
  let command : SimpleCommand :=
    ⟨"aws".toList.map .plain :: fragmentsOf (awsPieces service subcommand words),
      [.duplicate "2".toList ("1".toList.map .plain)]⟩
  have hline : buildAwsCliCommand service subcommand (some args) =
      "aws".toList ++ spaced (awsPieces service subcommand words) ++ ' ' :: "2>&1".toList := by
    have hwords : words.flatMap (fun word => ' ' :: escape word .posix) =
        spaced (words.map fun word => (.escape, word)) := by
      rw [spaced, flatMap_map]
      rfl
    have houtput : spaced [(.posixWord, "--output".toList), (.posixWord, "json".toList)] ++
        ' ' :: "2>&1".toList = " --output json 2>&1".toList := by decide +kernel
    have hfront : spaced [(.escape, service), (.escape, subcommand)] =
        ' ' :: escape service .posix ++ ' ' :: escape subcommand .posix := by
      rw [spaced, flatMap_cons, flatMap_singleton]
      rfl
    rw [awsPieces, spaced_append, spaced_append, ← hwords, append_assoc, append_assoc,
      houtput, hfront]
    -- `rfl` spares the equation of the definition, whose strings are slow to compare
    have hdef : buildAwsCliCommand service subcommand (some args) =
        "aws".toList ++ [' '] ++ escape service .posix ++ [' '] ++ escape subcommand .posix ++
          words.flatMap (fun word => ' ' :: escape word .posix) ++
          " --output json 2>&1".toList := rfl
    rw [hdef]
    simp only [append_assoc, cons_append, nil_append]
  have hname : tokens "aws".toList = some [.word ("aws".toList.map .plain)] := by decide +kernel
  have htail : tokens "2>&1".toList =
      some [.duplicate "2".toList, .word ("1".toList.map .plain)] := by decide +kernel
  have htokens : tokens ("aws".toList ++ spaced (awsPieces service subcommand words) ++
      ' ' :: "2>&1".toList) = some command.tokens := by
    rw [tokens_blank (tokens_spaced hname _), htail]
    rfl
  have hparts : splitAssignments command.words = ([], command.words) := rfl
  have htexts : (awsPieces service subcommand words).map Prod.snd =
      [service, subcommand] ++ words ++ ["--output".toList, "json".toList] := by
    simp [awsPieces, Function.comp_def]
  rw [run, hline, runOn_command htokens, invoke, hparts]
  simp only [map_nil, expandAll, bind_some, command, expand_plain,
    expandAll_fragmentsOf, map_some, htexts]
  rfl

/-- Of an accepted `args` only permitted words reach `aws`, between the three fixed words in front
and `--output json` at the end. -/
theorem accepted_words_permitted (tempPath service subcommand args : Text)
    (haccepted : validateAwsArgs args = .ok ()) :
    run tempPath (buildAwsCliCommand service subcommand (some args)) =
      some ⟨[], ["aws".toList, service, subcommand] ++ (splitAwsArgs args).1 ++
        ["--output".toList, "json".toList], .start⟩ ∧
    ∀ before word after, (splitAwsArgs args).1 = before ++ word :: after →
      Permitted before word := by
  refine ⟨run_awsCliCommand tempPath service subcommand args, ?_⟩
  have hcheck : checkWords .nothing (splitAwsArgs args).1 = .ok () := by
    unfold validateAwsArgs at haccepted
    dsimp only at haccepted
    split at haccepted
    · cases haccepted
    · exact haccepted
  exact checkWords_permitted hcheck (tracks_nothing owed_nil)

theorem accepted_words_permitted_listing :
    validateAwsArgs "--region eu-west-1 --filters 'Name=tag:a b' x --recursive s3://bucket/k" =
      .ok () ∧
    Permitted ["--region", "eu-west-1", "--filters", "Name=tag:a b",
      "x", "--recursive"] "s3://bucket/k" := by
  have haccepted : validateAwsArgs
      "--region eu-west-1 --filters 'Name=tag:a b' x --recursive s3://bucket/k" = .ok () := by
    decide +kernel
  exact ⟨haccepted, (accepted_words_permitted [] "s3" "ls" _ haccepted).2 _ _ []
    (by decide +kernel)⟩

end BridgeMcp.Cloud
