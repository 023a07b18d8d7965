import BridgeMcp.Lib.Text
import BridgeMcp.Lib.Replace

/-!
The command validator (`security/validator.rs`): the blacklist is matched against a normalised
command, the whitelist against the raw one.
-/
namespace BridgeMcp.Security
open TextLib

/-- What the validator uses of the regex crate. -/
structure RegexCrate where
  Compiled : Type
  compile : Text → Option Compiled
  isMatch : Compiled → Text → Bool
  display : Compiled → Text

inductive SecurityMode where
  | strict
  | standard
  | permissive
  deriving DecidableEq

structure SecurityConfig where
  mode : SecurityMode
  whitelist : List Text
  blacklist : List Text
  deriving DecidableEq

inductive BridgeError where
  | commandDenied (reason : Text)
  deriving DecidableEq

structure CompiledPatterns (rx : RegexCrate) where
  mode : SecurityMode
  whitelist : List rx.Compiled
  blacklist : List rx.Compiled

/-- A pattern that does not compile is logged and left out. -/
def CompiledPatterns.compile (rx : RegexCrate) (config : SecurityConfig) : CompiledPatterns rx :=
  ⟨config.mode, config.whitelist.filterMap rx.compile, config.blacklist.filterMap rx.compile⟩

def normalizeForBlacklistMatch (input : Text) : Text :=
  let s := replaceAll "\\\n" " " input
  let s := replaceAll "$IFS" " " (replaceAll "$\x7bIFS\x7d" " " s)
  replaceAll "$' '" " "
    (replaceAll "$'\\n'" " " (replaceAll "$'\\t'" " " s))

def SecurityMode.label : SecurityMode → Text
  | .strict => "strict"
  | .standard => "standard"
  | .permissive => "permissive"

structure CommandValidator (rx : RegexCrate) where
  patterns : CompiledPatterns rx

namespace CommandValidator

variable {rx : RegexCrate}

def new (rx : RegexCrate) (config : SecurityConfig) : CommandValidator rx :=
  ⟨CompiledPatterns.compile rx config⟩

/-- The two checks both entry points begin with: the command is not empty, and no blacklist pattern
matches its normalised form. -/
def checkBlacklist (v : CommandValidator rx) (raw : Text) : Except BridgeError Unit :=
  if raw.isEmpty then .error (.commandDenied "Command cannot be empty")
  else
    match v.patterns.blacklist.find? fun p => rx.isMatch p (normalizeForBlacklistMatch raw) with
    | some p =>
      .error (.commandDenied ("Command matches blacklist pattern: " ++ rx.display p))
    | none => .ok ()

def checkWhitelist (v : CommandValidator rx) (raw : Text) : Except BridgeError Unit :=
  if v.patterns.mode = .permissive then .ok ()
  else if v.patterns.whitelist.any fun p => rx.isMatch p raw then .ok ()
  else
    .error (.commandDenied
      ("Command not in whitelist (" ++ v.patterns.mode.label ++ " mode)"))

def validate (v : CommandValidator rx) (command : Text) : Except BridgeError Unit := do
  let raw := trim command
  v.checkBlacklist raw
  v.checkWhitelist raw

def validateBuiltin (v : CommandValidator rx) (command : Text) : Except BridgeError Unit :=
  v.checkBlacklist (trim command)

end CommandValidator

/-- The call returns `CommandDenied`. -/
def Denied (r : Except BridgeError Unit) : Prop := ∃ reason, r = .error (.commandDenied reason)

/-- Some blacklist pattern of the configuration that compiles matches the text. -/
def Blacklisted (rx : RegexCrate) (config : SecurityConfig) (text : Text) : Prop :=
  ∃ p ∈ config.blacklist, ∃ re, rx.compile p = some re ∧ rx.isMatch re text = true

section
variable {rx : RegexCrate} {config : SecurityConfig} {command : Text}

section
variable (hne : trim command ≠ [])
include hne

theorem checkBlacklist_denied :
    Denied ((CommandValidator.new rx config).checkBlacklist (trim command)) ↔
      Blacklisted rx config (normalizeForBlacklistMatch (trim command)) := by
  have hempty : (trim command).isEmpty = false := by simpa using hne
  unfold CommandValidator.checkBlacklist
  rw [hempty]
  simp only [Bool.false_eq_true, if_false, CommandValidator.new, CompiledPatterns.compile]
  split
  · rename_i re hfind
    obtain ⟨p, hp, hre⟩ := List.mem_filterMap.mp (List.mem_of_find?_eq_some hfind)
    have hmatch : rx.isMatch re (normalizeForBlacklistMatch (trim command)) = true := by
      simpa using List.find?_some hfind
    exact iff_of_true ⟨_, rfl⟩ ⟨p, hp, re, hre, hmatch⟩
  · rename_i hfind
    refine iff_of_false ?_ ?_
    · rintro ⟨reason, hreason⟩
      cases hreason
    · rintro ⟨p, hp, re, hre, hmatch⟩
      have hno := List.find?_eq_none.mp hfind re (List.mem_filterMap.mpr ⟨p, hp, hre⟩)
      exact hno hmatch

theorem validateBuiltin_denied :
    Denied ((CommandValidator.new rx config).validateBuiltin command) ↔
      Blacklisted rx config (normalizeForBlacklistMatch (trim command)) :=
  checkBlacklist_denied hne

theorem validate_denied_of_blacklisted
    (h : Blacklisted rx config (normalizeForBlacklistMatch (trim command))) :
    Denied ((CommandValidator.new rx config).validate command) := by
  obtain ⟨reason, hreason⟩ := (checkBlacklist_denied hne).mpr h
  refine ⟨reason, ?_⟩
  change ((CommandValidator.new rx config).checkBlacklist (trim command) >>= fun _ => _) = _
  rw [hreason]
  rfl

theorem both_denied_iff :
    Denied ((CommandValidator.new rx config).validate command) ∧
        Denied ((CommandValidator.new rx config).validateBuiltin command) ↔
      Blacklisted rx config (normalizeForBlacklistMatch (trim command)) :=
  ⟨fun h => (validateBuiltin_denied hne).mp h.2,
    fun h => ⟨validate_denied_of_blacklisted hne h, (validateBuiltin_denied hne).mpr h⟩⟩

end

end

/-- The spellings the normaliser rewrites to a blank, in its order. -/
def rewrittenSpellings : List Text :=
  ["\\\n", "$\x7bIFS\x7d", "$IFS", "$'\\t'", "$'\\n'", "$' '"].map String.toList

theorem normalizeForBlacklistMatch_eq (input : Text) :
    normalizeForBlacklistMatch input = replaceEach rewrittenSpellings " " input := rfl

theorem rewrittenSpellings_length : ∀ s ∈ rewrittenSpellings, " ".toList.length < s.length := by
  decide

/-- A text of at most `size` characters can be written as a pattern that finds exactly its
occurrences (`regex::escape`); beyond some size a pattern is refused. -/
def RegexCrate.CompilesLiterals (rx : RegexCrate) (size : ℕ) : Prop :=
  ∀ t : Text, t.length ≤ size → ∃ p re, rx.compile p = some re ∧
    ∀ text, rx.isMatch re text = true ↔ t <:+: text

/-- Every blacklist pattern that matches the raw command has it denied by both entry points. -/
def DeniesRawMatches (rx : RegexCrate) (config : SecurityConfig) (command : Text) : Prop :=
  ∀ p ∈ config.blacklist, ∀ re, rx.compile p = some re → rx.isMatch re (trim command) = true →
    Denied ((CommandValidator.new rx config).validate command) ∧
      Denied ((CommandValidator.new rx config).validateBuiltin command)

theorem deniesRawMatches_iff {rx : RegexCrate} {config : SecurityConfig} {command : Text}
    (hne : trim command ≠ []) :
    DeniesRawMatches rx config command ↔
      ¬ Blacklisted rx config (trim command) ∨
        Blacklisted rx config (normalizeForBlacklistMatch (trim command)) := by
  constructor
  · intro h
    by_cases hraw : Blacklisted rx config (trim command)
    · obtain ⟨p, hp, re, hre, hmatch⟩ := hraw
      exact .inr ((both_denied_iff hne).mp (h p hp re hre hmatch))
    · exact .inl hraw
  · rintro (hraw | hnormalized) p hp re hre hmatch
    · exact absurd ⟨p, hp, re, hre, hmatch⟩ hraw
    · exact (both_denied_iff hne).mpr hnormalized

theorem not_deniesRawMatches {rx : RegexCrate} {size : ℕ} (hlit : rx.CompilesLiterals size)
    {command : Text} (hne : trim command ≠ []) (hsize : (trim command).length ≤ size)
    (hspelling : ∃ s ∈ rewrittenSpellings, s <:+: trim command) :
    ∃ config, ¬ DeniesRawMatches rx config command := by
  obtain ⟨p, re, hre, hfinds⟩ := hlit (trim command) hsize
  refine ⟨⟨.permissive, [], [p]⟩, ?_⟩
  rw [deniesRawMatches_iff hne]
  rintro (hraw | hnormalized)
  · exact hraw ⟨p, by simp, re, hre, (hfinds _).mpr List.infix_rfl⟩
  · obtain ⟨p', hp', re', hre', hmatch⟩ := hnormalized
    obtain rfl : p' = p := by simpa using hp'
    obtain rfl : re' = re := Option.some.inj (hre'.symm.trans hre)
    have hle := ((hfinds _).mp hmatch).length_le
    have hlt := replaceEach_length_lt rewrittenSpellings_length hspelling
    rw [normalizeForBlacklistMatch_eq] at hle
    omega

/-- Normalisation takes a raw match out of the blacklist exactly when no pattern of the
configuration matches the normalised command any more; it never does so, whatever the
configuration, exactly for the commands with none of the rewritten spellings. -/
theorem raw_matches_denied_iff (rx : RegexCrate) (size : ℕ) (hlit : rx.CompilesLiterals size)
    (command : Text) (hne : trim command ≠ []) (hsize : (trim command).length ≤ size) :
    (∀ config, DeniesRawMatches rx config command ↔
      ¬ Blacklisted rx config (trim command) ∨
        Blacklisted rx config (normalizeForBlacklistMatch (trim command))) ∧
    ((∀ config, DeniesRawMatches rx config command) ↔
      ∀ s ∈ rewrittenSpellings, ¬ s <:+: trim command) := by
  refine ⟨fun config => deniesRawMatches_iff hne, ?_, ?_⟩
  · intro h s hs hin
    obtain ⟨config, hnot⟩ := not_deniesRawMatches hlit hne hsize ⟨s, hs, hin⟩
    exact hnot (h config)
  · intro hfree config
    rw [deniesRawMatches_iff hne, normalizeForBlacklistMatch_eq, replaceEach_of_free _ hfree]
    exact (em _).symm

/-- The characters a pattern has to escape to stand for themselves. -/
def isMetaChar (c : Char) : Bool :=
  ['\\', '.', '+', '*', '?', '(', ')', '|', '[', ']', '\x7b', '\x7d', '^', '$'].contains c

/-- The text a pattern without operators stands for. -/
def literalOf : Text → Option Text
  | [] => some []
  | '\\' :: c :: p => if isMetaChar c then (literalOf p).map (c :: ·) else none
  | c :: p => if isMetaChar c then none else (literalOf p).map (c :: ·)

def escapePattern (t : Text) : Text := t.flatMap fun c => if isMetaChar c then ['\\', c] else [c]

theorem literalOf_escapePattern (t : Text) : literalOf (escapePattern t) = some t := by
  induction t with
  | nil => rfl
  | cons c t ih =>
    rw [escapePattern, List.flatMap_cons]
    by_cases hc : isMetaChar c = true
    · rw [if_pos hc]
      change literalOf ('\\' :: c :: escapePattern t) = _
      rw [literalOf, if_pos hc, ih]
      rfl
    · rw [if_neg hc]
      change literalOf (c :: escapePattern t) = _
      rw [literalOf.eq_def]
      split
      · rename_i h
        cases h
      · rename_i h
        injection h with hhead _
        subst hhead
        exact absurd (by decide) hc
      · rename_i h
        injection h with hhead htail
        subst hhead htail
        rw [if_neg hc, ih]
        rfl

def literalCrate : RegexCrate where
  Compiled := Text × Text
  compile p := (literalOf p).map fun t => (p, t)
  isMatch re text := decide (re.2 <:+: text)
  display re := re.1

theorem literalCrate_compilesLiterals (size : ℕ) : literalCrate.CompilesLiterals size := by
  intro t _
  refine ⟨escapePattern t, (escapePattern t, t), ?_, fun text => decide_eq_true_iff⟩
  change (literalOf (escapePattern t)).map _ = _
  rw [literalOf_escapePattern]
  rfl

theorem raw_matches_denied_listing :
    DeniesRawMatches literalCrate ⟨.strict, [], ["ls"]⟩ "ls -la" :=
  (raw_matches_denied_iff literalCrate 6 (literalCrate_compilesLiterals 6) "ls -la"
    (by decide +kernel) (by decide +kernel)).2.mpr (by decide +kernel) ⟨.strict, [], ["ls"]⟩

/-- A pattern about `$IFS` matches the raw command and no longer the normalised one. -/
theorem ifs_pattern_bypassed :
    ¬ DeniesRawMatches literalCrate ⟨.permissive, [], ["\\$IFS".toList]⟩ "echo $IFS".toList ∧
    (CommandValidator.new literalCrate ⟨.permissive, [], ["\\$IFS".toList]⟩).validate
      "echo $IFS".toList = .ok () ∧
    (CommandValidator.new literalCrate ⟨.permissive, [], ["\\$IFS".toList]⟩).validateBuiltin
      "echo $IFS".toList = .ok () := by
  have hvalidate : (CommandValidator.new literalCrate
      ⟨.permissive, [], ["\\$IFS".toList]⟩).validate "echo $IFS".toList = .ok () := by
    decide +kernel
  have hcompile : literalOf "\\$IFS".toList = some "$IFS".toList := by decide +kernel
  refine ⟨?_, hvalidate, by decide +kernel⟩
  intro h
  obtain ⟨⟨reason, hdenied⟩, -⟩ := h "\\$IFS".toList (by simp) ("\\$IFS".toList, "$IFS".toList)
    (congrArg (Option.map fun t => ("\\$IFS".toList, t)) hcompile) (by decide +kernel)
  rw [hvalidate] at hdenied
  cases hdenied

end BridgeMcp.Security
