import BridgeMcp.Security.Patterns

/-!
The output sanitizer (`security/sanitizer.rs`): the gates on captured values, one pattern applied to
a text, and the tiers of `sanitize`.

The entropy pass is a function of its own detector and is taken as given here. A detection set is a
set of the patterns themselves, so all that is kept of it is whether it was built.
-/
namespace BridgeMcp.Security
open TextLib RegexLib List

def isDecoration (c : Char) : Bool :=
  ['"', '\'', '\x7b', '\x7d', '[', ']', '<', '>'].contains c

def undecorated (candidate : Text) : Text :=
  (candidate.dropWhile isDecoration).rdropWhile isDecoration

def literalWords : List Text :=
  ["true", "false", "null", "None", "none", "nil"].map String.toList

def plausibleSecret (candidate : Text) : Bool :=
  let s := undecorated candidate
  if utf8Len s < 8 then false
  else if literalWords.contains s then false
  else
    let lettersOnly := s.all fun c => c.isAlpha || ['_', '.', '-'].contains c
    let digitsOnly := s.all Char.isDigit
    !(lettersOnly || digitsOnly)

def enumWords : List Text :=
  ["yes", "no", "on", "off", "auto", "default", "enabled", "disabled", "required",
    "optional"].map String.toList

def pathRoots : List Text :=
  ["/etc/", "/var/", "/usr/", "/opt/", "/home/", "/root/", "/srv/", "/mnt/", "/tmp/", "/boot/",
    "/dev/", "/proc/", "/sys/", "/run/", "/media/", "/lib/", "./", "../", "~/",
    "\\\\"].map String.toList

def startsWithDrive : Text → Bool
  | d :: ':' :: slash :: _ => d.isAlpha && (slash == '\\' || slash == '/')
  | _ => false

def plausibleShape (candidate : Text) : Bool :=
  let s := undecorated candidate
  if s.isEmpty || literalWords.contains s then false
  else
    let lowered := lower s
    if enumWords.contains lowered then false
    else if utf8Len s < 8 && s.all Char.isDigit then false
    else !(startsWithDrive lowered || pathRoots.any (·.isPrefixOf lowered))

def Gate.accepts (candidate : Text) : Gate → Bool
  | .plausibleSecret => Security.plausibleSecret candidate
  | .shape => plausibleShape candidate
  | .plausibleAndShape => Security.plausibleSecret candidate && plausibleShape candidate

structure SanitizePattern where
  regex : Regex
  replacement : Text
  secretGroup : Option ℕ
  gate : Gate
  deriving DecidableEq

def PatternDef.compile (d : PatternDef) : SanitizePattern :=
  ⟨d.pattern, d.replacement.toList, d.secretGroup, d.gate⟩

def SanitizePattern.rewrite (p : SanitizePattern) (caps : Captures) : Text :=
  match p.secretGroup with
  | none => expand p.replacement caps
  | some group =>
    if p.gate.accepts (caps.get group) then expand p.replacement caps else caps.get 0

def SanitizePattern.apply (u : Unicode) (p : SanitizePattern) (text : Text) : Text :=
  replaceAllWith u p.regex p.rewrite text

/-- The tier-1 detection set over the operator's patterns. -/
inductive CustomSet where
  | absent
  | built
  | unbuilt
  deriving DecidableEq

structure Sanitizer where
  patterns : List SanitizePattern
  detectionSet : Bool
  literalDetector : Option (List Text)
  customSet : CustomSet
  customStart : ℕ
  enabled : Bool
  stripAnsi : Bool
  entropyDetector : Option (Text → Text)
  knownSecretMasker : Option (List Text)

def Sanitizer.withDefaults (entropyDetector : Option (Text → Text)) : Sanitizer where
  patterns := defaultPatternDefs.map PatternDef.compile
  detectionSet := true
  literalDetector := some secretKeywords
  customSet := .absent
  customStart := defaultPatternDefs.length
  enabled := true
  stripAnsi := true
  entropyDetector := entropyDetector
  knownSecretMasker := none

/-- `ANSI_PATTERN`: a control sequence, an operating system command up to the bell, or a colour. -/
def ansiPattern : Regex :=
  orElse [
    seq [lit false "\x1b[", star (inClass false (asciiDigit :: only [';'])),
      inClass false [lowerCase, upper]],
    seq [lit false "\x1b]", lazyStar dot, chr false '\x07']]
    (seq [lit false "\x1b[", star (inClass false (.digit :: only [';'])), chr false 'm'])

def stripAnsiCodes (u : Unicode) (text : Text) : Text :=
  replaceAllWith u ansiPattern (fun _ => []) text

/-- The longest of the literals that stand at the beginning of the text. -/
def longestAt (lits : List Text) (text : Text) : Option Text :=
  lits.foldl (fun best k =>
    if k.isPrefixOf text && best.all (fun b => b.length < k.length) then some k else best) none

/-- Leftmost-longest replacement of literals; `skip` characters still belong to the last one. -/
def maskFrom (lits : List Text) (marker : Text) : ℕ → Text → Text
  | _, [] => []
  | skip + 1, _ :: rest => maskFrom lits marker skip rest
  | 0, c :: rest =>
    match longestAt lits (c :: rest) with
    | none => c :: maskFrom lits marker 0 rest
    | some k => marker ++ maskFrom lits marker (k.length - 1) rest

namespace Sanitizer

/-- The mask keeps values of at least eight bytes. -/
def withKnownSecrets (s : Sanitizer) (secrets : List Text) : Sanitizer :=
  let filtered := secrets.filter fun k => 8 ≤ utf8Len k
  if filtered.isEmpty then s else { s with knownSecretMasker := some filtered }

def maskKnownSecrets (s : Sanitizer) (text : Text) : Text :=
  match s.knownSecretMasker with
  | none => text
  | some secrets => maskFrom secrets "[KNOWN_SECRET_REDACTED]" 0 text

def hasKeyword (s : Sanitizer) (text : Text) : Bool :=
  match s.literalDetector with
  | none => true
  | some keywords => hasLiteral keywords text

def setMatches (u : Unicode) (s : Sanitizer) (start : ℕ) (text : Text) : List ℕ :=
  (range' start (s.patterns.length - start)).filter fun idx =>
    s.patterns[idx]?.any fun p => isMatch u p.regex text

def matchedIndices (u : Unicode) (s : Sanitizer) (text : Text) : List ℕ :=
  if s.detectionSet then s.setMatches u 0 text else range s.patterns.length

def applyPatterns (u : Unicode) (s : Sanitizer) (text : Text) (indices : List ℕ) : Text :=
  indices.foldl (fun result idx => s.patterns[idx]?.elim result fun p => p.apply u result) text

def sanitizeSequential (u : Unicode) (s : Sanitizer) (text : Text) : Text :=
  s.applyPatterns u text (s.matchedIndices u text)

def sanitizeParallel (u : Unicode) (s : Sanitizer) (text : Text) : Text :=
  if (s.matchedIndices u text).isEmpty then text else s.sanitizeSequential u text

def parallelThreshold : ℕ := 512 * 1024

def redactEntropy (s : Sanitizer) (text : Text) : Text :=
  match s.entropyDetector with
  | none => text
  | some redact => redact text

/-- The operator patterns a text without keywords is checked for. -/
def customHits (u : Unicode) (s : Sanitizer) (text : Text) : List ℕ :=
  match s.customSet with
  | .absent => []
  | .built => s.setMatches u s.customStart text
  | .unbuilt => range' s.customStart (s.patterns.length - s.customStart)

def sanitize (u : Unicode) (s : Sanitizer) (text : Text) : Text :=
  if !s.enabled then text
  else if utf8Len text < 4 then text
  else
    let text := if s.stripAnsi then stripAnsiCodes u text else text
    let text := s.maskKnownSecrets text
    if !s.hasKeyword text then
      let hits := s.customHits u text
      if hits.isEmpty then s.redactEntropy text
      else s.redactEntropy (s.applyPatterns u text hits)
    else if s.detectionSet && (s.setMatches u 0 text).isEmpty then s.redactEntropy text
    else
      let result :=
        if parallelThreshold ≤ utf8Len text then s.sanitizeParallel u text
        else s.sanitizeSequential u text
      s.redactEntropy result

end Sanitizer

theorem foldl_filter_indices {α β : Type*} (f : β → α → β) (q : α → Bool) (all : List α)
    (start : ℕ) (b : β) :
    ((range' start (all.length - start)).filter fun i => all[i]?.any q).foldl
        (fun r i => all[i]?.elim r (f r)) b =
      ((all.drop start).filter q).foldl f b := by
  induction hn : all.length - start generalizing start b with
  | zero => simp [drop_eq_nil_iff.mpr (Nat.sub_eq_zero_iff_le.mp hn)]
  | succ n ih =>
    have hlt : start < all.length := by omega
    rw [range'_succ, drop_eq_getElem_cons hlt, filter_cons, filter_cons,
      getElem?_eq_getElem hlt, Option.any_some]
    split
    · rw [foldl_cons, foldl_cons, getElem?_eq_getElem hlt]
      exact ih (start + 1) _ (by omega)
    · exact ih (start + 1) b (by omega)

theorem applyPatterns_setMatches (u : Unicode) (s : Sanitizer) (start : ℕ) (text found : Text) :
    s.applyPatterns u text (s.setMatches u start found) =
      ((s.patterns.drop start).filter fun p => isMatch u p.regex found).foldl
        (fun result p => p.apply u result) text :=
  foldl_filter_indices (fun result (p : SanitizePattern) => p.apply u result)
    (fun p => isMatch u p.regex found) s.patterns start text

theorem SanitizePattern.apply_of_no_match {u : Unicode} {p : SanitizePattern} {text : Text}
    (h : isMatch u p.regex text = false) : p.apply u text = text :=
  replaceAllWith_of_no_match p.rewrite h

end BridgeMcp.Security
