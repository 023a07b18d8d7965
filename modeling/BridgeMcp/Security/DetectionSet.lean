import BridgeMcp.Security.Sanitizer

/-!
The detection sets of the sanitizer (`security/sanitizer.rs`). A set is evaluated once, on the text
that no pattern has rewritten yet.

An operator's pattern is any regular expression with its replacement. All that is used of it is what
`is_match` and `replace_all` answer, and that nothing is replaced where nothing matches.
-/
namespace BridgeMcp.Security
open TextLib RegexLib List

structure Rule where
  isMatch : Text → Bool
  replaceAll : Text → Text
  replaceAll_of_no_match : ∀ text, isMatch text = false → replaceAll text = text

def SanitizePattern.rule (u : Unicode) (p : SanitizePattern) : Rule where
  isMatch := RegexLib.isMatch u p.regex
  replaceAll := p.apply u
  replaceAll_of_no_match := fun _ => SanitizePattern.apply_of_no_match

def applyRules (rules : List Rule) (text : Text) : Text :=
  rules.foldl (fun result rule => rule.replaceAll result) text

/-- The rules that a set over them finds in the text. -/
def found (rules : List Rule) (text : Text) : List Rule :=
  rules.filter fun rule => rule.isMatch text

/-- A sanitizer with the built-in patterns, and the operator's patterns after them. -/
structure Operated where
  builtin : Sanitizer
  custom : List Rule

section
variable (u : Unicode)

def Operated.rules (s : Operated) : List Rule :=
  s.builtin.patterns.map (SanitizePattern.rule u) ++ s.custom

/-- `Sanitizer::sanitize`, with both detection sets or with neither. -/
def Operated.sanitize (s : Operated) (sets : Bool) (text : Text) : Text :=
  if !s.builtin.enabled then text
  else if utf8Len text < 4 then text
  else
    let text := if s.builtin.stripAnsi then stripAnsiCodes u text else text
    let text := s.builtin.maskKnownSecrets text
    if !s.builtin.hasKeyword text then
      let hits := if sets then found s.custom text else s.custom
      if hits.isEmpty then s.builtin.redactEntropy text
      else s.builtin.redactEntropy (applyRules hits text)
    else if sets && (found (s.rules u) text).isEmpty then s.builtin.redactEntropy text
    else
      let matched := if sets then found (s.rules u) text else s.rules u
      let result :=
        if Sanitizer.parallelThreshold ≤ utf8Len text then
          if matched.isEmpty then text else applyRules matched text
        else applyRules matched text
      s.builtin.redactEntropy result

def Operated.cleaned (s : Operated) (text : Text) : Text :=
  s.builtin.maskKnownSecrets (if s.builtin.stripAnsi then stripAnsiCodes u text else text)

/-- The patterns that are considered for a text: without a keyword, only the operator's. -/
def Operated.considered (s : Operated) (text : Text) : List Rule :=
  if s.builtin.hasKeyword text then s.rules u else s.custom

end

variable (u : Unicode)

theorem applyRules_map (patterns : List SanitizePattern) (text : Text) :
    applyRules (patterns.map (SanitizePattern.rule u)) text =
      patterns.foldl (fun result p => p.apply u result) text :=
  foldl_map

theorem found_map (patterns : List SanitizePattern) (text : Text) :
    found (patterns.map (SanitizePattern.rule u)) text =
      (patterns.filter fun p => isMatch u p.regex text).map (SanitizePattern.rule u) :=
  filter_map

def Sanitizer.operated (u : Unicode) (s : Sanitizer) : Operated where
  builtin := { s with patterns := s.patterns.take s.customStart }
  custom := (s.patterns.drop s.customStart).map (SanitizePattern.rule u)

theorem Sanitizer.operated_rules (s : Sanitizer) :
    (s.operated u).rules u = s.patterns.map (SanitizePattern.rule u) := by
  rw [Operated.rules, Sanitizer.operated, ← map_append, take_append_drop]

theorem applyRules_of_isEmpty {rules : List Rule} (h : rules.isEmpty = true) (text : Text) :
    applyRules rules text = text := by
  rw [isEmpty_iff.mp h]
  rfl

variable {text : Text}

theorem Operated.sanitize_eq (s : Operated) (sets : Bool)
    (henabled : s.builtin.enabled = true) (hlength : 4 ≤ utf8Len text) :
    s.sanitize u sets text =
      s.builtin.redactEntropy (applyRules
        (if sets then found (s.considered u (s.cleaned u text)) (s.cleaned u text)
          else s.considered u (s.cleaned u text)) (s.cleaned u text)) := by
  have hcleaned : s.cleaned u text =
      s.builtin.maskKnownSecrets (if s.builtin.stripAnsi then stripAnsiCodes u text else text) := rfl
  rw [Operated.sanitize, if_neg (by simp [henabled]), if_neg (Nat.not_lt.mpr hlength)]
  dsimp only
  rw [← hcleaned]
  generalize s.cleaned u text = cleaned
  unfold Operated.considered
  cases hkeyword : s.builtin.hasKeyword cleaned with
  | false =>
    rw [if_pos (by decide), if_neg Bool.false_ne_true]
    split_ifs with hsets hempty hempty
    · rw [applyRules_of_isEmpty hempty]
    · rfl
    · rw [applyRules_of_isEmpty hempty]
    · rfl
  | true =>
    rw [if_neg (by decide), if_pos rfl]
    cases sets with
    | true =>
      simp only [Bool.true_and, if_true]
      split_ifs with hempty
      · rw [applyRules_of_isEmpty hempty]
      · rfl
      · rfl
    | false =>
      simp only [Bool.false_and, Bool.false_eq_true, if_false]
      split_ifs with hlarge hempty
      · rw [applyRules_of_isEmpty hempty]
      · rfl
      · rfl

theorem Sanitizer.applyPatterns_of_isEmpty (s : Sanitizer) {indices : List ℕ}
    (h : indices.isEmpty = true) (text : Text) : s.applyPatterns u text indices = text := by
  rw [isEmpty_iff.mp h]
  rfl

theorem Sanitizer.sanitize_eq (s : Sanitizer) (henabled : s.enabled = true)
    (hlength : 4 ≤ utf8Len text) :
    s.sanitize u text =
      let cleaned := s.maskKnownSecrets (if s.stripAnsi then stripAnsiCodes u text else text)
      s.redactEntropy (s.applyPatterns u cleaned
        (if s.hasKeyword cleaned then s.matchedIndices u cleaned else s.customHits u cleaned)) := by
  rw [Sanitizer.sanitize, if_neg (by simp [henabled]), if_neg (Nat.not_lt.mpr hlength)]
  dsimp only
  generalize s.maskKnownSecrets (if s.stripAnsi then stripAnsiCodes u text else text) = cleaned
  cases hkeyword : s.hasKeyword cleaned with
  | false =>
    rw [if_pos (by decide), if_neg Bool.false_ne_true]
    split_ifs with hempty
    · rw [s.applyPatterns_of_isEmpty u hempty]
    · rfl
  | true =>
    rw [if_neg (by decide), if_pos rfl]
    simp only [Sanitizer.sanitizeParallel, Sanitizer.sanitizeSequential]
    split_ifs with hnone hlarge hempty
    · obtain ⟨hset, hempty⟩ := Bool.and_eq_true_iff.mp hnone
      rw [Sanitizer.matchedIndices, if_pos hset, s.applyPatterns_of_isEmpty u hempty]
    · rw [s.applyPatterns_of_isEmpty u hempty]
    · rfl
    · rfl

theorem Sanitizer.applyPatterns_range (s : Sanitizer) (start : ℕ) (text : Text) :
    s.applyPatterns u text (range' start (s.patterns.length - start)) =
      (s.patterns.drop start).foldl (fun result p => p.apply u result) text := by
  have hall := foldl_filter_indices (fun result (p : SanitizePattern) => p.apply u result)
    (fun _ => true) s.patterns start text
  rw [filter_true] at hall
  rw [← hall, Sanitizer.applyPatterns, filter_eq_self.mpr]
  intro idx hidx
  have hlt : idx < s.patterns.length := by
    obtain ⟨hlow, hhigh⟩ := mem_range'_1.mp hidx
    omega
  rw [getElem?_eq_getElem hlt]
  rfl

theorem Operated.sanitize_of_skipped (s : Operated) (sets : Bool)
    (h : ¬ (s.builtin.enabled = true ∧ 4 ≤ utf8Len text)) : s.sanitize u sets text = text := by
  rw [Operated.sanitize]
  by_cases henabled : s.builtin.enabled = true
  · have hshort : utf8Len text < 4 := by
      by_contra hlong
      exact h ⟨henabled, Nat.le_of_not_lt hlong⟩
    rw [if_neg (by simp [henabled]), if_pos hshort]
  · rw [if_pos (by simpa using henabled)]

theorem Sanitizer.sanitize_operated (s : Sanitizer) (text : Text)
    (hcustom : s.customSet = if s.detectionSet then .built else .unbuilt) :
    s.sanitize u text = (s.operated u).sanitize u s.detectionSet text := by
  by_cases hrun : s.enabled = true ∧ 4 ≤ utf8Len text
  · rw [Sanitizer.sanitize_eq u s hrun.1 hrun.2, Operated.sanitize_eq u _ _ hrun.1 hrun.2]
    have hcleaned : (s.operated u).cleaned u text =
        s.maskKnownSecrets (if s.stripAnsi then stripAnsiCodes u text else text) := rfl
    rw [hcleaned]
    generalize s.maskKnownSecrets (if s.stripAnsi then stripAnsiCodes u text else text) = cleaned
    refine congrArg s.redactEntropy ?_
    have hconsidered : (s.operated u).considered u cleaned =
        if s.hasKeyword cleaned then s.patterns.map (SanitizePattern.rule u)
        else (s.patterns.drop s.customStart).map (SanitizePattern.rule u) := by
      rw [← s.operated_rules u]
      rfl
    rw [hconsidered]
    unfold Sanitizer.matchedIndices Sanitizer.customHits
    rw [hcustom]
    cases hkeyword : s.hasKeyword cleaned <;> cases hset : s.detectionSet <;>
      simp only [Bool.false_eq_true, if_true, if_false]
    · rw [s.applyPatterns_range u, applyRules_map]
    · rw [applyPatterns_setMatches, found_map, applyRules_map]
    · rw [range_eq_range', applyRules_map]
      exact s.applyPatterns_range u 0 cleaned
    · rw [applyPatterns_setMatches, found_map, applyRules_map, drop_zero]
  · rw [Operated.sanitize_of_skipped u _ _ hrun, Sanitizer.sanitize]
    by_cases henabled : s.enabled = true
    · have hshort : utf8Len text < 4 := by
        by_contra hlong
        exact hrun ⟨henabled, Nat.le_of_not_lt hlong⟩
      rw [if_neg (by simp [henabled]), if_pos hshort]
    · rw [if_pos (by simpa using henabled)]

/-- At its turn a rule that the text did not match replaces nothing. -/
def Narrow (rules : List Rule) (text : Text) : Prop :=
  ∀ front rule back, rules = front ++ rule :: back → rule.isMatch text = false →
    rule.replaceAll (applyRules front text) = applyRules front text

theorem applyRules_concat (rules : List Rule) (rule : Rule) (text : Text) :
    applyRules (rules ++ [rule]) text = rule.replaceAll (applyRules rules text) := by
  rw [applyRules, foldl_append]
  rfl

theorem found_concat (rules : List Rule) (rule : Rule) (text : Text) :
    found (rules ++ [rule]) text = found rules text ++ if rule.isMatch text then [rule] else [] := by
  rw [found, filter_append, filter_singleton, Bool.cond_eq_ite]
  rfl

theorem narrow_iff (rules : List Rule) (text : Text) :
    Narrow rules text ↔ ∀ front back, rules = front ++ back →
      applyRules (found front text) text = applyRules front text := by
  constructor
  · intro hnarrow front
    induction front using reverseRecOn with
    | nil => exact fun _ _ => rfl
    | append_singleton front rule ih =>
      intro back hsplit
      rw [append_assoc, singleton_append] at hsplit
      have hfront := ih _ hsplit
      rw [found_concat, applyRules_concat]
      cases hmatch : rule.isMatch text with
      | true => rw [if_pos rfl, applyRules_concat, hfront]
      | false =>
        rw [if_neg Bool.false_ne_true, append_nil, hfront]
        exact (hnarrow front rule back hsplit hmatch).symm
  · intro hbeside front rule back hsplit hmatch
    have hbefore := hbeside front _ hsplit
    have hafter := hbeside (front ++ [rule]) back (by rw [hsplit, append_assoc,
      singleton_append])
    rw [found_concat, hmatch, if_neg Bool.false_ne_true, append_nil, applyRules_concat] at hafter
    exact hafter.symm.trans hbefore

/-- Without a rule that replaces at its turn what the text did not match before, the detection sets
do not show; and exactly then the two runs have the same text after each pattern. -/
theorem sanitize_of_narrow (u : Unicode) (s : Operated) (text : Text) :
    (Narrow (s.considered u (s.cleaned u text)) (s.cleaned u text) →
      s.sanitize u true text = s.sanitize u false text) ∧
    (Narrow (s.considered u (s.cleaned u text)) (s.cleaned u text) ↔
      ∀ front back, s.considered u (s.cleaned u text) = front ++ back →
        applyRules (found front (s.cleaned u text)) (s.cleaned u text) =
          applyRules front (s.cleaned u text)) := by
  refine ⟨fun hnarrow => ?_, narrow_iff _ _⟩
  by_cases hrun : s.builtin.enabled = true ∧ 4 ≤ utf8Len text
  · obtain ⟨henabled, hlength⟩ := hrun
    have hall := (narrow_iff _ _).mp hnarrow _ [] (append_nil _).symm
    rw [Operated.sanitize_eq u s true henabled hlength, Operated.sanitize_eq u s false henabled hlength,
      if_pos rfl, if_neg Bool.false_ne_true, hall]
  · rw [s.sanitize_of_skipped u true hrun, s.sanitize_of_skipped u false hrun]

/-- Operator patterns `alpha`, replaced by `beta`, and then `beta`, replaced by `gamma`, beside the
built-in ones: with the sets the text `alpha` stays at `beta`. -/
theorem replacement_matched_later :
    let pattern := fun found replacement : String =>
      SanitizePattern.rule .ascii ⟨lit false found, replacement.toList, none, .plausibleSecret⟩
    let s : Operated := ⟨.withDefaults none, [pattern "alpha" "beta", pattern "beta" "gamma"]⟩
    s.sanitize .ascii true "alpha" = "beta" ∧
      s.sanitize .ascii false "alpha" = "gamma" := by
  decide +kernel

end BridgeMcp.Security
