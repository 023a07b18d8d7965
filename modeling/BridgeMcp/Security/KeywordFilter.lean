import BridgeMcp.Security.Sanitizer

/-!
The keyword pre-filter of the sanitizer against the table it stands for. A pattern that cannot match
without a keyword is never held back by the pre-filter; `suspects` are the others.
-/
namespace BridgeMcp.Security
open TextLib RegexLib List

/-- The patterns that are not known to need a keyword. Case folding makes more of them suspect in a
text with a long s or a Kelvin sign. -/
def suspects (text : Text) : List PatternDef :=
  defaultPatternDefs.filter fun d => !covers secretKeywords (!text.any foldsToAscii) d.pattern

variable {text : Text}

def plainSuspects : List String :=
  ["GitHub Fine-grained PAT", "K3s node token", "Docker login command with password",
    "Redis CONFIG GET requirepass", "AWS credentials", "Docker compose database passwords",
    "Database URL environment variables", "Database password variables",
    "Ansible Vault password", "Ansible become password", "Ansible SSH password",
    "GCP credentials", "Quoted JSON/YAML secret keys", "Quoted JSON/YAML prefixed secret keys",
    "SSH password/passphrase", "SMTP/Mail password"]

theorem suspects_plain (h : text.any foldsToAscii = false) :
    (suspects text).map PatternDef.description = plainSuspects := by
  rw [suspects, h]
  decide +kernel

theorem suspects_folding (h : text.any foldsToAscii = true) :
    plainSuspects ⊆ (suspects text).map PatternDef.description ∧
    ((suspects text).map PatternDef.description).filter (· ∉ plainSuspects) =
      ["Kubeconfig client key", "Terraform sensitive values", "Vault KV tabular output secrets",
        "AWS Session Token", "Ansible vault password file path", "GitLab CI tokens",
        "HashiCorp Vault token", "Consul HTTP token", "Docker registry password",
        "Quoted JSON/YAML password keys", "Quoted JSON/YAML prefixed password keys",
        "Terraform HCL secrets with quoted values (strong)",
        "Terraform HCL secrets with quoted values (weak)", "Generic passwords with quoted values",
        "Generic secrets with quoted values", "Generic password patterns", "DigitalOcean token",
        "NPM token", "PyPI token", "Generic API keys and auth tokens", "Generic secrets"] := by
  rw [suspects, h]
  decide +kernel

variable {u : Unicode}

theorem keyword_of_match {d : PatternDef} (hd : d ∈ defaultPatternDefs) (hsafe : d ∉ suspects text)
    (hmatch : isMatch u d.pattern text = true) : hasLiteral secretKeywords text = true := by
  have hcovers : covers secretKeywords (!text.any foldsToAscii) d.pattern = true := by
    by_contra hnot
    exact hsafe (mem_filter.mpr ⟨hd, by simpa using hnot⟩)
  refine isMatch_hasLiteral hcovers hmatch ?_
  intro hascii c hc
  simp only [Bool.not_eq_true', any_eq_false] at hascii
  simpa using hascii c hc

theorem keyword_of_rewrite {d : PatternDef} (hd : d ∈ defaultPatternDefs)
    (hsafe : d ∉ suspects text) (hrewrite : d.compile.apply u text ≠ text) :
    hasLiteral secretKeywords text = true := by
  refine keyword_of_match (u := u) hd hsafe ?_
  by_contra hno
  exact hrewrite (SanitizePattern.apply_of_no_match (p := d.compile) (Bool.not_eq_true _ ▸ hno))

/-- The suspects found in a text, applied to it in the order of the table. -/
def applySuspects (u : Unicode) (text : Text) : Text :=
  ((suspects text).filter fun d => isMatch u d.pattern text).foldl
    (fun result d => d.compile.apply u result) text

theorem found_suspects (hno : hasLiteral secretKeywords text = false) :
    defaultPatternDefs.filter (fun d => isMatch u d.pattern text) =
      (suspects text).filter fun d => isMatch u d.pattern text := by
  rw [suspects, filter_filter]
  refine filter_congr fun d hd => ?_
  by_cases hmatch : isMatch u d.pattern text = true
  · have hsuspect : d ∈ suspects text := by
      by_contra hsafe
      rw [keyword_of_match hd hsafe hmatch] at hno
      cases hno
    rw [(mem_filter.mp hsuspect).2, hmatch]
    rfl
  · simp [hmatch]

def defaultSanitizer : Sanitizer := .withDefaults none

def unfilteredSanitizer : Sanitizer := { defaultSanitizer with literalDetector := none }

theorem sanitizeSequential_default (hno : hasLiteral secretKeywords text = false) :
    unfilteredSanitizer.sanitizeSequential u text = applySuspects u text := by
  have happly := applyPatterns_setMatches u unfilteredSanitizer 0 text text
  have hpatterns : unfilteredSanitizer.patterns = defaultPatternDefs.map PatternDef.compile := rfl
  rw [drop_zero, hpatterns, filter_map, foldl_map] at happly
  change unfilteredSanitizer.applyPatterns u text (unfilteredSanitizer.setMatches u 0 text) = _
  rw [happly, applySuspects, ← found_suspects hno]
  rfl

theorem sanitize_without_keyword (hlen : 4 ≤ utf8Len text)
    (hno : hasLiteral secretKeywords (stripAnsiCodes u text) = false) :
    defaultSanitizer.sanitize u text = stripAnsiCodes u text ∧
    unfilteredSanitizer.sanitize u text = applySuspects u (stripAnsiCodes u text) := by
  have hshort : ¬ utf8Len text < 4 := Nat.not_lt.mpr hlen
  constructor
  · change (if utf8Len text < 4 then text else
      if (!hasLiteral secretKeywords (stripAnsiCodes u text)) = true then stripAnsiCodes u text
      else _) = _
    rw [if_neg hshort, hno]
    rfl
  · set stripped := stripAnsiCodes u text with hstripped
    have hsequential := sanitizeSequential_default (u := u) hno
    -- Nothing found means nothing applied, so the three ways out of the tiers agree.
    have hempty : (unfilteredSanitizer.setMatches u 0 stripped).isEmpty = true →
        unfilteredSanitizer.sanitizeSequential u stripped = stripped := by
      intro h
      change unfilteredSanitizer.applyPatterns u stripped
        (unfilteredSanitizer.setMatches u 0 stripped) = stripped
      rw [isEmpty_iff.mp h]
      rfl
    change (if utf8Len text < 4 then text else
      if (unfilteredSanitizer.setMatches u 0 stripped).isEmpty = true then stripped
      else if Sanitizer.parallelThreshold ≤ utf8Len stripped then
        if (unfilteredSanitizer.setMatches u 0 stripped).isEmpty = true then stripped
        else unfilteredSanitizer.sanitizeSequential u stripped
      else unfilteredSanitizer.sanitizeSequential u stripped) = _
    rw [if_neg hshort, ← hsequential]
    split
    · rename_i h
      exact (hempty h).symm
    · split <;> rfl

theorem sanitize_with_keyword
    (hkeyword : hasLiteral secretKeywords (stripAnsiCodes u text) = true) :
    defaultSanitizer.sanitize u text = unfilteredSanitizer.sanitize u text := by
  change (if utf8Len text < 4 then text else
    if (!hasLiteral secretKeywords (stripAnsiCodes u text)) = true then stripAnsiCodes u text
    else _) = _
  rw [hkeyword]
  rfl

/-- The pre-filter is sound for a text exactly when the text has a keyword or no suspect rewrites
it, and invisible exactly when, besides, the suspects applied in order change nothing. -/
theorem keyword_filter_exact (u : Unicode) (text : Text) :
    (((∃ d ∈ defaultPatternDefs, d.compile.apply u text ≠ text) →
        hasLiteral secretKeywords text = true) ↔
      hasLiteral secretKeywords text = true ∨
        ∀ d ∈ suspects text, d.compile.apply u text = text) ∧
    (defaultSanitizer.sanitize u text = unfilteredSanitizer.sanitize u text ↔
      utf8Len text < 4 ∨ hasLiteral secretKeywords (stripAnsiCodes u text) = true ∨
        applySuspects u (stripAnsiCodes u text) = stripAnsiCodes u text) := by
  constructor
  · constructor
    · intro h
      by_cases hkeyword : hasLiteral secretKeywords text = true
      · exact .inl hkeyword
      · right
        intro d hd
        by_contra hrewrite
        exact hkeyword (h ⟨d, (mem_filter.mp hd).1, hrewrite⟩)
    · rintro (hkeyword | hquiet) ⟨d, hd, hrewrite⟩
      · exact hkeyword
      · exact keyword_of_rewrite hd (fun hsuspect => hrewrite (hquiet d hsuspect)) hrewrite
  · by_cases hshort : utf8Len text < 4
    · refine iff_of_true ?_ (.inl hshort)
      change (if utf8Len text < 4 then text else _) = (if utf8Len text < 4 then text else _)
      rw [if_pos hshort, if_pos hshort]
    · by_cases hkeyword : hasLiteral secretKeywords (stripAnsiCodes u text) = true
      · exact iff_of_true (sanitize_with_keyword hkeyword) (.inr (.inl hkeyword))
      · obtain ⟨hfiltered, hunfiltered⟩ := sanitize_without_keyword (u := u)
          (Nat.not_lt.mp hshort) (Bool.not_eq_true _ ▸ hkeyword)
        rw [hfiltered, hunfiltered]
        simp only [hshort, hkeyword, Bool.false_eq_true, false_or]
        exact eq_comm

/-- The answer of Redis to `CONFIG GET requirepass`: it has no keyword, so the password it carries
is left in clear, although the pattern made for it would mask it. -/
theorem requirepass_left_in_clear :
    hasLiteral secretKeywords "\"requirepass\"\n\"hunter2\"" = false ∧
    (∃ d ∈ defaultPatternDefs, d.compile.apply .ascii "\"requirepass\"\n\"hunter2\"" ≠
      "\"requirepass\"\n\"hunter2\"") ∧
    defaultSanitizer.sanitize .ascii "\"requirepass\"\n\"hunter2\"" =
      "\"requirepass\"\n\"hunter2\"" ∧
    unfilteredSanitizer.sanitize .ascii "\"requirepass\"\n\"hunter2\"" =
      "\"requirepass\"\n\"[REDACTED]\"" := by
  have hrewrites : (defaultPatternDefs.any fun d =>
      decide (d.compile.apply .ascii "\"requirepass\"\n\"hunter2\"" ≠
        "\"requirepass\"\n\"hunter2\"")) = true := by
    decide +kernel
  obtain ⟨d, hd, hrewrite⟩ := any_eq_true.mp hrewrites
  exact ⟨by decide +kernel, ⟨d, hd, of_decide_eq_true hrewrite⟩, by decide +kernel,
    by decide +kernel⟩

end BridgeMcp.Security
