import BridgeMcp.Lib.TextScan
import BridgeMcp.Lib.Utf8Bytes

/-!
Redaction of tokens with a high entropy (`security/entropy.rs`). Positions in the text are byte
offsets, and `none` is a panic of a slice. Whether the Shannon entropy of a token reaches a threshold
is left open, and so are the numbers it is computed with.
-/
namespace BridgeMcp.Security.Entropy
open TextLib List

structure EntropyDetector (F : Type) where
  threshold : F
  hexThreshold : Option F
  minLength : ℕ
  whitelist : List Text
  enabled : Bool

def entropyRedacted : Text := "[HIGH_ENTROPY_REDACTED]"

def isDelimiter (c : Char) : Bool :=
  isWhitespace c || ['=', ':', '"', '\'', ','].contains c

def isHexDigit (c : Char) : Bool := (hexDigitValue c).isSome

def isSafeToken (token : Text) : Bool :=
  let numbered := token.dropWhile (· == 'v')
  ["/", "./", "~/", "http://", "https://"].any (fun start => start.toList.isPrefixOf token) ||
    (token.head? == some '#' && utf8Len token ≤ 7) ||
    (numbered.all (fun c => c.isAlphanum || c == '.' || c == '-') &&
      numbered.head?.any Char.isDigit && token.contains '.') ||
    token.all (fun c => c.isLower || c == '-') ||
    token.all (fun c => c.isUpper || c == '_') ||
    (utf8Len token == 36 && token.all (fun c => isHexDigit c || c == '-') &&
      token.count '-' == 4)

def isHexToken (token : Text) : Bool :=
  token.all isHexDigit && token.any Char.isDigit && token.any Char.isAlpha

section
variable {F : Type} (reaches : Text → F → Bool)

def EntropyDetector.shouldRedact (detector : EntropyDetector F) (token : Text) : Bool :=
  if utf8Len token < detector.minLength then false
  else if detector.whitelist.contains token then false
  else if isSafeToken token then false
  else if isHexToken token then
    match detector.hexThreshold with
    -- forty hexadecimal digits are a SHA-1
    | some threshold => utf8Len token != 40 && reaches token threshold
    | none => false
  else reaches token detector.threshold

end

/-- The loop over `char_indices`, at the byte `i` of the text, with what is left of it. -/
def tokensFrom (text : Text) (i : ℕ) (start : Option ℕ) : Text → Option (List (ℕ × Text))
  | [] =>
    match start with
    | some s => (slice text s (utf8Len text)).map fun token => [(s, token)]
    | none => some []
  | c :: rest =>
    if isDelimiter c then
      match start with
      | some s => do
          let token ← slice text s i
          let tokens ← tokensFrom text (i + c.utf8Size) none rest
          some ((s, token) :: tokens)
      | none => tokensFrom text (i + c.utf8Size) none rest
    else
      match start with
      | some s => tokensFrom text (i + c.utf8Size) (some s) rest
      | none => tokensFrom text (i + c.utf8Size) (some i) rest

def tokensWithOffsets (text : Text) : Option (List (ℕ × Text)) := tokensFrom text 0 none text

def isBase64Byte (b : UInt8) : Bool :=
  (48 ≤ b && b ≤ 57) || (65 ≤ b && b ≤ 90) || (97 ≤ b && b ≤ 122) || b == 43 || b == 47

def endsCleanly (c : Char) : Bool :=
  isWhitespace c || ['"', '\'', ',', ':', ']', '\x7d'].contains c

def base64PaddingAfter (text : Text) (tokenEnd : ℕ) (token : Text) : Option ℕ := do
  let rest ← slice text tokenEnd (utf8Len text)
  let run := ((utf8Bytes rest).takeWhile (· == 61)).length
  if run = 0 ∨ 2 < run then some 0
  else
    let base64Shaped := (utf8Bytes token).all isBase64Byte
    if !base64Shaped || (utf8Len token + run) % 4 != 0 then some 0
    else do
      let afterRun ← slice rest run (utf8Len rest)
      if afterRun.head?.all endsCleanly then some run else some 0

section
variable {F : Type} (reaches : Text → F → Bool)

def EntropyDetector.redactFrom (detector : EntropyDetector F) (text : Text) :
    List (ℕ × Text) → ℕ → Text → Option Text
  | [], copiedUpTo, out => do
      let rest ← slice text copiedUpTo (utf8Len text)
      some (out ++ rest)
  | (start, token) :: tokens, copiedUpTo, out =>
    if detector.shouldRedact reaches token then do
      let before ← slice text copiedUpTo start
      let tokenEnd := start + utf8Len token
      let padding ← base64PaddingAfter text tokenEnd token
      detector.redactFrom text tokens (tokenEnd + padding) (out ++ before ++ entropyRedacted)
    else detector.redactFrom text tokens copiedUpTo out

def EntropyDetector.redact (detector : EntropyDetector F) (text : Text) : Option Text :=
  if !detector.enabled || utf8Len text < detector.minLength then some text
  else do
    let tokens ← tokensWithOffsets text
    detector.redactFrom reaches text tokens 0 []

end

/-- A longest run of characters that are no delimiters, and the delimiters after it. -/
structure Word where
  token : Text
  gap : Text
  token_ne : token ≠ []
  token_plain : ∀ c ∈ token, isDelimiter c = false
  gap_delimiters : ∀ c ∈ gap, isDelimiter c = true

def plain (words : List Word) : Text :=
  words.flatMap fun word => word.token ++ word.gap

/-- The text is delimiters and then the words, with a gap between any two of them. -/
structure Laid (text lead : Text) (words : List Word) : Prop where
  text_eq : text = lead ++ plain words
  lead_delimiters : ∀ c ∈ lead, isDelimiter c = true
  apart : ∀ word ∈ words.dropLast, word.gap ≠ []

def offsets : ℕ → List Word → List (ℕ × Text)
  | _, [] => []
  | pos, word :: words =>
    (pos, word.token) :: offsets (pos + utf8Len (word.token ++ word.gap)) words

/-- How much of the text after a token is its base64 padding. -/
def padding (token rest : Text) : ℕ :=
  let run := (rest.takeWhile (· == '=')).length
  if run = 0 ∨ 2 < run then 0
  else if !(utf8Bytes token).all isBase64Byte || (utf8Len token + run) % 4 != 0 then 0
  else if (rest.drop run).head?.all endsCleanly then run else 0

def rewritten (flagged : Text → Bool) : List Word → Text
  | [] => []
  | word :: words =>
    (if flagged word.token then
      entropyRedacted ++ word.gap.drop (padding word.token (word.gap ++ plain words))
    else word.token ++ word.gap) ++ rewritten flagged words

theorem plain_cons (word : Word) (words : List Word) :
    plain (word :: words) = word.token ++ (word.gap ++ plain words) := by
  rw [plain, flatMap_cons, append_assoc]
  rfl

theorem exists_laid (text : Text) : ∃ lead words, Laid text lead words := by
  induction text with
  | nil => exact ⟨[], [], rfl, nofun, nofun⟩
  | cons c text ih =>
    obtain ⟨lead, words, rfl, hlead, hapart⟩ := ih
    cases hc : isDelimiter c with
    | true => exact ⟨c :: lead, words, rfl, forall_mem_cons.mpr ⟨hc, hlead⟩, hapart⟩
    | false =>
      have hplain : ∀ d ∈ [c], isDelimiter d = false := forall_mem_singleton.mpr hc
      cases lead with
      | cons d lead =>
        -- a token of one character before the delimiters
        refine ⟨[], ⟨[c], d :: lead, cons_ne_nil _ _, hplain, hlead⟩ :: words, ?_, nofun, ?_⟩
        · rw [nil_append, plain_cons]
          rfl
        · cases words with
          | nil => exact nofun
          | cons word words =>
            rw [dropLast_cons_cons]
            exact forall_mem_cons.mpr ⟨cons_ne_nil _ _, hapart⟩
      | nil =>
        cases words with
        | nil =>
          refine ⟨[], [⟨[c], [], cons_ne_nil _ _, hplain, nofun⟩], ?_, nofun, nofun⟩
          rfl
        | cons word words =>
          -- the first token is one character longer
          refine ⟨[], ⟨c :: word.token, word.gap, cons_ne_nil _ _,
            forall_mem_cons.mpr ⟨hc, word.token_plain⟩, word.gap_delimiters⟩ :: words,
            ?_, nofun, ?_⟩
          · rw [nil_append, nil_append, plain_cons, plain_cons]
            rfl
          · cases words with
            | nil => exact nofun
            | cons next words =>
              rw [dropLast_cons_cons] at hapart ⊢
              obtain ⟨hgap, hrest⟩ := forall_mem_cons.mp hapart
              exact forall_mem_cons.mpr ⟨hgap, hrest⟩

section
variable (text : Text)

theorem tokensFrom_lead {lead : Text} (hlead : ∀ c ∈ lead, isDelimiter c = true) (i : ℕ)
    (rest : Text) :
    tokensFrom text i none (lead ++ rest) = tokensFrom text (i + utf8Len lead) none rest := by
  induction lead generalizing i with
  | nil => rfl
  | cons c lead ih =>
    obtain ⟨hc, hlead⟩ := forall_mem_cons.mp hlead
    rw [cons_append, tokensFrom, if_pos hc, ih hlead, utf8Len_cons, Nat.add_assoc]

theorem tokensFrom_token {token : Text} (htoken : ∀ c ∈ token, isDelimiter c = false) (s i : ℕ)
    (rest : Text) :
    tokensFrom text i (some s) (token ++ rest) =
      tokensFrom text (i + utf8Len token) (some s) rest := by
  induction token generalizing i with
  | nil => rfl
  | cons c token ih =>
    obtain ⟨hc, htoken⟩ := forall_mem_cons.mp htoken
    rw [cons_append, tokensFrom, if_neg (Bool.eq_false_iff.mp hc), ih htoken, utf8Len_cons,
      Nat.add_assoc]

theorem tokensFrom_start {token : Text} (hne : token ≠ [])
    (htoken : ∀ c ∈ token, isDelimiter c = false) (i : ℕ) (rest : Text) :
    tokensFrom text i none (token ++ rest) =
      tokensFrom text (i + utf8Len token) (some i) rest := by
  cases token with
  | nil => exact absurd rfl hne
  | cons c token =>
    obtain ⟨hc, htoken⟩ := forall_mem_cons.mp htoken
    rw [cons_append, tokensFrom, if_neg (Bool.eq_false_iff.mp hc),
      tokensFrom_token text htoken, utf8Len_cons, Nat.add_assoc]

end

variable {words : List Word}

theorem tokensFrom_words {text front : Text}
    (htext : text = front ++ plain words) (hapart : ∀ word ∈ words.dropLast, word.gap ≠ []) :
    tokensFrom text (utf8Len front) none (plain words) =
      some (offsets (utf8Len front) words) := by
  induction words generalizing front with
  | nil => rfl
  | cons word words ih =>
    rw [plain_cons] at htext ⊢
    rw [tokensFrom_start text word.token_ne word.token_plain]
    have htoken : slice text (utf8Len front) (utf8Len front + utf8Len word.token) =
        some word.token := by
      rw [htext]
      exact slice_append _ _ _
    cases hgap : word.gap with
    | nil =>
      -- the last token goes to the end of the text
      obtain rfl : words = [] := by
        cases words with
        | nil => rfl
        | cons next words =>
          rw [dropLast_cons_cons] at hapart
          exact absurd hgap (hapart word mem_cons_self)
      have hlen : utf8Len text = utf8Len front + utf8Len word.token := by
        rw [htext, hgap, utf8Len_append]
        exact congrArg (utf8Len front + utf8Len ·) (append_nil _)
      change (slice text (utf8Len front) (utf8Len text)).map _ = _
      rw [hlen, htoken]
      rfl
    | cons d gap =>
      have hdelimiters := word.gap_delimiters
      rw [hgap] at hdelimiters
      obtain ⟨hd, hdelimiters⟩ := forall_mem_cons.mp hdelimiters
      have hnext : text = (front ++ (word.token ++ word.gap)) ++ plain words := by
        rw [htext]
        simp only [append_assoc]
      have hrest := ih hnext fun other hother => hapart other (by
        cases words with
        | nil => cases hother
        | cons next words => exact mem_cons_of_mem _ hother)
      have hpos : utf8Len (front ++ (word.token ++ word.gap)) =
          utf8Len front + utf8Len word.token + d.utf8Size + utf8Len gap := by
        rw [utf8Len_append, utf8Len_append, hgap, utf8Len_cons]
        omega
      rw [cons_append, tokensFrom, if_pos hd, htoken, tokensFrom_lead text hdelimiters, ← hpos, hrest, offsets, utf8Len_append front]
      rfl

theorem tokensWithOffsets_laid {text lead : Text} (h : Laid text lead words) :
    tokensWithOffsets text = some (offsets (utf8Len lead) words) := by
  have hscan := tokensFrom_lead text h.lead_delimiters 0 (plain words)
  rw [← h.text_eq, Nat.zero_add] at hscan
  rw [tokensWithOffsets, hscan, tokensFrom_words h.text_eq h.apart]

theorem takeWhile_bytes (s : Text) :
    ((utf8Bytes s).takeWhile (· == 61)).length = (s.takeWhile (· == '=')).length := by
  induction s with
  | nil => rfl
  | cons c s ih =>
    rw [utf8Bytes_cons]
    by_cases hc : c = '='
    · subst hc
      exact congrArg (· + 1) ih
    · rw [takeWhile_cons_of_neg (by simpa using hc)]
      obtain ⟨lead, tail, hencode, -⟩ := firstChar_encode c []
      have hlead : lead ≠ 61 := by
        rintro rfl
        exact hc (eq_of_encode_cons (by decide) hencode)
      rw [hencode, cons_append, takeWhile_cons_of_neg (by simpa using hlead)]
      rfl

theorem padding_le (token rest : Text) :
    padding token rest ≤ (rest.takeWhile (· == '=')).length := by
  unfold padding
  dsimp only
  split_ifs <;> omega

theorem utf8Len_take {rest : Text} {n : ℕ} (hn : n ≤ (rest.takeWhile (· == '=')).length) :
    utf8Len (rest.take n) = n := by
  induction n generalizing rest with
  | zero => rfl
  | succ n ih =>
    cases rest with
    | nil => exact absurd hn (Nat.not_succ_le_zero n)
    | cons c rest =>
      by_cases hc : c = '='
      · subst hc
        have hrest : n ≤ (rest.takeWhile (· == '=')).length := Nat.le_of_succ_le_succ hn
        rw [take_succ_cons, utf8Len_cons, ih hrest]
        exact Nat.add_comm 1 n
      · rw [takeWhile_cons_of_neg (by simpa using hc)] at hn
        exact absurd hn (Nat.not_succ_le_zero n)

theorem slice_rest (front rest : Text) :
    slice (front ++ rest) (utf8Len front) (utf8Len (front ++ rest)) = some rest := by
  have hslice := slice_append front rest []
  rwa [append_nil, ← utf8Len_append] at hslice

theorem base64PaddingAfter_eq (front token rest : Text) :
    base64PaddingAfter (front ++ rest) (utf8Len front) token = some (padding token rest) := by
  have hafter : slice rest (rest.takeWhile (· == '=')).length (utf8Len rest) =
      some (rest.drop (rest.takeWhile (· == '=')).length) := by
    have hslice := slice_rest (rest.take (rest.takeWhile (· == '=')).length)
      (rest.drop (rest.takeWhile (· == '=')).length)
    rwa [take_append_drop, utf8Len_take (Nat.le_refl _)] at hslice
  unfold base64PaddingAfter padding
  rw [slice_rest]
  simp only [takeWhile_bytes, hafter, Option.bind_eq_bind, Option.bind_some]
  split_ifs <;> rfl

theorem takeWhile_gap (gap : Text) (words : List Word) :
    (gap ++ plain words).takeWhile (· == '=') = gap.takeWhile (· == '=') := by
  induction gap with
  | nil =>
    cases words with
    | nil => rfl
    | cons word words =>
      obtain ⟨c, token, htoken⟩ := exists_cons_of_ne_nil word.token_ne
      have hc : c ≠ '=' := by
        rintro rfl
        have hplain := word.token_plain '=' (htoken ▸ mem_cons_self)
        exact absurd hplain (by decide)
      rw [plain_cons, htoken, nil_append, cons_append,
        takeWhile_cons_of_neg (by simpa using hc)]
      rfl
  | cons c gap ih => simp only [cons_append, takeWhile_cons, ih]

section
variable {F : Type} {reaches : Text → F → Bool} {detector : EntropyDetector F}

theorem redactFrom_words {text front pending : Text}
    (htext : text = front ++ (pending ++ plain words)) (out : Text) :
    detector.redactFrom reaches text (offsets (utf8Len (front ++ pending)) words) (utf8Len front)
        out =
      some (out ++ (pending ++ rewritten (detector.shouldRedact reaches) words)) := by
  induction words generalizing front pending out with
  | nil =>
    have hrest : slice text (utf8Len front) (utf8Len text) = some pending := by
      have hplain : pending ++ plain [] = pending := append_nil _
      rw [hplain] at htext
      rw [htext]
      exact slice_rest front pending
    rw [offsets, EntropyDetector.redactFrom, hrest, rewritten, append_nil]
    rfl
  | cons word words ih =>
    rw [plain_cons] at htext
    rw [offsets, EntropyDetector.redactFrom, rewritten]
    cases hflag : detector.shouldRedact reaches word.token with
    | false =>
      rw [if_neg Bool.false_ne_true, if_neg Bool.false_ne_true]
      have hnext : text = front ++ ((pending ++ (word.token ++ word.gap)) ++ plain words) := by
        rw [htext]
        simp only [append_assoc]
      have hkept := ih hnext out
      rw [← append_assoc, utf8Len_append (front ++ pending)] at hkept
      rw [hkept, append_assoc pending]
    | true =>
      rw [if_pos rfl, if_pos rfl]
      have hcut := padding_le word.token (word.gap ++ plain words)
      have hpadding := base64PaddingAfter_eq (front ++ pending ++ word.token) word.token
        (word.gap ++ plain words)
      generalize padding word.token (word.gap ++ plain words) = n at hcut hpadding ⊢
      rw [takeWhile_gap] at hcut
      have hwhole : text =
          front ++ pending ++ word.token ++ (word.gap ++ plain words) := by
        rw [htext]
        simp only [append_assoc]
      have hbefore : slice text (utf8Len front) (utf8Len (front ++ pending)) = some pending := by
        rw [htext, utf8Len_append]
        exact slice_append _ _ _
      have hnext : text = (front ++ pending ++ word.token ++ word.gap.take n) ++
          (word.gap.drop n ++ plain words) := by
        rw [hwhole, append_assoc (front ++ pending ++ word.token),
          ← append_assoc (word.gap.take n), take_append_drop]
      have hend : utf8Len (front ++ pending ++ word.token ++ word.gap.take n) =
          utf8Len (front ++ pending) + utf8Len word.token + n := by
        rw [utf8Len_append, utf8Len_take hcut, utf8Len_append (front ++ pending)]
      have hpos : utf8Len (front ++ pending ++ word.token ++ word.gap.take n ++ word.gap.drop n) =
          utf8Len (front ++ pending) + utf8Len (word.token ++ word.gap) := by
        rw [append_assoc _ (word.gap.take n), take_append_drop, append_assoc,
          utf8Len_append (front ++ pending)]
      have hkept := ih hnext (out ++ pending ++ entropyRedacted)
      rw [hend, hpos] at hkept
      rw [← hwhole, utf8Len_append (front ++ pending)] at hpadding
      simp only [hbefore, hpadding, Option.bind_eq_bind, Option.bind_some]
      rw [hkept]
      simp only [append_assoc]

/-- The tokens are the longest runs of characters that are no delimiters, in order; an enabled
detector replaces those it flags, with their padding, and keeps everything else. -/
theorem redact_laid (reaches : Text → F → Bool) (detector : EntropyDetector F) {text : Text}
    (henabled : detector.enabled = true) (hlength : detector.minLength ≤ utf8Len text) :
    ∃ lead words, Laid text lead words ∧
      tokensWithOffsets text = some (offsets (utf8Len lead) words) ∧
      detector.redact reaches text =
        some (lead ++ rewritten (detector.shouldRedact reaches) words) := by
  obtain ⟨lead, words, hlaid⟩ := exists_laid text
  have htokens := tokensWithOffsets_laid hlaid
  refine ⟨lead, words, hlaid, htokens, ?_⟩
  have hskip : ¬ (!detector.enabled || utf8Len text < detector.minLength) = true := by
    simp [henabled, Nat.not_lt.mpr hlength]
  have htext : text = [] ++ (lead ++ plain words) := hlaid.text_eq
  have hloop : detector.redactFrom reaches text (offsets (utf8Len ([] ++ lead)) words) 0 [] = _ :=
    redactFrom_words htext []
  rw [EntropyDetector.redact, if_neg hskip, htokens]
  exact hloop

end

theorem redact_laid_padding :
    ∃ lead words, Laid "k: QUJDRA== été" lead words ∧
      tokensWithOffsets "k: QUJDRA== été" = some (offsets (utf8Len lead) words) ∧
      EntropyDetector.redact (fun token (_ : Unit) => token.contains 'Q') ⟨(), none, 1, [], true⟩
          "k: QUJDRA== été" =
        some (lead ++ rewritten (EntropyDetector.shouldRedact (fun token (_ : Unit) =>
          token.contains 'Q') ⟨(), none, 1, [], true⟩) words) :=
  redact_laid _ ⟨(), none, 1, [], true⟩ rfl (by decide)

theorem disabled_keeps_flagged :
    let detector : EntropyDetector Unit := ⟨(), none, 0, [], false⟩
    tokensWithOffsets "Az1".toList = some [(0, "Az1".toList)] ∧
      detector.shouldRedact (fun _ _ => true) "Az1".toList = true ∧
      detector.redact (fun _ _ => true) "Az1".toList = some "Az1".toList := by
  decide

end BridgeMcp.Security.Entropy
