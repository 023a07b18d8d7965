import BridgeMcp.Shell.Words

/-!
The PowerShell reader of the fuzz oracles (`fuzz/src/lib.rs`, `read_verbatim` and
`powershell_words`) and the round trip of the PowerShell quoting through it.
-/
namespace BridgeMcp.Shell
open TextLib List

def psDoubleQuotes : List Char := ['"', '\u201C', '\u201D', '\u201E']

/-- The body of a verbatim string whose opening quote was just consumed: the value read so far
extends `cur`, and the text after the closing quote is returned with it. A pair of single-quote
characters is the second of the two; the end of the input before a lone one is `none`. -/
def readVerbatim (cur : Text) : Text → Option (Text × Text)
  | [] => none
  | [q] => if q ∈ psSingleQuotes then some (cur, []) else none
  | q :: next :: rest =>
    if q ∈ psSingleQuotes then
      if next ∈ psSingleQuotes then readVerbatim (cur ++ [next]) rest
      else some (cur, next :: rest)
    else readVerbatim (cur ++ [q]) (next :: rest)

/-- The body of an expandable string, up to any double-quote character. -/
def readExpandable (cur : Text) : Text → Option (Text × Text)
  | [] => none
  | e :: rest =>
    if e ∈ psDoubleQuotes then some (cur, rest)
    else if e = '$' then none
    else if e = '`' then
      match rest with
      | [] => none
      | e :: rest => readExpandable (cur ++ [e]) rest
    else readExpandable (cur ++ [e]) rest

variable {cur input value rest : Text}

theorem readVerbatim_length (h : readVerbatim cur input = some (value, rest)) :
    rest.length ≤ input.length := by
  fun_induction readVerbatim cur input with
  | case1 => cases h
  | case2 cur q hq =>
    cases h
    simp
  | case3 => cases h
  | case4 cur q next rest' hq hnext ih =>
    have hle := ih h
    simp only [length_cons]
    omega
  | case5 cur q next rest' hq hnext =>
    cases h
    simp
  | case6 cur q next rest' hq ih =>
    have hle := ih h
    simp only [length_cons] at hle ⊢
    omega

theorem readExpandable_length (h : readExpandable cur input = some (value, rest)) :
    rest.length ≤ input.length := by
  fun_induction readExpandable cur input with
  | case1 => cases h
  | case2 cur e rest' he =>
    cases h
    simp
  | case3 => cases h
  | case4 => cases h
  | case5 cur he hd e rest' ih =>
    have hle := ih h
    simp only [length_cons]
    omega
  | case6 cur e rest' he hd hb ih =>
    have hle := ih h
    simp only [length_cons]
    omega

/-- An unquoted character that PowerShell reads as an operator or an expansion. -/
def isPsOperator (c : Char) : Bool :=
  [';', '|', '&', '<', '>', '\n', '\r', '(', ')', '{', '}', '@', ',', '$'].contains c

def splitPsWords (st : WordState) (input : Text) : Option (List Text) :=
  match input with
  | [] => some st.finishWord.words
  | c :: cs =>
    if c = ' ' ∨ c = '\t' then splitPsWords st.finishWord cs
    else if isPsOperator c then none
    else if c ∈ psSingleQuotes then
      match _h : readVerbatim st.cur cs with
      | none => none
      | some (cur, rest) => splitPsWords { st.mark with cur := cur } rest
    else if c ∈ psDoubleQuotes then
      match _h : readExpandable st.cur cs with
      | none => none
      | some (cur, rest) => splitPsWords { st.mark with cur := cur } rest
    else if c = '`' then
      match cs with
      | [] => none
      | e :: rest => splitPsWords (st.mark.push e) rest
    else splitPsWords (st.mark.push c) cs
termination_by input.length
decreasing_by
  · simp
  · have hle := readVerbatim_length _h
    simp only [length_cons]
    omega
  · have hle := readExpandable_length _h
    simp only [length_cons]
    omega
  · simp only [length_cons]
    omega
  · simp

def powershellWords (input : Text) : Option (List Text) := splitPsWords .start input

theorem splitPsWords_verbatim {st : WordState} {cs : Text}
    (h : readVerbatim st.cur cs = some (cur, rest)) :
    splitPsWords st ('\'' :: cs) = splitPsWords { st.mark with cur := cur } rest := by
  have hop : isPsOperator '\'' = false := by decide
  have hquote : '\'' ∈ psSingleQuotes := by decide
  rw [splitPsWords.eq_def]
  simp only [hop, hquote, if_true, Bool.false_eq_true, if_false,
    show ¬('\'' = ' ' ∨ '\'' = '\t') by decide]
  split
  · rename_i hnone
    rw [h] at hnone
    cases hnone
  · rename_i cur' rest' hsome
    rw [h] at hsome
    cases hsome
    rfl

/-- The doubled content pairs up from the left with nothing left over, whatever quote characters
meet at its ends, so the outer closing quote is the first lone one. -/
theorem readVerbatim_quoted (s cur : Text) (hrest : ∀ c ∈ rest.head?, c ∉ psSingleQuotes) :
    readVerbatim cur (escapePsSingleQuotedContent s ++ '\'' :: rest) = some (cur ++ s, rest) := by
  induction s generalizing cur with
  | nil =>
    cases rest with
    | nil => simp [escapePsSingleQuotedContent, readVerbatim, psSingleQuotes]
    | cons c rest =>
      have hc := hrest c rfl
      rw [escapePsSingleQuotedContent, nil_append, readVerbatim, if_pos (by decide), if_neg hc,
        append_nil]
  | cons c s ih =>
    by_cases hc : c ∈ psSingleQuotes
    · simp only [escapePsSingleQuotedContent, hc, if_true, cons_append]
      rw [readVerbatim, if_pos hc, if_pos hc, ih]
      simp
    · simp only [escapePsSingleQuotedContent, hc, if_false, cons_append]
      -- The reader looks one character ahead, so the tail is named before it can step.
      obtain ⟨d, tail, htail⟩ : ∃ d tail,
          escapePsSingleQuotedContent s ++ '\'' :: rest = d :: tail := by
        cases hs : escapePsSingleQuotedContent s with
        | nil => exact ⟨'\'', rest, rfl⟩
        | cons d tail => exact ⟨d, tail ++ '\'' :: rest, rfl⟩
      rw [htail, readVerbatim, if_neg hc, ← htail, ih]
      simp

theorem readVerbatim_content (s cur : Text) :
    readVerbatim cur (escapePsSingleQuotedContent s ++ ['\'']) = some (cur ++ s, []) :=
  readVerbatim_quoted s cur nofun

/-- The quoted text is one opening quote followed by a body that the verbatim rules consume to
its end, with the original string as value; the word splitter agrees. -/
theorem powershell_escape_round_trip (s : Text) :
    ∃ q body, escape s .powerShell = q :: body ∧ q ∈ psSingleQuotes ∧
      readVerbatim [] body = some (s, []) ∧
      powershellWords (escape s .powerShell) = some [s] := by
  refine ⟨'\'', escapePsSingleQuotedContent s ++ ['\''], rfl, by decide, ?_, ?_⟩
  · simpa using readVerbatim_content s []
  · have hread : readVerbatim WordState.start.cur (escapePsSingleQuotedContent s ++ ['\'']) =
        some (s, []) := by
      simpa [WordState.start] using readVerbatim_content s []
    have hsplit : escape s .powerShell = '\'' :: (escapePsSingleQuotedContent s ++ ['\'']) := rfl
    rw [powershellWords, hsplit, splitPsWords_verbatim hread, splitPsWords]
    rfl

end BridgeMcp.Shell
