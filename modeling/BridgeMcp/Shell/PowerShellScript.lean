import BridgeMcp.Shell.PowerShellWords

/-!
A reader of PowerShell lines made of commands, `|` and `;`. A word is bare or quoted: only a bare one
can name a parameter. Text that the reader has no rule for is `none`.
-/
namespace BridgeMcp.Shell
open TextLib List

inductive PsToken where
  | word (text : Text) (bare : Bool)
  | pipe
  | semicolon
  deriving DecidableEq

structure PsReader where
  tokens : List PsToken
  cur : Text
  hasWord : Bool
  bare : Bool
  deriving DecidableEq

namespace PsReader

def start : PsReader := ⟨[], [], false, true⟩

def finishWord (st : PsReader) : PsReader :=
  if st.hasWord then ⟨st.tokens ++ [.word st.cur st.bare], [], false, true⟩
  else { st with cur := [], bare := true }

def emit (st : PsReader) (token : PsToken) : PsReader :=
  { st.finishWord with tokens := st.finishWord.tokens ++ [token] }

def push (st : PsReader) (c : Char) : PsReader := { st with cur := st.cur ++ [c], hasWord := true }

def quoted (st : PsReader) (cur : Text) : PsReader :=
  { st with cur := cur, hasWord := true, bare := false }

end PsReader

/-- The tokens of a line; `st` has what was read of it. -/
def readPs (st : PsReader) (input : Text) : Option (List PsToken) :=
  match input with
  | [] => some st.finishWord.tokens
  | c :: cs =>
    if c = ' ' ∨ c = '\t' then readPs st.finishWord cs
    else if c = ';' then readPs (st.emit .semicolon) cs
    else if c = '|' then
      if cs.head? = some '|' then none else readPs (st.emit .pipe) cs
    else if isPsOperator c ∨ (c = '#' ∧ ¬ st.hasWord) then none
    else if c ∈ psSingleQuotes then
      match _h : readVerbatim st.cur cs with
      | none => none
      | some (cur, rest) => readPs (st.quoted cur) rest
    else if c ∈ psDoubleQuotes then
      match _h : readExpandable st.cur cs with
      | none => none
      | some (cur, rest) => readPs (st.quoted cur) rest
    else if c = '`' then
      match cs with
      | [] => none
      | e :: rest => readPs (st.quoted (st.cur ++ [e])) rest
    else readPs (st.push c) cs
termination_by input.length
decreasing_by
  · simp
  · simp
  · simp
  · have hle := readVerbatim_length _h
    simp only [length_cons]
    omega
  · have hle := readExpandable_length _h
    simp only [length_cons]
    omega
  · simp only [length_cons]
    omega
  · simp

/-- What the builders write a line of. -/
inductive PsPiece where
  | bare (word : Text)
  | quoted (text : Text)
  | pipe
  | semicolon

def PsPiece.text : PsPiece → Text
  | .bare word => ' ' :: word
  | .quoted text => ' ' :: escape text .powerShell
  | .pipe => [' ', '|']
  | .semicolon => [';']

def PsPiece.token : PsPiece → PsToken
  | .bare word => .word word true
  | .quoted text => .word text false
  | .pipe => .pipe
  | .semicolon => .semicolon

/-- A character that stands for itself in a bare word. -/
def isPsBare (c : Char) : Bool := c.isAlpha || c == '-'

def PsPiece.WellFormed : PsPiece → Prop
  | .bare word => word ≠ [] ∧ word.all isPsBare = true
  | _ => True

variable (st : PsReader)

theorem PsReader.finishWord_eq :
    st.finishWord = ⟨st.finishWord.tokens, [], false, true⟩ := by
  unfold PsReader.finishWord
  split_ifs with hword
  · rfl
  · rw [Bool.eq_false_iff.mpr hword]

theorem PsReader.finishWord_emit (token : PsToken) :
    (st.emit token).finishWord.tokens = st.finishWord.tokens ++ [token] := by
  rw [PsReader.emit, st.finishWord_eq]
  rfl

theorem isPsBare_rules {c : Char} (h : isPsBare c = true) :
    ¬ (c = ' ' ∨ c = '\t') ∧ c ≠ ';' ∧ c ≠ '|' ∧ c ≠ '#' ∧ isPsOperator c = false ∧
      c ∉ psSingleQuotes ∧ c ∉ psDoubleQuotes ∧ c ≠ '`' := by
  have hno : ∀ d : Char, isPsBare d = false → c ≠ d := by
    rintro d hd rfl
    rw [h] at hd
    cases hd
  have hnone : ∀ l : List Char, l.all (fun d => !isPsBare d) = true → c ∉ l := by
    intro l hl hmem
    have hd := all_eq_true.mp hl c hmem
    rw [h] at hd
    cases hd
  refine ⟨?_, hno _ rfl, hno _ rfl, hno _ rfl, ?_, hnone _ rfl, hnone _ rfl, hno _ rfl⟩
  · exact not_or.mpr ⟨hno _ rfl, hno _ rfl⟩
  · rw [isPsOperator, contains_eq_mem, decide_eq_false_iff_not]
    exact hnone _ rfl

theorem readPs_bare_char {c : Char} (h : isPsBare c = true) (st : PsReader) (rest : Text) :
    readPs st (c :: rest) = readPs (st.push c) rest := by
  obtain ⟨hblank, hsemi, hpipe, hhash, hop, hsingle, hdouble, htick⟩ := isPsBare_rules h
  rw [readPs.eq_def]
  simp only [if_neg hblank, if_neg hsemi, if_neg hpipe, hop, hhash, if_neg hsingle, if_neg hdouble,
    if_neg htick, Bool.false_eq_true, false_and, or_self, if_false]

theorem readPs_bare {word : Text} (h : word.all isPsBare = true) (st : PsReader) (rest : Text) :
    word ≠ [] → readPs st (word ++ rest) =
      readPs { st with cur := st.cur ++ word, hasWord := true } rest := by
  induction word generalizing st with
  | nil => exact fun hne => absurd rfl hne
  | cons c word ih =>
    intro _
    rw [all_cons, Bool.and_eq_true] at h
    rw [cons_append, readPs_bare_char h.1]
    cases word with
    | nil => rfl
    | cons d word =>
      rw [ih h.2 _ (cons_ne_nil _ _)]
      simp only [PsReader.push, append_assoc, singleton_append]

theorem readPs_quote {st : PsReader} {cs cur rest : Text}
    (h : readVerbatim st.cur cs = some (cur, rest)) :
    readPs st ('\'' :: cs) = readPs (st.quoted cur) rest := by
  have hop : isPsOperator '\'' = false := by decide
  have hquote : '\'' ∈ psSingleQuotes := by decide
  rw [readPs.eq_def]
  simp only [hop, hquote, if_true, Bool.false_eq_true, if_false, false_or,
    show ¬('\'' = ' ' ∨ '\'' = '\t') by decide, show ¬ '\'' = ';' by decide,
    show ¬ '\'' = '|' by decide, show ¬ '\'' = '#' by decide, false_and]
  split
  · rename_i hnone
    rw [h] at hnone
    cases hnone
  · rename_i cur' rest' hsome
    rw [h] at hsome
    cases hsome
    rfl

theorem readPs_blank (rest : Text) :
    readPs st (' ' :: rest) = readPs st.finishWord rest := by
  rw [readPs.eq_def]
  simp only [true_or, if_true]

theorem readPs_semicolon (rest : Text) :
    readPs st (';' :: rest) = readPs (st.emit .semicolon) rest := by
  rw [readPs.eq_def]
  simp only [show ¬(';' = ' ' ∨ ';' = '\t') by decide, if_true, if_false]

theorem readPs_pipe {rest : Text} (hrest : rest.head? ≠ some '|') :
    readPs st ('|' :: rest) = readPs (st.emit .pipe) rest := by
  rw [readPs.eq_def]
  simp only [show ¬('|' = ' ' ∨ '|' = '\t') by decide, show ¬ '|' = ';' by decide, if_true, if_false,
    if_neg hrest]

def psLine (pieces : List PsPiece) : Text := pieces.flatMap PsPiece.text

theorem psLine_head (pieces : List PsPiece) : ∀ c ∈ (psLine pieces).head?, c = ' ' ∨ c = ';' := by
  cases pieces with
  | nil => exact nofun
  | cons piece pieces => cases piece <;> rintro _ ⟨⟩ <;> simp

/-- A line of pieces is read as the tokens it was written for. -/
theorem readPs_psLine {pieces : List PsPiece} (h : ∀ piece ∈ pieces, piece.WellFormed)
    (st : PsReader) :
    readPs st (psLine pieces) = some (st.finishWord.tokens ++ pieces.map PsPiece.token) := by
  induction pieces generalizing st with
  | nil =>
    rw [psLine, flatMap_nil, readPs, map_nil, append_nil]
  | cons piece pieces ih =>
    obtain ⟨hpiece, hpieces⟩ := forall_mem_cons.mp h
    have hhead := psLine_head pieces
    have hstep : ∀ {st' : PsReader},
        readPs st (piece.text ++ psLine pieces) = readPs st' (psLine pieces) →
        st'.finishWord.tokens = st.finishWord.tokens ++ [piece.token] →
        readPs st (psLine (piece :: pieces)) =
          some (st.finishWord.tokens ++ (piece :: pieces).map PsPiece.token) := by
      intro st' hread htokens
      rw [psLine, flatMap_cons, ← psLine, hread, ih hpieces, htokens, append_assoc,
        map_cons, singleton_append]
    have hfresh := st.finishWord_eq
    cases piece with
    | bare word =>
      refine hstep ((readPs_blank _ _).trans (readPs_bare hpiece.2 _ _ hpiece.1)) ?_
      rw [hfresh]
      rfl
    | quoted text =>
      have hquoted : readVerbatim st.finishWord.cur
          (escapePsSingleQuotedContent text ++ '\'' :: psLine pieces) =
          some (text, psLine pieces) := by
        rw [hfresh]
        apply readVerbatim_quoted
        intro c hc
        cases hhead c hc with
        | inl hblank =>
          rw [hblank]
          decide
        | inr hsemi =>
          rw [hsemi]
          decide
      have htext : PsPiece.text (.quoted text) ++ psLine pieces = ' ' :: '\'' ::
          (escapePsSingleQuotedContent text ++ '\'' :: psLine pieces) := by
        simp [PsPiece.text, escape]
      have hread : readPs st (PsPiece.text (.quoted text) ++ psLine pieces) =
          readPs (st.finishWord.quoted text) (psLine pieces) := by
        rw [htext, readPs_blank, readPs_quote hquoted]
      exact hstep hread rfl
    | pipe =>
      refine hstep ((readPs_blank _ _).trans (readPs_pipe _ ?_)) ?_
      · intro hpipe
        cases hhead '|' hpipe with
        | inl heq => cases heq
        | inr heq => cases heq
      · rw [st.finishWord.finishWord_emit, hfresh]
        rfl
    | semicolon =>
      exact hstep (readPs_semicolon _ _) (st.finishWord_emit .semicolon)

end BridgeMcp.Shell
