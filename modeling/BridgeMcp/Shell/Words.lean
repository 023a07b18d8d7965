import BridgeMcp.Shell.Quoting

/-!
The POSIX word splitter of the fuzz oracles (`fuzz/src/lib.rs`, `shell_words`) and the round trip
of the two quoting functions through it.

The two inner loops of the source are the quoted modes of one pass; a mode other than `unquoted` at
the end of the input is an unterminated quote.
-/
namespace BridgeMcp.Shell
open TextLib List

inductive QuoteMode where
  | unquoted
  | single
  | double
  deriving DecidableEq

structure WordState where
  words : List Text
  cur : Text
  hasWord : Bool
  deriving DecidableEq

open WordState

namespace WordState

def start : WordState := ⟨[], [], false⟩

def push (st : WordState) (c : Char) : WordState := { st with cur := st.cur ++ [c] }

def pushAll (st : WordState) (s : Text) : WordState := { st with cur := st.cur ++ s }

/-- `has_word = true`, which every non-blank character sets before it acts. -/
def mark (st : WordState) : WordState := { st with hasWord := true }

def finishWord (st : WordState) : WordState :=
  if st.hasWord then ⟨st.words ++ [st.cur], [], false⟩ else st

end WordState

/-- An unquoted character that a shell reads as an operator or an expansion. -/
def isOperator (c : Char) : Bool :=
  [';', '|', '&', '<', '>', '`', '\n', '\r', '(', ')', '$'].contains c

def splitWords : QuoteMode → WordState → Text → Option (List Text)
  | .unquoted, st, [] => some st.finishWord.words
  | .unquoted, st, c :: cs =>
    if c = ' ' ∨ c = '\t' then splitWords .unquoted st.finishWord cs
    else if isOperator c then none
    else if c = '\'' then splitWords .single st.mark cs
    else if c = '"' then splitWords .double st.mark cs
    else if c = '\\' then
      match cs with
      | [] => none
      | e :: cs => splitWords .unquoted (st.mark.push e) cs
    else splitWords .unquoted (st.mark.push c) cs
  | .single, _, [] => none
  | .single, st, c :: cs =>
    if c = '\'' then splitWords .unquoted st cs else splitWords .single (st.push c) cs
  | .double, _, [] => none
  | .double, st, c :: cs =>
    if c = '"' then splitWords .unquoted st cs
    else if c = '$' ∨ c = '`' then none
    else if c = '\\' then
      match cs with
      | [] => none
      | e :: cs => splitWords .double (st.push e) cs
    else splitWords .double (st.push c) cs

def shellWords (input : Text) : Option (List Text) := splitWords .unquoted .start input

/-- `rest` is read as if the word so far had been extended by exactly `w`. -/
def ReadsAs (quoted w : Text) : Prop :=
  ∀ st rest, splitWords .unquoted st (quoted ++ rest) =
    splitWords .unquoted (st.mark.pushAll w) rest

variable (st : WordState)

@[simp] theorem WordState.pushAll_nil (st : WordState) : st.pushAll [] = st := by
  simp [pushAll]

@[simp] theorem WordState.push_pushAll (st : WordState) (c : Char) (s : Text) :
    (st.push c).pushAll s = st.pushAll (c :: s) := by
  simp [push, pushAll]

@[simp] theorem WordState.mark_mark (st : WordState) : st.mark.mark = st.mark := rfl

theorem WordState.mark_push (c : Char) : (st.push c).mark = st.mark.push c := rfl

/-- Between two words: nothing read of the next one yet. -/
def WordState.idle (words : List Text) : WordState := ⟨words, [], false⟩

@[simp] theorem WordState.finishWord_pushAll (words : List Text) (w : Text) :
    ((idle words).mark.pushAll w).finishWord = idle (words ++ [w]) := rfl

theorem WordState.mark_of_hasWord {st : WordState} (h : st.hasWord = true) : st.mark = st := by
  obtain ⟨words, cur, hasWord⟩ := st
  simp only at h
  subst h
  rfl

theorem splitWords_blank (cs : Text) :
    splitWords .unquoted st (' ' :: cs) = splitWords .unquoted st.finishWord cs := by
  rw [splitWords.eq_def]
  simp

theorem splitWords_openSingle (cs : Text) :
    splitWords .unquoted st ('\'' :: cs) = splitWords .single st.mark cs := by
  rw [splitWords.eq_def]
  simp [isOperator]

theorem splitWords_backslash (e : Char) (cs : Text) :
    splitWords .unquoted st ('\\' :: e :: cs) = splitWords .unquoted (st.mark.push e) cs := by
  rw [splitWords.eq_def]
  simp [isOperator]

theorem splitWords_closeSingle (cs : Text) :
    splitWords .single st ('\'' :: cs) = splitWords .unquoted st cs := by
  rw [splitWords.eq_def]
  simp

theorem splitWords_single_push {c : Char} (hc : c ≠ '\'') (cs : Text) :
    splitWords .single st (c :: cs) = splitWords .single (st.push c) cs := by
  rw [splitWords.eq_def]
  simp [hc]

/-- Inside single quotes the replacement text for a quote leaves the mode, pushes one quote
through the backslash rule and comes back. -/
theorem splitWords_single_content (w rest : Text) (st : WordState) (hst : st.hasWord = true) :
    splitWords .single st (replaceChar '\'' ['\'', '\\', '\'', '\''] w ++ '\'' :: rest) =
      splitWords .unquoted (st.pushAll w) rest := by
  induction w generalizing st with
  | nil => rw [replaceChar_nil, nil_append, splitWords_closeSingle, pushAll_nil]
  | cons c w ih =>
    by_cases hc : c = '\''
    · subst c
      have hpush : (st.push '\'').hasWord = true := hst
      rw [replaceChar_cons_self]
      simp only [cons_append, nil_append]
      rw [splitWords_closeSingle, splitWords_backslash, splitWords_openSingle,
        mark_of_hasWord hst, mark_of_hasWord hpush, ih _ hpush,
        push_pushAll]
    · rw [replaceChar_cons_ne _ _ hc, cons_append, splitWords_single_push _ hc,
        ih (st.push c) hst, push_pushAll]

theorem escape_reads (w : Text) : ReadsAs (escape w .posix) w := by
  intro st rest
  have happ : escape w .posix ++ rest =
      '\'' :: (replaceChar '\'' ['\'', '\\', '\'', '\''] w ++ '\'' :: rest) := by
    simp [escape]
  rw [happ, splitWords_openSingle, splitWords_single_content w rest st.mark rfl]

theorem splitWords_plain {c : Char} (hc : isPlain c = true) (cs : Text) :
    splitWords .unquoted st (c :: cs) = splitWords .unquoted (st.mark.push c) cs := by
  -- Every character with a rule of its own fails the plain test.
  have special : [' ', '\t', ';', '|', '&', '<', '>', '`', '\n', '\r', '(', ')', '$',
      '\'', '"', '\\'].all (!isPlain ·) = true := by decide
  have distinct : ∀ x ∈ [' ', '\t', ';', '|', '&', '<', '>', '`', '\n', '\r', '(', ')', '$',
      '\'', '"', '\\'], c ≠ x := by
    rintro x hx rfl
    have hspecial := all_eq_true.mp special c hx
    rw [hc] at hspecial
    cases hspecial
  simp only [forall_mem_cons] at distinct
  rw [splitWords.eq_def]
  simp [isOperator, distinct]

theorem plain_reads (w : Text) (hne : w ≠ []) (hw : ∀ c ∈ w, isPlain c = true) : ReadsAs w w := by
  intro st rest
  induction w generalizing st with
  | nil => exact absurd rfl hne
  | cons c w ih =>
    rw [cons_append, splitWords_plain st (hw c (by simp))]
    cases w with
    | nil => rfl
    | cons d w =>
      rw [ih (by simp) (fun x hx => hw x (mem_cons_of_mem c hx))]
      simp [mark_push]

theorem posixWord_reads (w : Text) : ReadsAs (posixWord w) w := by
  unfold posixWord
  split
  · rename_i hplain
    simp only [Bool.and_eq_true, Bool.not_eq_true', isEmpty_eq_false_iff,
      all_eq_true] at hplain
    exact plain_reads w hplain.1 hplain.2
  · exact escape_reads w

theorem ReadsAs.append {a b v w : Text} (ha : ReadsAs a v) (hb : ReadsAs b w) :
    ReadsAs (a ++ b) (v ++ w) := by
  intro st rest
  rw [append_assoc, ha, hb, mark_of_hasWord rfl]
  simp [pushAll, mark]

theorem Quoting.apply_reads (q : Quoting) (w : Text) : ReadsAs (q.apply w) w := by
  cases q with
  | escape => exact escape_reads w
  | posixWord => exact posixWord_reads w

theorem splitWords_intercalate (ws : List (Text × Text)) (h : ∀ w ∈ ws, ReadsAs w.1 w.2)
    (words : List Text) :
    splitWords .unquoted (.idle words) ([' '].intercalate (ws.map Prod.fst)) =
      some (words ++ ws.map Prod.snd) := by
  induction ws generalizing words with
  | nil => simp [splitWords, idle, finishWord]
  | cons w ws ih =>
    have hw := h w (by simp)
    cases ws with
    | nil =>
      have hend := hw (.idle words) []
      rw [append_nil] at hend
      simp only [map_cons, map_nil, intercalate_singleton]
      rw [hend, splitWords, finishWord_pushAll]
      rfl
    | cons v vs =>
      have hrest := ih (fun x hx => h x (mem_cons_of_mem w hx)) (words ++ [w.2])
      simp only [map_cons, intercalate_cons_cons, append_assoc,
        singleton_append] at hrest ⊢
      rw [hw, splitWords_blank, finishWord_pushAll, hrest]

def spacedTexts (ws : List (Text × Text)) : Text := ws.flatMap fun w => ' ' :: w.1

theorem spacedTexts_append (ws ws' : List (Text × Text)) :
    spacedTexts (ws ++ ws') = spacedTexts ws ++ spacedTexts ws' :=
  flatMap_append

theorem intercalate_blank (w : Text × Text) (ws : List (Text × Text)) :
    [' '].intercalate ((w :: ws).map Prod.fst) = w.1 ++ spacedTexts ws := by
  induction ws generalizing w with
  | nil => simp [spacedTexts]
  | cons v ws ih =>
    have hrest := ih v
    simp only [spacedTexts, map_cons, flatMap_cons,
      intercalate_cons_cons] at hrest ⊢
    rw [hrest]
    simp

theorem shellWords_texts (w : Text × Text) (ws : List (Text × Text))
    (h : ∀ x ∈ w :: ws, ReadsAs x.1 x.2) :
    shellWords (w.1 ++ spacedTexts ws) = some (w.2 :: ws.map Prod.snd) := by
  rw [← intercalate_blank]
  exact splitWords_intercalate (w :: ws) h []

def quotedLine (ws : List (Quoting × Text)) : Text :=
  [' '].intercalate (ws.map fun w => w.1.apply w.2)

theorem shellWords_quotedLine (ws : List (Quoting × Text)) :
    shellWords (quotedLine ws) = some (ws.map Prod.snd) := by
  have hline := splitWords_intercalate (ws.map fun w => (w.1.apply w.2, w.2)) (by
    intro p hp
    obtain ⟨w, -, rfl⟩ := mem_map.mp hp
    exact w.1.apply_reads w.2) []
  simp only [map_map, nil_append] at hline
  exact hline

def spaced (ws : List (Quoting × Text)) : Text := ws.flatMap fun w => ' ' :: w.1.apply w.2

theorem spaced_append (ws ws' : List (Quoting × Text)) :
    spaced (ws ++ ws') = spaced ws ++ spaced ws' :=
  flatMap_append

theorem quotedLine_cons (w : Quoting × Text) (ws : List (Quoting × Text)) :
    quotedLine (w :: ws) = w.1.apply w.2 ++ spaced ws := by
  induction ws generalizing w with
  | nil => simp [quotedLine, spaced]
  | cons v ws ih =>
    have hrest := ih v
    simp only [quotedLine, spaced, map_cons, flatMap_cons,
      intercalate_cons_cons] at hrest ⊢
    rw [hrest]
    simp

theorem shellWords_spaced (w : Quoting × Text) (ws : List (Quoting × Text)) :
    shellWords (w.1.apply w.2 ++ spaced ws) = some (w.2 :: ws.map Prod.snd) := by
  rw [← quotedLine_cons, shellWords_quotedLine, map_cons]

/-- Quoting every element, each in either way, and joining with single blanks loses nothing: the
splitter returns the elements themselves and meets no operator. -/
theorem posix_quoting_round_trip (ws : List Text) (choice : ℕ → Quoting) :
    shellWords ([' '].intercalate (ws.mapIdx fun i w => (choice i).apply w)) = some ws := by
  have hline := shellWords_quotedLine (ws.zipIdx.map fun p => (choice p.2, p.1))
  simp only [quotedLine, map_map, Function.comp_def] at hline
  rw [mapIdx_eq_zipIdx_map, hline, zipIdx_map_fst]

end BridgeMcp.Shell
