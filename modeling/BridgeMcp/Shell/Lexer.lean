import BridgeMcp.Lib.Lines
import BridgeMcp.Shell.Quoting

/-!
The tokens of a command text by the POSIX rules: words after quote removal, operators, the number
in front of a redirection, line ends, and here-documents with a quoted delimiter.

A text is read character by character, so piece by piece (`lexFrom_append`). Expansions, globs,
comments, line continuations and double quotes make the lexer fail.
-/
namespace BridgeMcp.Shell
open TextLib LineLib List

inductive Lexeme where
  | word (text : Text)
  | ioNumber (digits : Text)
  | op (text : Text)
  | newline
  | hereDoc (body : Text)
  deriving DecidableEq

/-- `bare` tells whether nothing of the word was quoted so far. -/
inductive LexMode where
  | between
  | word (text : Text) (bare : Bool)
  | single (text : Text)
  | escaped (text : Text)
  | operator (text : Text)
  | body (delimiter body line : Text)
  deriving DecidableEq

/-- The tokens so far, the last one first, whether the next word is the delimiter of a here-document,
and the delimiters whose bodies start after the line. -/
structure Lexing where
  out : List Lexeme
  mode : LexMode
  hereDue : Bool
  pending : List Text
  deriving DecidableEq

def isWordChar (c : Char) : Bool := isPlain c || ['[', ']', '\x7b', '\x7d'].contains c

def operators : List Text :=
  ["(", ")", ";", ";;", "|", "||", "&", "&&", "<", "<<", "<&", ">", ">>", ">&"].map String.toList

namespace Lexing

def start : Lexing := ⟨[], .between, false, []⟩

def emit (st : Lexing) (token : Lexeme) : Lexing := { st with out := token :: st.out }

def nextBody (st : Lexing) : Lexing :=
  match st.pending with
  | [] => { st with mode := .between }
  | delimiter :: pending => { st with mode := .body delimiter [] [], pending := pending }

/-- The end of a word. A delimiter without quotes would have its body expanded. -/
def endWord (st : Lexing) (text : Text) (bare : Bool) : Option Lexing :=
  if st.hereDue then
    if bare then none
    else some { st with
      out := .word text :: st.out, mode := .between, hereDue := false
      pending := st.pending ++ [text] }
  else some { st with out := .word text :: st.out, mode := .between }

def endOperator (st : Lexing) (text : Text) : Lexing :=
  { st with out := .op text :: st.out, mode := .between, hereDue := text == "<<" }

def fresh (st : Lexing) (c : Char) : Option Lexing :=
  if c = ' ' ∨ c = '\t' then some st
  else if c = '\n' then some (st.emit .newline).nextBody
  else if c = '\'' then some { st with mode := .single [] }
  else if c = '\\' then some { st with mode := .escaped [] }
  else if operators.contains [c] then some { st with mode := .operator [c] }
  else if isWordChar c then some { st with mode := .word [c] true }
  else none

def step (st : Lexing) (c : Char) : Option Lexing :=
  match st.mode with
  | .between => st.fresh c
  | .word text bare =>
    if c = '\'' then some { st with mode := .single text }
    else if c = '\\' then some { st with mode := .escaped text }
    else if isWordChar c then some { st with mode := .word (text ++ [c]) bare }
    else if (c = '<' ∨ c = '>') ∧ bare ∧ text.all Char.isDigit then
      ({ st.emit (.ioNumber text) with mode := .between }).fresh c
    else (st.endWord text bare).bind fun st => st.fresh c
  | .single text =>
    if c = '\'' then some { st with mode := .word text false }
    else some { st with mode := .single (text ++ [c]) }
  | .escaped text => if c = '\n' then none else some { st with mode := .word (text ++ [c]) false }
  | .operator text =>
    if operators.contains (text ++ [c]) then some { st with mode := .operator (text ++ [c]) }
    else (st.endOperator text).fresh c
  | .body delimiter body line =>
    if c = '\n' then
      if line = delimiter then some (st.emit (.hereDoc body)).nextBody
      else some { st with mode := .body delimiter (body ++ line ++ ['\n']) [] }
    else some { st with mode := .body delimiter body (line ++ [c]) }

def close (st : Lexing) : Option (List Lexeme) :=
  match st.mode with
  | .between => if st.pending = [] then some st.out.reverse else none
  | .word text bare =>
    (st.endWord text bare).bind fun st => if st.pending = [] then some st.out.reverse else none
  | .operator text => if st.pending = [] then some (st.endOperator text).out.reverse else none
  | .body delimiter body line =>
    if line = delimiter ∧ st.pending = [] then some (st.emit (.hereDoc body)).out.reverse else none
  | _ => none

end Lexing

def lexFrom (st : Lexing) : Text → Option Lexing
  | [] => some st
  | c :: cs => (st.step c).bind fun st => lexFrom st cs

def lex (text : Text) : Option (List Lexeme) := (lexFrom .start text).bind Lexing.close

def isRedirection (op : Text) : Bool := op.any fun c => c == '<' || c == '>'

def simpleCommands : List Lexeme → List (List Text)
  | [] => [[]]
  | .word w :: rest =>
    match simpleCommands rest with
    | [] => [[w]]
    | command :: commands => (w :: command) :: commands
  | .op op :: .word w :: rest =>
    if isRedirection op then simpleCommands rest else [] :: simpleCommands (.word w :: rest)
  | .op _ :: rest | .newline :: rest => [] :: simpleCommands rest
  | .ioNumber _ :: rest | .hereDoc _ :: rest => simpleCommands rest

theorem lexFrom_append (st : Lexing) (a b : Text) :
    lexFrom st (a ++ b) = (lexFrom st a).bind fun st => lexFrom st b := by
  induction a generalizing st with
  | nil => rfl
  | cons c a ih =>
    rw [cons_append, lexFrom, lexFrom]
    cases st.step c with
    | none => rfl
    | some st => exact ih st

theorem lexFrom_then {st st' : Lexing} {a : Text} (h : lexFrom st a = some st') (b : Text) :
    lexFrom st (a ++ b) = lexFrom st' b := by
  rw [lexFrom_append, h, Option.bind_some]

section Quoted
variable (out : List Lexeme) (hereDue : Bool) (pending : List Text)

theorem lexFrom_single (w text : Text) :
    lexFrom ⟨out, .single text, hereDue, pending⟩
        (replaceChar '\'' ['\'', '\\', '\'', '\''] w ++ ['\'']) =
      some ⟨out, .word (text ++ w) false, hereDue, pending⟩ := by
  induction w generalizing text with
  | nil =>
    rw [append_nil]
    rfl
  | cons c w ih =>
    by_cases hc : c = '\''
    · subst c
      rw [replaceChar_cons_self]
      have hquote := ih (text ++ ['\''])
      rw [append_assoc, singleton_append] at hquote
      exact hquote
    · rw [replaceChar_cons_ne _ _ hc, cons_append, lexFrom, Lexing.step]
      simp only [if_neg hc, Option.bind_some]
      have hrest := ih (text ++ [c])
      rw [append_assoc, singleton_append] at hrest
      exact hrest

theorem lexFrom_escape (w : Text) :
    lexFrom ⟨out, .between, hereDue, pending⟩ (escape w .posix) =
      some ⟨out, .word w false, hereDue, pending⟩ :=
  lexFrom_single out hereDue pending w []

theorem lexFrom_escape_word (text w : Text) (bare : Bool) :
    lexFrom ⟨out, .word text bare, hereDue, pending⟩ (escape w .posix) =
      some ⟨out, .word (text ++ w) false, hereDue, pending⟩ :=
  lexFrom_single out hereDue pending w text

end Quoted

theorem escape_of_notMem {w : Text} (h : '\'' ∉ w) : escape w .posix = '\'' :: w ++ ['\''] := by
  rw [escape, replaceChar_of_notMem _ h]

section Body
variable (out : List Lexeme) (hereDue : Bool) (pending : List Text) {delimiter : Text}

theorem lexFrom_body_line {line : Text} (hline : '\n' ∉ line) (body start : Text) :
    lexFrom ⟨out, .body delimiter body start, hereDue, pending⟩ line =
      some ⟨out, .body delimiter body (start ++ line), hereDue, pending⟩ := by
  induction line generalizing start with
  | nil =>
    rw [append_nil]
    rfl
  | cons c line ih =>
    obtain ⟨hc, hrest⟩ := not_or.mp (mt mem_cons.mpr hline)
    have hnext := ih hrest (start ++ [c])
    rw [append_assoc, singleton_append] at hnext
    rw [lexFrom, Lexing.step]
    simp only [if_neg (Ne.symm hc), Option.bind_some]
    exact hnext

theorem lexFrom_body {content : Text} (h : delimiter ∉ content.splitOn '\n') (body : Text) :
    lexFrom ⟨out, .body delimiter body [], hereDue, pending⟩ (content ++ ['\n']) =
      some ⟨out, .body delimiter (body ++ content ++ ['\n']) [], hereDue, pending⟩ := by
  obtain ⟨parts, hparts, hplain, hne⟩ : ∃ parts : List Text, content.splitOn '\n' = parts ∧
      (∀ part ∈ parts, '\n' ∉ part) ∧ parts ≠ [] :=
    ⟨_, rfl, fun part hpart => (of_mem_splitOn hpart).1, splitOn_ne_nil _ _⟩
  have hcontent : content = ['\n'].intercalate parts := by
    rw [← hparts, intercalate_splitOn]
  rw [hparts] at h
  clear hparts
  induction parts generalizing content body with
  | nil => exact absurd rfl hne
  | cons line parts ih =>
    obtain ⟨hdelimiter, hrest⟩ := not_or.mp (mt mem_cons.mpr h)
    have hline : lexFrom ⟨out, .body delimiter body [], hereDue, pending⟩ line =
        some ⟨out, .body delimiter body line, hereDue, pending⟩ :=
      lexFrom_body_line out hereDue pending (hplain line mem_cons_self) body []
    have hend : lexFrom ⟨out, .body delimiter body line, hereDue, pending⟩ ['\n'] =
        some ⟨out, .body delimiter (body ++ line ++ ['\n']) [], hereDue, pending⟩ := by
      rw [lexFrom, Lexing.step]
      simp only [if_true, if_neg (Ne.symm hdelimiter)]
      rfl
    cases parts with
    | nil =>
      rw [hcontent, intercalate_singleton, lexFrom_then hline]
      exact hend
    | cons next parts =>
      have hsplit : content ++ ['\n'] =
          line ++ (['\n'] ++ (['\n'].intercalate (next :: parts) ++ ['\n'])) := by
        rw [hcontent, intercalate_cons_cons]
        simp
      have hnext := ih (body ++ line ++ ['\n']) hrest
        (fun part hpart => hplain part (mem_cons_of_mem line hpart))
        (cons_ne_nil _ _) rfl
      rw [hsplit, lexFrom_then hline, lexFrom_then hend, hnext, hcontent,
        intercalate_cons_cons]
      simp

end Body

end BridgeMcp.Shell
