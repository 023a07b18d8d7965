import BridgeMcp.Shell.Script

/-!
Command lines made of simple commands joined by `&&` and `||`: quoting, `~/`, `$NAME`, `$\x7bNAME\x7d`,
`$(command)`, assignments and redirections.

A line is read character by character, so piece by piece. What there is no rule for (globs, comments,
nested substitutions, login names after a tilde) makes the reader fail.
-/
namespace BridgeMcp.Shell.CommandLine
open TextLib List

/-- A part of a word. The flag tells whether it stands in quotes. -/
inductive Atom where
  | char (c : Char) (quoted : Bool)
  | tilde
  | parameter (name : Text) (quoted : Bool)
  | substitution (command : Text) (quoted : Bool)
  deriving DecidableEq

abbrev Word := List Atom

inductive Token where
  | word (w : Word)
  | ioNumber (digits : Text)
  | op (text : Text)
  deriving DecidableEq

/-- The flag tells whether an expansion stands between double quotes. -/
inductive Mode where
  | between
  | word (w : Word)
  | single (w : Word)
  | double (w : Word)
  | escaped (w : Word)
  | dollar (w : Word) (inDouble : Bool)
  | name (w : Word) (inDouble : Bool) (name : Text)
  | braced (w : Word) (inDouble : Bool) (name : Text)
  | command (w : Word) (inDouble : Bool) (text : Text)
  | operator (c : Char)
  deriving DecidableEq

structure Reader where
  out : List Token
  mode : Mode
  deriving DecidableEq

open Reader

def isOperatorChar (c : Char) : Bool := c == '&' || c == '|' || c == '<' || c == '>'

def isBlank (c : Char) : Bool := c == ' ' || c == '\t'

/-- The operators of two characters are those that repeat one. -/
def isDoubled (first second : Char) : Bool :=
  isOperatorChar first && first == second && first != '<'

def digitsOf : Word → Option Text
  | [] => some []
  | .char c false :: w => if c.isDigit then (digitsOf w).map (c :: ·) else none
  | _ => none

namespace Reader

def start : Reader := ⟨[], .between⟩

def inWord (out : List Token) (w : Word) (c : Char) : Option Reader :=
  if c = '\'' then some ⟨out, .single w⟩
  else if c = '"' then some ⟨out, .double w⟩
  else if c = '\\' then some ⟨out, .escaped w⟩
  else if c = '$' then some ⟨out, .dollar w false⟩
  else if isPlain c ∧ (w = [.tilde] → c = '/') then some ⟨out, .word (w ++ [.char c false])⟩
  else none

def fresh (out : List Token) (c : Char) : Option Reader :=
  if isBlank c then some ⟨out, .between⟩
  else if isOperatorChar c then some ⟨out, .operator c⟩
  else if c = '~' then some ⟨out, .word [.tilde]⟩
  else inWord out [] c

/-- A number right before a redirection is its descriptor. -/
def endWord (out : List Token) (w : Word) (next : Char) : List Token :=
  match if next = '<' ∨ next = '>' then digitsOf w else none with
  | some digits => if digits = [] then out ++ [.word w] else out ++ [.ioNumber digits]
  | none => out ++ [.word w]

def wordStep (out : List Token) (w : Word) (c : Char) : Option Reader :=
  if isBlank c then some ⟨out ++ [.word w], .between⟩
  else if isOperatorChar c then some ⟨endWord out w c, .operator c⟩
  else inWord out w c

def doubleStep (out : List Token) (w : Word) (c : Char) : Option Reader :=
  if c = '"' then some ⟨out, .word w⟩
  else if c = '$' then some ⟨out, .dollar w true⟩
  else if c = '`' ∨ c = '\\' then none
  else some ⟨out, .double (w ++ [.char c true])⟩

def back (inDouble : Bool) (w : Word) : Mode := if inDouble then .double w else .word w

def step (st : Reader) (c : Char) : Option Reader :=
  match st.mode with
  | .between => fresh st.out c
  | .word w => wordStep st.out w c
  | .single w =>
    if c = '\'' then some ⟨st.out, .word w⟩ else some ⟨st.out, .single (w ++ [.char c true])⟩
  | .double w => doubleStep st.out w c
  | .escaped w => if c = '\n' then none else some ⟨st.out, .word (w ++ [.char c true])⟩
  | .dollar w inDouble =>
    if c = '(' then some ⟨st.out, .command w inDouble []⟩
    else if c = '\x7b' then some ⟨st.out, .braced w inDouble []⟩
    else if isVariableChar c ∧ ¬ c.isDigit then some ⟨st.out, .name w inDouble [c]⟩
    else none
  | .name w inDouble name =>
    if isVariableChar c then some ⟨st.out, .name w inDouble (name ++ [c])⟩
    else if inDouble then doubleStep st.out (w ++ [.parameter name true]) c
    else wordStep st.out (w ++ [.parameter name false]) c
  | .braced w inDouble name =>
    if c = '\x7d' then some ⟨st.out, back inDouble (w ++ [.parameter name inDouble])⟩
    else if isVariableChar c then some ⟨st.out, .braced w inDouble (name ++ [c])⟩
    else none
  | .command w inDouble text =>
    if c = ')' then some ⟨st.out, back inDouble (w ++ [.substitution text inDouble])⟩
    else if isPlain c ∨ c = ' ' then some ⟨st.out, .command w inDouble (text ++ [c])⟩
    else none
  | .operator first =>
    if isDoubled first c then some ⟨st.out ++ [.op [first, c]], .between⟩
    else fresh (st.out ++ [.op [first]]) c

def close (st : Reader) : Option (List Token) :=
  match st.mode with
  | .between => some st.out
  | .word w => some (st.out ++ [.word w])
  | .name w false name => some (st.out ++ [.word (w ++ [.parameter name false])])
  | .operator c => some (st.out ++ [.op [c]])
  | _ => none

end Reader

def readFrom (st : Reader) : Text → Option Reader
  | [] => some st
  | c :: cs => (st.step c).bind fun st => readFrom st cs

def read (line : Text) : Option (List Token) := (readFrom .start line).bind close

theorem readFrom_append (st : Reader) (a b : Text) :
    readFrom st (a ++ b) = (readFrom st a).bind fun st => readFrom st b := by
  induction a generalizing st with
  | nil => rfl
  | cons c a ih =>
    rw [cons_append, readFrom, readFrom]
    cases st.step c with
    | none => rfl
    | some st => exact ih st

theorem readFrom_then {st st' : Reader} {a : Text} (h : readFrom st a = some st') (b : Text) :
    readFrom st (a ++ b) = readFrom st' b := by
  rw [readFrom_append, h, Option.bind_some]

/-- What stands between double quotes. -/
inductive Inner where
  | literal (text : Text)
  | parameter (name : Text)
  | braced (name : Text)
  deriving DecidableEq

namespace Inner

def text : Inner → Text
  | .literal text => text
  | .parameter name => '$' :: name
  | .braced name => '$' :: '\x7b' :: (name ++ ['\x7d'])

def atoms : Inner → Word
  | .literal text => text.map (.char · true)
  | .parameter name => [.parameter name true]
  | .braced name => [.parameter name true]

def isLiteralChar (c : Char) : Bool := c != '"' && c != '$' && c != '`' && c != '\\'

def isName : Text → Bool
  | [] => false
  | c :: name => isVariableChar c && !c.isDigit && name.all isVariableChar

def wellFormed : Inner → Bool
  | .literal text => text.all isLiteralChar
  | .parameter name => isName name
  | .braced name => name.all isVariableChar

/-- Parts in a row; a name is not followed by a character that would go on with it. -/
def allFormed : List Inner → Bool
  | [] => true
  | .parameter name :: rest =>
    isName name && (rest.flatMap text).head?.all (!isVariableChar ·) && allFormed rest
  | inner :: rest => inner.wellFormed && allFormed rest

end Inner

inductive Part where
  | bare (text : Text)
  | quoted (text : Text)
  | double (inner : List Inner)
  | substitution (command : Text)
  deriving DecidableEq

namespace Part

def text : Part → Text
  | .bare text => text
  | .quoted text => escape text .posix
  | .double inner => '"' :: (inner.flatMap Inner.text ++ ['"'])
  | .substitution command => '$' :: '(' :: (command ++ [')'])

def atoms : Part → Word
  | .bare text => text.map (.char · false)
  | .quoted text => text.map (.char · true)
  | .double inner => inner.flatMap Inner.atoms
  | .substitution command => [.substitution command false]

def wellFormed : Part → Bool
  | .bare text => !text.isEmpty && text.all isPlain
  | .quoted _ => true
  | .double inner => Inner.allFormed inner
  | .substitution command => command.all fun c => isPlain c || c == ' '

end Part

theorem plain_rules {c : Char} (h : isPlain c = true) :
    c ≠ '\'' ∧ c ≠ '"' ∧ c ≠ '\\' ∧ c ≠ '$' ∧ c ≠ '~' ∧ isBlank c = false ∧
      isOperatorChar c = false := by
  have hno : ∀ d : Char, isPlain d = false → c ≠ d := by
    rintro d hd rfl
    rw [h] at hd
    cases hd
  refine ⟨hno _ rfl, hno _ rfl, hno _ rfl, hno _ rfl, hno _ rfl, ?_, ?_⟩
  · simp [isBlank, hno ' ' rfl, hno '\t' rfl]
  · simp [isOperatorChar, hno '&' rfl, hno '|' rfl, hno '<' rfl, hno '>' rfl]

section
variable (out : List Token) (w : Word)
include out w

theorem readFrom_bare {text : Text} (h : text.all isPlain = true) (hw : w ≠ [.tilde]) :
    readFrom ⟨out, .word w⟩ text = some ⟨out, .word (w ++ text.map (.char · false))⟩ := by
  induction text generalizing w with
  | nil =>
    rw [map_nil, append_nil]
    rfl
  | cons c text ih =>
    rw [all_cons, Bool.and_eq_true] at h
    obtain ⟨hsingle, hdouble, hslash, hdollar, -, hblank, hop⟩ := plain_rules h.1
    have hstep : step ⟨out, .word w⟩ c = some ⟨out, .word (w ++ [.char c false])⟩ := by
      simp only [step, wordStep, hblank, hop, inWord, if_neg hsingle,
        if_neg hdouble, if_neg hslash, if_neg hdollar, h.1, hw, false_implies, and_self, if_true,
        Bool.false_eq_true, if_false]
    have hnext : w ++ [.char c false] ≠ [.tilde] := by
      cases w with
      | nil => nofun
      | cons a w => simp
    rw [readFrom, hstep, Option.bind_some, ih _ h.2 hnext, append_assoc, map_cons,
      singleton_append]

theorem readFrom_single (text : Text) :
    readFrom ⟨out, .single w⟩ (replaceChar '\'' ['\'', '\\', '\'', '\''] text ++ ['\'']) =
      some ⟨out, .word (w ++ text.map (.char · true))⟩ := by
  induction text generalizing w with
  | nil =>
    rw [map_nil, append_nil]
    rfl
  | cons c text ih =>
    have hnext := ih (w ++ [.char c true])
    rw [append_assoc, singleton_append] at hnext
    by_cases hc : c = '\''
    · subst c
      rw [replaceChar_cons_self]
      exact hnext
    · rw [replaceChar_cons_ne _ _ hc, cons_append, readFrom, step]
      simp only [if_neg hc, Option.bind_some]
      exact hnext

theorem readFrom_literal {text : Text} (h : text.all Inner.isLiteralChar = true) :
    readFrom ⟨out, .double w⟩ text = some ⟨out, .double (w ++ text.map (.char · true))⟩ := by
  induction text generalizing w with
  | nil =>
    rw [map_nil, append_nil]
    rfl
  | cons c text ih =>
    rw [all_cons, Bool.and_eq_true] at h
    have hc : (c ≠ '"' ∧ c ≠ '$' ∧ c ≠ '`') ∧ c ≠ '\\' := by
      simpa [Inner.isLiteralChar, and_assoc] using h.1
    have hstep : step ⟨out, .double w⟩ c = some ⟨out, .double (w ++ [.char c true])⟩ := by
      simp only [step, doubleStep, if_neg hc.1.1, if_neg hc.1.2.1, hc.1.2.2, hc.2,
        or_self, if_false]
    rw [readFrom, hstep, Option.bind_some, ih _ h.2, append_assoc, map_cons,
      singleton_append]

theorem readFrom_variable (inDouble : Bool) (read : Text) {name : Text}
    (h : name.all isVariableChar = true) :
    readFrom ⟨out, .name w inDouble read⟩ name = some ⟨out, .name w inDouble (read ++ name)⟩ := by
  induction name generalizing read with
  | nil =>
    rw [append_nil]
    rfl
  | cons c name ih =>
    rw [all_cons, Bool.and_eq_true] at h
    rw [readFrom, step]
    simp only [h.1, if_true, Option.bind_some]
    rw [ih _ h.2, append_assoc, singleton_append]

theorem readFrom_braced (inDouble : Bool) (read : Text) {name : Text}
    (h : name.all isVariableChar = true) :
    readFrom ⟨out, .braced w inDouble read⟩ (name ++ ['\x7d']) =
      some ⟨out, back inDouble (w ++ [.parameter (read ++ name) inDouble])⟩ := by
  induction name generalizing read with
  | nil =>
    rw [append_nil]
    rfl
  | cons c name ih =>
    rw [all_cons, Bool.and_eq_true] at h
    have hc : c ≠ '\x7d' := by
      rintro rfl
      cases h.1
    rw [cons_append, readFrom, step]
    simp only [if_neg hc, h.1, if_true, Option.bind_some]
    rw [ih _ h.2, append_assoc, singleton_append]

theorem readFrom_command (inDouble : Bool) (read : Text)
    {command : Text} (h : command.all (fun c => isPlain c || c == ' ') = true) :
    readFrom ⟨out, .command w inDouble read⟩ (command ++ [')']) =
      some ⟨out, back inDouble (w ++ [.substitution (read ++ command) inDouble])⟩ := by
  induction command generalizing read with
  | nil =>
    rw [append_nil]
    rfl
  | cons c command ih =>
    rw [all_cons, Bool.and_eq_true] at h
    have hc : c ≠ ')' := by
      rintro rfl
      cases h.1
    have hplain : isPlain c = true ∨ c = ' ' := by
      simpa only [Bool.or_eq_true, beq_iff_eq] using h.1
    rw [cons_append, readFrom, step]
    simp only [if_neg hc, hplain, if_true, Option.bind_some]
    rw [ih _ h.2, append_assoc, singleton_append]

theorem readFrom_name_ended (name : Text) {rest : Text}
    (hne : rest ≠ []) (hrest : rest.head?.all (!isVariableChar ·) = true) :
    readFrom ⟨out, .name w true name⟩ rest =
      readFrom ⟨out, .double (w ++ [.parameter name true])⟩ rest := by
  cases rest with
  | nil => exact absurd rfl hne
  | cons c rest =>
    have hc : isVariableChar c = false := by simpa using hrest
    rw [readFrom, readFrom, step, step]
    simp only [hc, Bool.false_eq_true, if_false, if_true]

theorem readFrom_inner {inner : List Inner} (h : Inner.allFormed inner = true) :
    readFrom ⟨out, .double w⟩ (inner.flatMap Inner.text ++ ['"']) =
      some ⟨out, .word (w ++ inner.flatMap Inner.atoms)⟩ := by
  induction inner generalizing w with
  | nil =>
    rw [flatMap_nil, flatMap_nil, append_nil]
    rfl
  | cons part rest ih =>
    rw [flatMap_cons, flatMap_cons, append_assoc, ← append_assoc w]
    cases part with
    | literal text =>
      rw [Inner.allFormed, Bool.and_eq_true] at h
      · exact (readFrom_then (readFrom_literal out w h.1) _).trans (ih _ h.2)
      · nofun
    | braced name =>
      rw [Inner.allFormed, Bool.and_eq_true] at h
      · have hname : readFrom ⟨out, .double w⟩ (Inner.braced name).text =
            some ⟨out, .double (w ++ [.parameter name true])⟩ :=
          readFrom_braced out w true [] h.1
        exact (readFrom_then hname _).trans (ih _ h.2)
      · nofun
    | parameter name =>
      rw [Inner.allFormed, Bool.and_eq_true, Bool.and_eq_true] at h
      obtain ⟨⟨hname, hended⟩, hrest⟩ := h
      have hread : readFrom ⟨out, .double w⟩ (Inner.parameter name).text =
          some ⟨out, .name w true name⟩ := by
        cases name with
        | nil => cases hname
        | cons c name =>
          rw [Inner.isName, Bool.and_eq_true, Bool.and_eq_true, Bool.not_eq_true'] at hname
          obtain ⟨⟨hc, hdigit⟩, hname⟩ := hname
          have hparen : c ≠ '(' := by
            rintro rfl
            cases hc
          have hbrace : c ≠ '\x7b' := by
            rintro rfl
            cases hc
          have hfirst : step ⟨out, .dollar w true⟩ c =
              some ⟨out, .name w true [c]⟩ := by
            simp only [step, if_neg hparen, if_neg hbrace, hc, hdigit,
              Bool.false_eq_true, not_false_eq_true, and_self, if_true]
          have hdollar : step ⟨out, .double w⟩ '$' = some ⟨out, .dollar w true⟩ := rfl
          rw [Inner.text, readFrom, hdollar, Option.bind_some, readFrom, hfirst,
            Option.bind_some, readFrom_variable out w true [c] hname]
          rfl
      have hnext : ((rest.flatMap Inner.text) ++ ['"']).head?.all (!isVariableChar ·) =
          true := by
        cases hs : rest.flatMap Inner.text with
        | nil => rfl
        | cons c s =>
          rw [hs] at hended
          exact hended
      rw [readFrom_then hread, readFrom_name_ended _ _ _ (by simp) hnext]
      exact ih _ hrest

end

variable (out : List Token)

theorem readFrom_part {w : Word} (hw : w ≠ [.tilde]) {part : Part} (h : part.wellFormed = true) :
    readFrom ⟨out, .word w⟩ part.text = some ⟨out, .word (w ++ part.atoms)⟩ := by
  cases part with
  | bare text =>
    rw [Part.wellFormed, Bool.and_eq_true] at h
    exact readFrom_bare out w h.2 hw
  | quoted text => exact readFrom_single out w text
  | double inner => exact readFrom_inner out w h
  | substitution command => exact readFrom_command out w false [] h

theorem tilde_notMem_atoms (part : Part) : Atom.tilde ∉ part.atoms := by
  cases part with
  | bare text => simp [Part.atoms]
  | quoted text => simp [Part.atoms]
  | substitution command => simp [Part.atoms]
  | double inner =>
    intro h
    obtain ⟨inner, -, h⟩ := mem_flatMap.mp h
    cases inner <;> simp [Inner.atoms] at h

theorem readFrom_parts {w : Word} (hw : Atom.tilde ∉ w) {parts : List Part}
    (h : parts.all Part.wellFormed = true) :
    readFrom ⟨out, .word w⟩ (parts.flatMap Part.text) =
      some ⟨out, .word (w ++ parts.flatMap Part.atoms)⟩ := by
  induction parts generalizing w with
  | nil =>
    rw [flatMap_nil, flatMap_nil, append_nil]
    rfl
  | cons part parts ih =>
    rw [all_cons, Bool.and_eq_true] at h
    have hne : w ≠ [.tilde] := by
      rintro rfl
      exact hw (mem_singleton.mpr rfl)
    have hnext : Atom.tilde ∉ w ++ part.atoms := by
      rw [mem_append, not_or]
      exact ⟨hw, tilde_notMem_atoms part⟩
    rw [flatMap_cons, flatMap_cons, readFrom_then (readFrom_part out hne h.1),
      ih hnext h.2, append_assoc]

/-- What stands between two blanks of a line. -/
inductive Piece where
  | word (parts : List Part)
  | home (path : Text)
  | op (c : Char)
  | opTwice (c : Char)
  | redirect (fd : Text) (target : Text)
  deriving DecidableEq

namespace Piece

def bare (text : Text) : Piece := .word [.bare text]

def quoted (text : Text) : Piece := .word [.quoted text]

def text : Piece → Text
  | .word parts => parts.flatMap Part.text
  | .home path => '~' :: '/' :: path
  | .op c => [c]
  | .opTwice c => [c, c]
  | .redirect fd target => fd ++ '>' :: target

def tokens : Piece → List Token
  | .word parts => [.word (parts.flatMap Part.atoms)]
  | .home path => [.word (.tilde :: ('/' :: path).map (.char · false))]
  | .op c => [.op [c]]
  | .opTwice c => [.op [c, c]]
  | .redirect fd target => [.ioNumber fd, .op ['>'], .word (target.map (.char · false))]

def wellFormed : Piece → Bool
  | .word parts => !parts.isEmpty && parts.all Part.wellFormed
  | .home path => path.all isPlain
  | .op c => isOperatorChar c
  | .opTwice c => isDoubled c c
  | .redirect fd target =>
    !fd.isEmpty && fd.all Char.isDigit && !target.isEmpty && target.all isPlain

end Piece

def lineOf (pieces : List Piece) : Text := pieces.flatMap fun piece => ' ' :: piece.text

theorem exists_head_part {part : Part} (h : part.wellFormed = true) :
    ∃ c s, part.text = c :: s ∧ isBlank c = false ∧ isOperatorChar c = false ∧ c ≠ '~' := by
  cases part with
  | bare text =>
    rw [Part.wellFormed, Bool.and_eq_true] at h
    cases text with
    | nil => cases h.1
    | cons c text =>
      have hc := (Bool.and_eq_true _ _).mp (all_cons.symm.trans h.2)
      obtain ⟨-, -, -, -, htilde, hblank, hop⟩ := plain_rules hc.1
      exact ⟨c, text, rfl, hblank, hop, htilde⟩
  | quoted text => exact ⟨_, _, rfl, rfl, rfl, by decide⟩
  | double inner => exact ⟨_, _, rfl, rfl, rfl, by decide⟩
  | substitution command => exact ⟨_, _, rfl, rfl, rfl, by decide⟩

theorem readFrom_fresh {c : Char} (hblank : isBlank c = false)
    (hop : isOperatorChar c = false) (htilde : c ≠ '~') (s : Text) :
    readFrom ⟨out, .between⟩ (c :: s) = readFrom ⟨out, .word []⟩ (c :: s) := by
  rw [readFrom, readFrom, step, step]
  simp only [fresh, wordStep, hblank, hop, if_neg htilde, Bool.false_eq_true, if_false]

theorem readFrom_word {parts : List Part} (h : (Piece.word parts).wellFormed = true) :
    readFrom ⟨out, .between⟩ (Piece.word parts).text =
      some ⟨out, .word (parts.flatMap Part.atoms)⟩ := by
  rw [Piece.wellFormed, Bool.and_eq_true] at h
  have hread := readFrom_parts out not_mem_nil h.2
  cases parts with
  | nil => cases h.1
  | cons part parts =>
    obtain ⟨c, s, hs, hblank, hop, htilde⟩ :=
      exists_head_part ((Bool.and_eq_true _ _).mp (all_cons.symm.trans h.2)).1
    rw [flatMap_cons, hs, cons_append] at hread
    rw [Piece.text, flatMap_cons, hs, cons_append]
    exact (readFrom_fresh out hblank hop htilde _).trans hread

theorem digit_plain {c : Char} (h : c.isDigit = true) : isPlain c = true := by
  rw [isPlain, Char.isAlphanum, h, Bool.or_true, Bool.true_or]

theorem digitsOf_chars {digits : Text} (h : digits.all Char.isDigit = true) :
    digitsOf (digits.map (.char · false)) = some digits := by
  induction digits with
  | nil => rfl
  | cons c digits ih =>
    rw [all_cons, Bool.and_eq_true] at h
    rw [map_cons, digitsOf, if_pos h.1, ih h.2]
    rfl

theorem readFrom_plainWord {text : Text} (hne : (!text.isEmpty) = true)
    (h : text.all isPlain = true) :
    readFrom ⟨out, .between⟩ text = some ⟨out, .word (text.map (.char · false))⟩ := by
  cases text with
  | nil => cases hne
  | cons c text =>
    obtain ⟨-, -, -, -, htilde, hblank, hop⟩ :=
      plain_rules ((Bool.and_eq_true _ _).mp (all_cons.symm.trans h)).1
    exact (readFrom_fresh out hblank hop htilde text).trans (readFrom_bare out [] h nofun)

theorem readFrom_redirect {fd target : Text} (h : (Piece.redirect fd target).wellFormed = true) :
    readFrom ⟨out, .between⟩ (Piece.redirect fd target).text =
      some ⟨out ++ [.ioNumber fd] ++ [.op ['>']], .word (target.map (.char · false))⟩ := by
  simp only [Piece.wellFormed, Bool.and_eq_true] at h
  obtain ⟨⟨⟨hfd, hdigits⟩, htarget⟩, hplain⟩ := h
  have hdigitsPlain : fd.all isPlain = true := by
    rw [all_eq_true] at hdigits ⊢
    exact fun c hc => digit_plain (hdigits c hc)
  have hnumber : endWord out (fd.map (.char · false)) '>' = out ++ [.ioNumber fd] := by
    have hne : fd ≠ [] := by simpa using hfd
    rw [endWord, if_pos (.inr rfl), digitsOf_chars hdigits]
    simp only [if_neg hne]
  have hop : step ⟨out, .word (fd.map (.char · false))⟩ '>' =
      some ⟨out ++ [.ioNumber fd], .operator '>'⟩ := by
    rw [← hnumber]
    rfl
  have hstart : readFrom ⟨out ++ [.ioNumber fd], .operator '>'⟩ target =
      readFrom ⟨out ++ [.ioNumber fd] ++ [.op ['>']], .between⟩ target := by
    cases target with
    | nil => cases htarget
    | cons c target =>
      have hc := ((Bool.and_eq_true _ _).mp (all_cons.symm.trans hplain)).1
      have hdoubled : isDoubled '>' c = false := by
        have hne : c ≠ '>' := by
          rintro rfl
          cases hc
        simp [isDoubled, Ne.symm hne]
      rw [readFrom, readFrom, step, step]
      simp only [hdoubled, Bool.false_eq_true, if_false]
  rw [Piece.text, readFrom_then (readFrom_plainWord out hfd hdigitsPlain), readFrom, hop,
    Option.bind_some, hstart, readFrom_plainWord _ htarget hplain]

theorem not_blank_of_operator {c : Char} (h : isOperatorChar c = true) : isBlank c = false := by
  cases hc : isBlank c with
  | false => rfl
  | true =>
    rw [isBlank, Bool.or_eq_true, beq_iff_eq, beq_iff_eq] at hc
    rcases hc with rfl | rfl <;> cases h

theorem operator_of_doubled {c d : Char} (h : isDoubled c d = true) : isOperatorChar c = true := by
  rw [isDoubled, Bool.and_eq_true, Bool.and_eq_true] at h
  exact h.1.1

theorem readFrom_piece {piece : Piece} (h : piece.wellFormed = true) :
    ∃ st, readFrom ⟨out, .between⟩ piece.text = some st ∧
      st.close = some (out ++ piece.tokens) := by
  cases piece with
  | word parts => exact ⟨_, readFrom_word out h, rfl⟩
  | home path =>
    have hread := readFrom_bare out [.tilde, .char '/' false] h (by decide)
    exact ⟨_, hread, rfl⟩
  | op c =>
    have hop : isOperatorChar c = true := h
    refine ⟨⟨out, .operator c⟩, ?_, rfl⟩
    simp only [Piece.text, readFrom, step, fresh, not_blank_of_operator hop, hop,
      Bool.false_eq_true, if_false, if_true, Option.bind_some]
  | opTwice c =>
    have htwice : isDoubled c c = true := h
    have hop := operator_of_doubled htwice
    refine ⟨⟨out ++ [.op [c, c]], .between⟩, ?_, rfl⟩
    simp only [Piece.text, readFrom, step, fresh, not_blank_of_operator hop, hop,
      htwice, Bool.false_eq_true, if_false, if_true, Option.bind_some]
  | redirect fd target =>
    refine ⟨_, readFrom_redirect out h, ?_⟩
    simp only [close, Piece.tokens, append_assoc, cons_append, nil_append]

theorem step_blank {st : Reader} {out : List Token} (h : st.close = some out) :
    st.step ' ' = some ⟨out, .between⟩ := by
  obtain ⟨tokens, mode⟩ := st
  cases mode with
  | between =>
    cases h
    rfl
  | word w =>
    cases h
    rfl
  | operator c =>
    cases h
    have hdoubled : isDoubled c ' ' = false := by
      by_contra htwice
      rw [Bool.not_eq_false, isDoubled, Bool.and_eq_true, Bool.and_eq_true, beq_iff_eq] at htwice
      obtain ⟨⟨hop, rfl⟩, -⟩ := htwice
      cases hop
    simp only [step, hdoubled, Bool.false_eq_true, if_false]
    rfl
  | name w inDouble name =>
    cases inDouble with
    | false =>
      cases h
      rfl
    | true => cases h
  | single w => cases h
  | double w => cases h
  | escaped w => cases h
  | dollar w inDouble => cases h
  | braced w inDouble name => cases h
  | command w inDouble text => cases h

theorem readFrom_lineOf {st : Reader} {out : List Token} (hst : st.close = some out)
    {pieces : List Piece} (h : pieces.all Piece.wellFormed = true) :
    (readFrom st (lineOf pieces)).bind close = some (out ++ pieces.flatMap Piece.tokens) := by
  induction pieces generalizing st out with
  | nil =>
    rw [flatMap_nil, append_nil, ← hst]
    rfl
  | cons piece pieces ih =>
    rw [all_cons, Bool.and_eq_true] at h
    obtain ⟨next, hread, hnext⟩ := readFrom_piece out h.1
    have hline : lineOf (piece :: pieces) = ' ' :: (piece.text ++ lineOf pieces) := rfl
    rw [hline, readFrom, step_blank hst, Option.bind_some, readFrom_then hread, ih hnext h.2,
      flatMap_cons, append_assoc]

theorem read_lineOf {line : Text} {pieces : List Piece} (hline : ' ' :: line = lineOf pieces)
    (h : pieces.all Piece.wellFormed = true) :
    read line = some (pieces.flatMap Piece.tokens) := by
  have hread : (readFrom .start (lineOf pieces)).bind close = _ := readFrom_lineOf rfl h
  rw [← hline] at hread
  exact hread

end BridgeMcp.Shell.CommandLine
