import BridgeMcp.Shell.CommandLine

/-!
Running a command line: the commands it is made of, what their words expandWord to, and which of them
are reached. What a command does is a parameter.
-/
namespace BridgeMcp.Shell.CommandLine
open TextLib List Option

structure Redirection (α : Type) where
  fd : Text
  op : Text
  target : α
  deriving DecidableEq

structure Simple where
  words : List Word
  redirections : List (Redirection Word)
  deriving DecidableEq

inductive Joint where
  | andIf
  | orIf
  deriving DecidableEq

def jointOf (op : Text) : Option Joint :=
  if op = ['&', '&'] then some .andIf else if op = ['|', '|'] then some .orIf else none

def isRedirection (op : Text) : Bool := op == ['>'] || op == ['>', '>'] || op == ['<']

def defaultFd (op : Text) : Text := if op = ['<'] then ['0'] else ['1']

/-- The commands of a line, each with what joins it to the ones before it. A pipe makes it fail. -/
def parseFrom (joint : Joint) (words : List Word) (redirections : List (Redirection Word)) :
    List Token → Option (List (Joint × Simple))
  | [] => if words = [] then none else some [(joint, ⟨words, redirections⟩)]
  | .word w :: rest => parseFrom joint (words ++ [w]) redirections rest
  | .ioNumber fd :: .op op :: .word target :: rest =>
    if isRedirection op then parseFrom joint words (redirections ++ [⟨fd, op, target⟩]) rest
    else none
  | .op op :: .word target :: rest =>
    if isRedirection op then
      parseFrom joint words (redirections ++ [⟨defaultFd op, op, target⟩]) rest
    else if words = [] then none
    else
      match jointOf op with
      | some next =>
        (parseFrom next [target] [] rest).map ((joint, ⟨words, redirections⟩) :: ·)
      | none => none
  | _ => none

def parse (tokens : List Token) : Option (List (Joint × Simple)) := parseFrom .andIf [] [] tokens

/-- What a line finds. `exec` runs a command with its redirections; a substitution gives its output
without the newlines at the end, and whether it succeeded. -/
structure Setting (σ : Type) where
  home : Text
  value : Text → Text
  capture : Text → Text × Bool
  exec : σ → List Text → List (Redirection Text) → Option (Bool × σ)

/-- A value that stays one field, and no pattern, where it is not quoted. -/
def isField (value : Text) : Bool := !value.isEmpty && value.all isPlain

section Expansion

variable (home : Text) (value : Text → Text) (capture : Text → Text × Bool)

def expandAtom : Atom → Option Text
  | .char c _ => some [c]
  | .tilde => some home
  | .parameter name quoted =>
    if quoted || isField (value name) then some (value name) else none
  | .substitution command quoted =>
    if quoted || isField (capture command).1 then some (capture command).1 else none

def expandWord : Word → Option Text
  | [] => some []
  | atom :: w =>
    (expandAtom home value capture atom).bind fun first =>
      (expandWord w).map fun rest => first ++ rest

def expandWords : List Word → Option (List Text)
  | [] => some []
  | w :: words => (expandWord home value capture w).bind fun first => (expandWords words).map (first :: ·)

def expandTargets : List (Redirection Word) → Option (List (Redirection Text))
  | [] => some []
  | r :: rest =>
    (expandWord home value capture r.target).bind fun target =>
      (expandTargets rest).map (⟨r.fd, r.op, target⟩ :: ·)

/-- The status of a command that only assigns is that of its last substitution. -/
def substitutionsSucceed (w : Word) : Bool :=
  w.foldl (fun ok atom =>
    match atom with
    | .substitution command _ => (capture command).2
    | _ => ok) true

variable {home value capture}

theorem expandWord_append (a b : Word) :
    expandWord home value capture (a ++ b) =
      (expandWord home value capture a).bind fun first =>
        (expandWord home value capture b).map fun rest => first ++ rest := by
  induction a with
  | nil => simp [expandWord]
  | cons atom a ih =>
    rw [cons_append, expandWord, expandWord, ih]
    cases expandAtom home value capture atom with
    | none => rfl
    | some first =>
      cases expandWord home value capture a with
      | none => rfl
      | some rest => simp [Function.comp_def]

@[simp]
theorem expandWord_chars (text : Text) (quoted : Bool) :
    expandWord home value capture (text.map (.char · quoted)) = some text := by
  induction text with
  | nil => rfl
  | cons c text ih =>
    rw [map_cons, expandWord, ih]
    rfl

theorem expandWord_substitution {command : Text} (h : isField (capture command).1 = true)
    (w : Word) :
    expandWord home value capture (.substitution command false :: w) =
      (expandWord home value capture w).map fun rest => (capture command).1 ++ rest := by
  rw [expandWord, expandAtom, h]
  rfl

theorem substitutionsSucceed_of_free {w : Word}
    (h : ∀ command quoted, Atom.substitution command quoted ∉ w) :
    substitutionsSucceed capture w = true := by
  have hkeep : ∀ ok : Bool, w.foldl (fun ok atom =>
      match atom with
      | .substitution command _ => (capture command).2
      | _ => ok) ok = ok := by
    intro ok
    induction w with
    | nil => rfl
    | cons atom w ih =>
      have hrest := ih fun command quoted hmem => h command quoted (mem_cons_of_mem atom hmem)
      cases atom with
      | substitution command quoted => exact absurd mem_cons_self (h command quoted)
      | char c quoted => exact hrest
      | tilde => exact hrest
      | parameter name quoted => exact hrest
  exact hkeep true

def bareWord (text : Text) : Word := [Part.bare text].flatMap Part.atoms

def quotedWord (text : Text) : Word := [Part.quoted text].flatMap Part.atoms

def homeWord (path : Text) : Word := .tilde :: ('/' :: path).map (.char · false)

@[simp]
theorem expandWord_bareWord (text : Text) :
    expandWord home value capture (bareWord text) = some text := by
  rw [bareWord, flatMap_singleton]
  exact expandWord_chars text false

@[simp]
theorem expandWord_quotedWord (text : Text) :
    expandWord home value capture (quotedWord text) = some text := by
  rw [quotedWord, flatMap_singleton]
  exact expandWord_chars text true

@[simp]
theorem expandWord_homeWord (path : Text) :
    expandWord home value capture (homeWord path) = some (home ++ '/' :: path) := by
  rw [homeWord, expandWord, expandWord_chars]
  rfl

theorem expandWord_doubleName (name : Text) :
    expandWord home value capture ([Part.double [.parameter name]].flatMap Part.atoms) =
      some (value name) := by
  simp [Part.atoms, Inner.atoms, expandWord, expandAtom]

theorem expandWord_doubleText (text name : Text) :
    expandWord home value capture
      ([Part.double [.literal text, .parameter name]].flatMap Part.atoms) =
      some (text ++ value name) := by
  simp [Part.atoms, Inner.atoms, expandWord_append, expandWord, expandAtom]

theorem expandWord_doubleAround (before name after : Text) :
    expandWord home value capture
      ([Part.double [.literal before, .braced name, .literal after]].flatMap Part.atoms) =
      some (before ++ (value name ++ after)) := by
  simp [Part.atoms, Inner.atoms, expandWord_append, expandWord, expandAtom]

theorem expandWords_nil : expandWords home value capture [] = some [] := rfl

theorem expandWords_cons {w : Word} {text : Text} {words : List Word} {texts : List Text}
    (hw : expandWord home value capture w = some text)
    (hwords : expandWords home value capture words = some texts) :
    expandWords home value capture (w :: words) = some (text :: texts) := by
  rw [expandWords, hw, hwords]
  rfl

theorem expandTargets_nil : expandTargets home value capture [] = some [] := rfl

variable {targets : List (Redirection Text)}

theorem expandTargets_cons {fd op target : Text} {w : Word} {rest : List (Redirection Word)}
    (hw : expandWord home value capture w = some target)
    (hrest : expandTargets home value capture rest = some targets) :
    expandTargets home value capture (⟨fd, op, w⟩ :: rest) = some (⟨fd, op, target⟩ :: targets) := by
  rw [expandTargets, hw, hrest]
  rfl

end Expansion

def assignmentFrom (name : Text) : Word → Option (Text × Word)
  | .char c false :: w =>
    if c = '=' then if name = [] then none else some (name, w)
    else if isVariableChar c ∧ (name = [] → ¬ c.isDigit) then assignmentFrom (name ++ [c]) w
    else none
  | _ => none

def assign (value : Text → Text) (name new : Text) : Text → Text :=
  fun other => if other = name then new else value other

theorem assign_self (value : Text → Text) (name new : Text) : assign value name new name = new :=
  if_pos rfl

section Run

variable {σ : Type} (setting : Setting σ)

/-- An assignment in front of a command is not read. -/
def Simple.run (command : Simple) (value : Text → Text) (st : σ) :
    Option (Bool × (Text → Text) × σ) :=
  match command.words.head?.bind (assignmentFrom []) with
  | some (name, w) =>
    if command.words.tail = [] ∧ command.redirections = [] then
      (expandWord setting.home value setting.capture w).map fun new =>
        (substitutionsSucceed setting.capture w, assign value name new, st)
    else none
  | none =>
    (expandWords setting.home value setting.capture command.words).bind fun argv =>
      (expandTargets setting.home value setting.capture command.redirections).bind fun targets =>
        (setting.exec st argv targets).map fun done => (done.1, value, done.2)

def Joint.goesOn : Joint → Bool → Bool
  | .andIf, ok => ok
  | .orIf, ok => !ok

def runCommands : List (Joint × Simple) → Bool → (Text → Text) → σ → Option (Bool × σ)
  | [], ok, _, st => some (ok, st)
  | (joint, command) :: rest, ok, value, st =>
    if joint.goesOn ok then
      (command.run setting value st).bind fun done => runCommands rest done.1 done.2.1 done.2.2
    else runCommands rest ok value st

def runLine (line : Text) (st : σ) : Option (Bool × σ) :=
  ((read line).bind parse).bind fun commands => runCommands setting commands true setting.value st

variable {setting}

theorem runLine_of_pieces {line : Text} {pieces : List Piece} {commands : List (Joint × Simple)}
    (hline : ' ' :: line = lineOf pieces) (h : pieces.all Piece.wellFormed = true)
    (hparse : parse (pieces.flatMap Piece.tokens) = some commands) (st : σ) :
    runLine setting line st = runCommands setting commands true setting.value st := by
  rw [runLine, read_lineOf hline h, bind_some, hparse, bind_some]

variable {joint : Joint} {rest : List (Joint × Simple)} {value : Text → Text}

theorem runCommands_exec {joint : Joint} {command : Simple} {rest : List (Joint × Simple)}
    {ok status : Bool} {st st' : σ} {argv : List Text} (hreached : joint.goesOn ok = true)
    (hplain : command.words.head?.bind (assignmentFrom []) = none)
    (hargv : expandWords setting.home value setting.capture command.words = some argv)
    (htargets : expandTargets setting.home value setting.capture command.redirections =
      some targets)
    (hexec : setting.exec st argv targets = some (status, st')) :
    runCommands setting ((joint, command) :: rest) ok value st =
      runCommands setting rest status value st' := by
  have hrun : command.run setting value st = some (status, value, st') := by
    rw [Simple.run, hplain]
    simp only [hargv, htargets, hexec, bind_some, map_some]
  rw [runCommands, if_pos hreached, hrun]
  rfl

theorem runCommands_skip {command : Simple} {ok : Bool} {st : σ}
    (hskipped : joint.goesOn ok = false) :
    runCommands setting ((joint, command) :: rest) ok value st = runCommands setting rest ok value st := by
  rw [runCommands, hskipped, if_neg Bool.false_ne_true]

theorem runCommands_assign {ok status : Bool} {st : σ} {name new : Text}
    {first w : Word} (hreached : joint.goesOn ok = true)
    (hfirst : assignmentFrom [] first = some (name, w))
    (hnew : expandWord setting.home value setting.capture w = some new)
    (hstatus : substitutionsSucceed setting.capture w = status) :
    runCommands setting ((joint, ⟨[first], []⟩) :: rest) ok value st =
      runCommands setting rest status (assign value name new) st := by
  have hrun : Simple.run setting ⟨[first], []⟩ value st = some (status, assign value name new, st) := by
    rw [Simple.run, ← hstatus]
    simp only [head?_cons, bind_some, hfirst, tail_cons, and_self, if_true, hnew,
      map_some]
  rw [runCommands, if_pos hreached, hrun]
  rfl

end Run

section Trace

variable (home : Text) (value : Text → Text) (capture : Text → Text × Bool)
  (status : List Text → Bool)

def tracing : Setting (List (List Text)) :=
  ⟨home, value, capture, fun trace argv _ => some (status argv, trace ++ [argv])⟩

def untilFailure : List (List Text) → List (List Text)
  | [] => []
  | argv :: rest => argv :: if status argv then untilFailure rest else []

variable {home value capture status}

theorem untilFailure_sublist (commands : List (List Text)) :
    (untilFailure status commands).Sublist commands := by
  induction commands with
  | nil => exact List.Sublist.slnil
  | cons argv rest ih =>
    rw [untilFailure]
    apply List.Sublist.cons_cons
    split_ifs
    · exact ih
    · exact nil_sublist rest

/-- A command joined by `&&`, and what its words are. -/
def Expands (home : Text) (value : Text → Text) (capture : Text → Text × Bool)
    (command : Joint × Simple) (argv : List Text) : Prop :=
  command.1 = .andIf ∧ command.2.words.head?.bind (assignmentFrom []) = none ∧
    expandWords home value capture command.2.words = some argv ∧
    ∃ targets, expandTargets home value capture command.2.redirections = some targets

variable {commands : List (Joint × Simple)}

theorem runCommands_skipAll {argvs : List (List Text)} {vars : Text → Text}
    (h : List.Forall₂ (Expands home vars capture) commands argvs) (trace : List (List Text)) :
    runCommands (tracing home value capture status) commands false vars trace =
      some (false, trace) := by
  induction h with
  | nil => rfl
  | @cons command argv commands argvs hfirst _ ih =>
    obtain ⟨joint, command⟩ := command
    cases hfirst.1
    rw [runCommands_skip rfl, ih]

variable (value status) in
theorem runCommands_trace {argvs : List (List Text)} {vars : Text → Text}
    (h : List.Forall₂ (Expands home vars capture) commands argvs) (trace : List (List Text)) :
    ∃ ok, runCommands (tracing home value capture status) commands true vars trace =
      some (ok, trace ++ untilFailure status argvs) := by
  induction h generalizing trace with
  | nil => exact ⟨true, by rw [untilFailure, append_nil]; rfl⟩
  | @cons command argv commands argvs hfirst hrest ih =>
    obtain ⟨joint, command⟩ := command
    obtain ⟨hjoint, hplain, hargv, targets, htargets⟩ := hfirst
    cases hjoint
    have hrun : ∀ ok, status argv = ok →
        runCommands (tracing home value capture status) ((.andIf, command) :: commands) true vars
          trace = runCommands (tracing home value capture status) commands ok vars
            (trace ++ [argv]) := by
      rintro ok rfl
      exact runCommands_exec rfl hplain hargv htargets rfl
    cases hstatus : status argv with
    | true =>
      obtain ⟨ok, hok⟩ := ih (trace ++ [argv])
      refine ⟨ok, (hrun true hstatus).trans (hok.trans ?_)⟩
      rw [untilFailure, if_pos hstatus, append_assoc, singleton_append]
    | false =>
      refine ⟨false, (hrun false hstatus).trans ?_⟩
      rw [runCommands_skipAll hrest, untilFailure, hstatus]
      rfl

end Trace

end BridgeMcp.Shell.CommandLine
