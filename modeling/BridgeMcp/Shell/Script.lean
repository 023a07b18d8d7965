import BridgeMcp.Shell.Words

/-!
What a POSIX shell does with the command lines the builders produce: quoting, `$NAME`,
`$(command)`, redirections, pipelines and `&&` lists, and the few utilities a line may run before
its main program.

A line is scanned character by character, so piece by piece (`scan_append`). What is not modelled
(globs, comments, `;`, here-documents) makes the scanner fail.
-/
namespace BridgeMcp.Shell
open TextLib List

/-- A character of a word, quoted or not, or an expansion in it. -/
inductive Fragment where
  | plain (c : Char)
  | quoted (c : Char)
  | parameter (name : Text)
  | substitution (command : Text)
  deriving DecidableEq

inductive Token where
  | word (fragments : List Fragment)
  | andIf
  | pipe
  | input
  | output (fd : Text)
  | duplicate (fd : Text)
  deriving DecidableEq

/-- The flag of an expansion tells whether it stands between double quotes. -/
inductive ScanMode where
  | unquoted
  | escaped
  | single
  | double
  | dollar (inDouble : Bool)
  | name (inDouble : Bool) (name : Text)
  | command (inDouble : Bool) (text : Text)
  | ampersand
  | greater (fd : Text)
  deriving DecidableEq

structure Scan where
  mode : ScanMode
  fragments : List Fragment
  hasWord : Bool
  deriving DecidableEq

namespace Scan

def idle : Scan := ⟨.unquoted, [], false⟩

def enter (st : Scan) (mode : ScanMode) : Scan := { st with mode := mode, hasWord := true }

def push (st : Scan) (fragment : Fragment) : Scan :=
  { st with fragments := st.fragments ++ [fragment] }

def pushAll (st : Scan) (fragments : List Fragment) : Scan :=
  { st with fragments := st.fragments ++ fragments }

def word (st : Scan) : List Token := if st.hasWord then [.word st.fragments] else []

end Scan

def around (inDouble : Bool) : ScanMode := if inDouble then .double else .unquoted

def isVariableChar (c : Char) : Bool := c.isAlphanum || c == '_'

/-- The digits right before `>`, when they are a word of their own. -/
def ioNumber : List Fragment → Option Text
  | [] => some []
  | .plain c :: rest => if c.isDigit then (ioNumber rest).map (c :: ·) else none
  | _ :: _ => none

def scanUnquoted (st : Scan) (c : Char) : Option (List Token × Scan) :=
  if c = ' ' ∨ c = '\t' then some (st.word, .idle)
  else if c = '\'' then some ([], st.enter .single)
  else if c = '"' then some ([], st.enter .double)
  else if c = '\\' then some ([], st.enter .escaped)
  else if c = '$' then some ([], st.enter (.dollar false))
  else if c = '&' then some (st.word, { Scan.idle with mode := .ampersand })
  else if c = '|' then some (st.word ++ [.pipe], .idle)
  else if c = '<' then some (st.word ++ [.input], .idle)
  else if c = '>' then
    match ioNumber st.fragments with
    | some (d :: fd) => some ([], { Scan.idle with mode := .greater (d :: fd) })
    | _ => some (st.word, { Scan.idle with mode := .greater ['1'] })
  else if isPlain c then some ([], (st.enter .unquoted).push (.plain c))
  else none

def scanDouble (st : Scan) (c : Char) : Option (List Token × Scan) :=
  if c = '"' then some ([], st.enter .unquoted)
  else if c = '$' then some ([], st.enter (.dollar true))
  else if c = '`' ∨ c = '\\' then none
  else some ([], st.push (.quoted c))

def scanStep (st : Scan) (c : Char) : Option (List Token × Scan) :=
  match st.mode with
  | .unquoted => scanUnquoted st c
  | .double => scanDouble st c
  | .escaped => some ([], (st.enter .unquoted).push (.quoted c))
  | .single =>
    if c = '\'' then some ([], st.enter .unquoted) else some ([], st.push (.quoted c))
  | .dollar inDouble =>
    if c = '(' then some ([], st.enter (.command inDouble []))
    else if isVariableChar c && !c.isDigit then some ([], st.enter (.name inDouble [c]))
    else none
  | .name inDouble name =>
    if isVariableChar c then some ([], st.enter (.name inDouble (name ++ [c])))
    else
      let st := (st.enter (around inDouble)).push (.parameter name)
      if inDouble then scanDouble st c else scanUnquoted st c
  | .command inDouble text =>
    if c = ')' then some ([], (st.enter (around inDouble)).push (.substitution text))
    else if isPlain c || c == ' ' then some ([], st.enter (.command inDouble (text ++ [c])))
    else none
  | .ampersand => if c = '&' then some ([.andIf], .idle) else none
  | .greater fd =>
    if c = '&' then some ([.duplicate fd], .idle)
    else if c = '>' then none
    else (scanUnquoted .idle c).map fun step => (.output fd :: step.1, step.2)

def scan (st : Scan) : Text → Option (List Token × Scan)
  | [] => some ([], st)
  | c :: cs =>
    (scanStep st c).bind fun step =>
      (scan step.2 cs).map fun rest => (step.1 ++ rest.1, rest.2)

def Scan.close (st : Scan) : Option (List Token) :=
  match st.mode with
  | .unquoted => some st.word
  | .name false name => some [.word (st.fragments ++ [.parameter name])]
  | .greater fd => some [.output fd]
  | _ => none

def tokens (line : Text) : Option (List Token) :=
  (scan .idle line).bind fun result => result.2.close.map fun last => result.1 ++ last

theorem scan_append (st : Scan) (a b : Text) :
    scan st (a ++ b) =
      (scan st a).bind fun first =>
        (scan first.2 b).map fun rest => (first.1 ++ rest.1, rest.2) := by
  induction a generalizing st with
  | nil => simp [scan]
  | cons c a ih =>
    rw [cons_append, scan, scan]
    cases hstep : scanStep st c with
    | none => rfl
    | some step =>
      simp only [Option.bind_some, ih, Option.bind_map, Option.map_bind, Option.map_map,
        Function.comp_def, append_assoc]

theorem scanStep_blank {st : Scan} {last : List Token} (h : st.close = some last) :
    scanStep st ' ' = some (last, .idle) := by
  obtain ⟨mode, fragments, hasWord⟩ := st
  cases mode with
  | unquoted => exact congrArg (Option.map (·, Scan.idle)) h
  | name inDouble name =>
    cases inDouble with
    | true => cases h
    | false => exact congrArg (Option.map (·, Scan.idle)) h
  | greater fd => exact congrArg (Option.map (·, Scan.idle)) h
  | _ => cases h

theorem tokens_blank {a : Text} {ta : List Token} (ha : tokens a = some ta) (b : Text) :
    tokens (a ++ ' ' :: b) = (tokens b).map (ta ++ ·) := by
  obtain ⟨⟨out, st⟩, hscan, hclose⟩ := Option.bind_eq_some_iff.mp ha
  obtain ⟨last, hlast, rfl⟩ := Option.map_eq_some_iff.mp hclose
  rw [tokens, scan_append, hscan, Option.bind_some, scan, scanStep_blank hlast, Option.bind_some,
    tokens]
  cases scan .idle b with
  | none => rfl
  | some rest =>
    simp only [Option.bind_some, Option.map_some, Option.map_map, Function.comp_def,
      append_assoc]

theorem scan_quoted (w : Text) (st : Scan) (hmode : st.mode = .single) (hword : st.hasWord = true) :
    scan st (replaceChar '\'' ['\'', '\\', '\'', '\''] w) =
      some ([], st.pushAll (w.map .quoted)) := by
  induction w generalizing st with
  | nil => simp [scan, Scan.pushAll]
  | cons c w ih =>
    have hnext := ih (st.push (.quoted c)) hmode hword
    have hpush : (st.push (.quoted c)).pushAll (w.map .quoted) =
        st.pushAll ((c :: w).map .quoted) := by
      simp [Scan.push, Scan.pushAll]
    rw [hpush] at hnext
    obtain ⟨mode, fragments, hasWord⟩ := st
    subst hmode hword
    by_cases hc : c = '\''
    · subst hc
      rw [replaceChar_cons_self, scan_append]
      exact congrArg (Option.map fun rest => ([] ++ rest.1, rest.2)) hnext
    · rw [replaceChar_cons_ne _ _ hc, scan, scanStep, if_neg hc]
      exact congrArg (Option.map fun rest => ([] ++ rest.1, rest.2)) hnext

theorem tokens_escape (w : Text) : tokens (escape w .posix) = some [.word (w.map .quoted)] := by
  have hquoted := scan_quoted w (Scan.idle.enter .single) rfl rfl
  have hopen : escape w .posix =
      ['\''] ++ (replaceChar '\'' ['\'', '\\', '\'', '\''] w ++ ['\'']) := rfl
  have hscan : scan .idle (escape w .posix) =
      some ([], (Scan.idle.enter .unquoted).pushAll (w.map .quoted)) := by
    rw [hopen, scan_append, show scan .idle ['\''] = some ([], Scan.idle.enter .single) from rfl,
      Option.bind_some, scan_append, hquoted]
    rfl
  rw [tokens, hscan]
  rfl

theorem scanStep_plain {c : Char} (hc : isPlain c = true) {st : Scan} (hmode : st.mode = .unquoted) :
    scanStep st c = some ([], (st.enter .unquoted).push (.plain c)) := by
  -- Every character with a rule of its own fails the plain test.
  have special : [' ', '\t', '\'', '"', '\\', '$', '&', '|', '<', '>'].all (!isPlain ·) = true := by
    decide
  have distinct : ∀ x ∈ [' ', '\t', '\'', '"', '\\', '$', '&', '|', '<', '>'], c ≠ x := by
    rintro x hx rfl
    have hspecial := all_eq_true.mp special c hx
    rw [hc] at hspecial
    cases hspecial
  simp only [forall_mem_cons] at distinct
  simp [scanStep, hmode, scanUnquoted, distinct, hc]

theorem scan_plain {w : Text} (hw : ∀ c ∈ w, isPlain c = true) (st : Scan)
    (hmode : st.mode = .unquoted) (hword : st.hasWord = true) :
    scan st w = some ([], st.pushAll (w.map .plain)) := by
  induction w generalizing st with
  | nil => simp [scan, Scan.pushAll]
  | cons c w ih =>
    obtain ⟨hc, hw⟩ := forall_mem_cons.mp hw
    have henter : st.enter .unquoted = st := by
      obtain ⟨mode, fragments, hasWord⟩ := st
      subst hmode hword
      rfl
    rw [scan, scanStep_plain hc hmode, henter, Option.bind_some, ih hw (st.push _) hmode hword]
    simp [Scan.push, Scan.pushAll]

theorem tokens_plain {w : Text} (hne : w ≠ []) (hw : ∀ c ∈ w, isPlain c = true) :
    tokens w = some [.word (w.map .plain)] := by
  obtain ⟨c, w, rfl⟩ := exists_cons_of_ne_nil hne
  obtain ⟨hc, hw⟩ := forall_mem_cons.mp hw
  rw [tokens, scan, scanStep_plain hc rfl, Option.bind_some, scan_plain hw _ rfl rfl]
  rfl

inductive Redirect where
  | input (target : List Fragment)
  | output (fd : Text) (target : List Fragment)
  | duplicate (fd : Text) (target : List Fragment)
  deriving DecidableEq

structure SimpleCommand where
  words : List (List Fragment)
  redirects : List Redirect
  deriving DecidableEq

inductive Connector where
  | andIf
  | pipe
  deriving DecidableEq

structure CommandList where
  first : SimpleCommand
  rest : List (Connector × SimpleCommand)
  deriving DecidableEq

namespace CommandList

def empty : CommandList := ⟨⟨[], []⟩, []⟩

def addWord (cmds : CommandList) (w : List Fragment) : CommandList :=
  { cmds with first := { cmds.first with words := w :: cmds.first.words } }

def addRedirect (cmds : CommandList) (r : Redirect) : CommandList :=
  { cmds with first := { cmds.first with redirects := r :: cmds.first.redirects } }

def join (connector : Connector) (cmds : CommandList) : CommandList :=
  ⟨⟨[], []⟩, (connector, cmds.first) :: cmds.rest⟩

end CommandList

/-- From the right: every token belongs to the first command of what follows or starts another. -/
def parseTokens : List Token → Option CommandList
  | [] => some .empty
  | .word w :: ts => (parseTokens ts).map (·.addWord w)
  | .andIf :: ts => (parseTokens ts).map (.join .andIf)
  | .pipe :: ts => (parseTokens ts).map (.join .pipe)
  | .input :: .word w :: ts => (parseTokens ts).map (·.addRedirect (.input w))
  | .output fd :: .word w :: ts => (parseTokens ts).map (·.addRedirect (.output fd w))
  | .duplicate fd :: .word w :: ts => (parseTokens ts).map (·.addRedirect (.duplicate fd w))
  | _ => none

/-- One pass of `printf` over its format: the text and the arguments left. -/
def formatOnce : Text → List Text → Option (Text × List Text)
  | [], args => some ([], args)
  | c :: format, args =>
    if c = '%' then
      match format with
      | 's' :: format =>
        (formatOnce format args.tail).map fun r => (args.headD [] ++ r.1, r.2)
      | _ => none
    else if c = '\\' then
      match format with
      | 'n' :: format => (formatOnce format args).map fun r => ('\n' :: r.1, r.2)
      | _ => none
    else (formatOnce format args).map fun r => (c :: r.1, r.2)

theorem formatOnce_nil (args : List Text) : formatOnce [] args = some ([], args) := rfl

theorem formatOnce_arg (format a : Text) (args : List Text) :
    formatOnce ('%' :: 's' :: format) (a :: args) =
      (formatOnce format args).map fun r => (a ++ r.1, r.2) :=
  rfl

theorem formatOnce_newline (format : Text) (args : List Text) :
    formatOnce ('\\' :: 'n' :: format) args =
      (formatOnce format args).map fun r => ('\n' :: r.1, r.2) :=
  rfl

theorem formatOnce_char {c : Char} (hpercent : c ≠ '%') (hbackslash : c ≠ '\\') (format : Text)
    (args : List Text) :
    formatOnce (c :: format) args = (formatOnce format args).map fun r => (c :: r.1, r.2) := by
  rw [formatOnce.eq_def]
  simp only [if_neg hpercent, if_neg hbackslash]

def printfFrom (format : Text) : ℕ → List Text → Option Text
  | 0, _ => some []
  | rounds + 1, args =>
    (formatOnce format args).bind fun r =>
      if r.2 = [] then some r.1 else (printfFrom format rounds r.2).map (r.1 ++ ·)

def printf (format : Text) (args : List Text) : Option Text :=
  printfFrom format (args.length + 1) args

theorem printf_once {format : Text} {args : List Text} {out : Text}
    (h : formatOnce format args = some (out, [])) : printf format args = some out := by
  rw [printf, printfFrom, h, Option.bind_some, if_pos rfl]

structure Machine where
  bindings : List (Text × Text)
  files : List (Text × Text)
  deriving DecidableEq

namespace Machine

def start : Machine := ⟨[], []⟩

def write (m : Machine) (file content : Text) : Machine :=
  { m with files := (file, content) :: m.files }

def assign (m : Machine) (name value : Text) : Machine :=
  { m with bindings := (name, value) :: m.bindings }

def unset (m : Machine) (name : Text) : Machine :=
  { m with bindings := m.bindings.filter fun v => v.1 != name }

end Machine

section Run

-- What `mktemp` prints: the path of a new empty file, free of blanks.
variable (tempPath : Text)

def expand (m : Machine) : List Fragment → Option (Text × Machine)
  | [] => some ([], m)
  | .plain c :: rest => (expand m rest).map fun r => (c :: r.1, r.2)
  | .quoted c :: rest => (expand m rest).map fun r => (c :: r.1, r.2)
  | .parameter name :: rest =>
    (expand m rest).map fun r => ((m.bindings.lookup name).getD [] ++ r.1, r.2)
  | .substitution command :: rest =>
    if command = "mktemp" then
      (expand (m.write tempPath []) rest).map fun r => (tempPath ++ r.1, r.2)
    else none

def expandAll (m : Machine) : List (List Fragment) → Option (List Text × Machine)
  | [] => some ([], m)
  | w :: ws =>
    (expand tempPath m w).bind fun r =>
      (expandAll r.2 ws).map fun rs => (r.1 :: rs.1, rs.2)

/-- `NAME=value`, the name and `=` unquoted. -/
def splitAssignment : List Fragment → Option (Text × List Fragment)
  | .plain c :: rest =>
    if c = '=' then some ([], rest)
    else if isVariableChar c then (splitAssignment rest).map fun r => (c :: r.1, r.2)
    else none
  | _ => none

/-- The assignments in front of a command, and the command's own words. -/
def splitAssignments : List (List Fragment) → List (Text × List Fragment) × List (List Fragment)
  | [] => ([], [])
  | w :: ws =>
    match splitAssignment w with
    | some a =>
      let r := splitAssignments ws
      (a :: r.1, r.2)
    | none => ([], w :: ws)

def assignAll (m : Machine) : List (Text × List Fragment) → Option Machine
  | [] => some m
  | a :: rest =>
    (expand tempPath m a.2).bind fun r => assignAll (r.2.assign a.1 r.1) rest

def utility (m : Machine) (redirects : List Redirect) : List Text → Option Machine
  | name :: args =>
    if name = "printf" then
      match args, redirects with
      | format :: args, [.output fd target] =>
        if fd = ['1'] then
          (expand tempPath m target).bind fun file =>
            (printf format args).map fun content => file.2.write file.1 content
        else none
      | _, _ => none
    else if name = "unset" then some (args.foldl .unset m)
    else if name = "trap" ∨ name = "chmod" then some m
    else none
  | [] => none

/-- A command before `&&`; it succeeds. -/
def execute (m : Machine) (command : SimpleCommand) : Option Machine :=
  match splitAssignments command.words with
  | (assignments, []) => assignAll tempPath m assignments
  | ([], words) =>
    (expandAll tempPath m words).bind fun r => utility tempPath r.2 command.redirects r.1
  | _ => none

/-- The program a line is about, with what it finds when it starts. -/
structure Invocation where
  environment : List (Text × Text)
  words : List Text
  machine : Machine
  deriving DecidableEq

def invoke (m : Machine) (command : SimpleCommand) : Option Invocation :=
  let parts := splitAssignments command.words
  (expandAll tempPath m (parts.1.map Prod.snd)).bind fun values =>
    (expandAll tempPath values.2 parts.2).map fun words =>
      ⟨(parts.1.map Prod.fst).zip values.1, words.1, words.2⟩

/-- Run everything up to the last `&&`; the program is the first of the pipeline after it. -/
def runFrom (m : Machine) (command : SimpleCommand) :
    List (Connector × SimpleCommand) → Option Invocation
  | [] => invoke tempPath m command
  | (.pipe, _) :: rest =>
    if rest.any fun c => c.1 == .andIf then none else invoke tempPath m command
  | (.andIf, next) :: rest => (execute tempPath m command).bind fun m => runFrom m next rest

def runOn (m : Machine) (line : Text) : Option Invocation :=
  ((tokens line).bind parseTokens).bind fun cmds => runFrom tempPath m cmds.first cmds.rest

def run (line : Text) : Option Invocation := runOn tempPath .start line

end Run

def Redirect.tokens : Redirect → List Token
  | .input target => [.input, .word target]
  | .output fd target => [.output fd, .word target]
  | .duplicate fd target => [.duplicate fd, .word target]

def SimpleCommand.tokens (command : SimpleCommand) : List Token :=
  command.words.map .word ++ command.redirects.flatMap Redirect.tokens

def CommandList.prepend (command : SimpleCommand) (cmds : CommandList) : CommandList :=
  { cmds with
    first := ⟨command.words ++ cmds.first.words, command.redirects ++ cmds.first.redirects⟩ }

theorem parseTokens_redirects (redirects : List Redirect) (rest : List Token) :
    parseTokens (redirects.flatMap Redirect.tokens ++ rest) =
      (parseTokens rest).map (.prepend ⟨[], redirects⟩) := by
  induction redirects with
  | nil =>
    rw [flatMap_nil, nil_append]
    exact Option.map_id'.symm
  | cons r redirects ih =>
    have hparse : ∀ ts, parseTokens (r.tokens ++ ts) = (parseTokens ts).map (·.addRedirect r) := by
      intro ts
      cases r <;> rfl
    rw [flatMap_cons, append_assoc, hparse, ih, Option.map_map]
    rfl

theorem parseTokens_command (command : SimpleCommand) (rest : List Token) :
    parseTokens (command.tokens ++ rest) = (parseTokens rest).map (.prepend command) := by
  obtain ⟨words, redirects⟩ := command
  induction words with
  | nil => exact parseTokens_redirects redirects rest
  | cons w words ih =>
    have hparse : parseTokens ((SimpleCommand.mk (w :: words) redirects).tokens ++ rest) =
        (parseTokens ((SimpleCommand.mk words redirects).tokens ++ rest)).map (·.addWord w) := rfl
    rw [hparse, ih, Option.map_map]
    rfl

section Sequence

variable {tempPath : Text} {m m' : Machine} {a : Text} {command : SimpleCommand}

section
variable (ha : tokens a = some command.tokens)
include ha

theorem runOn_command :
    runOn tempPath m a = invoke tempPath m command := by
  have hparse := parseTokens_command command []
  rw [append_nil] at hparse
  rw [runOn, ha, Option.bind_some, hparse]
  simp [parseTokens, CommandList.prepend, CommandList.empty, runFrom]

theorem runOn_andIf (hexecute : execute tempPath m command = some m') (b : Text) :
    runOn tempPath m (a ++ " && " ++ b) = runOn tempPath m' b := by
  have hline : a ++ " && " ++ b = a ++ ' ' :: ("&&" ++ ' ' :: b) := by simp
  have hand : tokens "&&" = some [.andIf] := by decide +kernel
  rw [runOn, hline, tokens_blank ha, tokens_blank hand, runOn]
  cases tokens b with
  | none => rfl
  | some tb =>
    simp only [Option.map_some, Option.bind_some, parseTokens_command, singleton_append,
      parseTokens]
    cases parseTokens tb with
    | none => rfl
    | some cmds =>
      simp only [Option.map_some, Option.bind_some, CommandList.prepend, CommandList.join,
        append_nil, runFrom, hexecute]

theorem runOn_pipe {b : Text} {cmds : CommandList} (hb : (tokens b).bind parseTokens = some cmds)
    (hrest : (cmds.rest.any fun c => c.1 == .andIf) = false) :
    runOn tempPath m (a ++ " | " ++ b) = invoke tempPath m command := by
  have hline : a ++ " | " ++ b = a ++ ' ' :: ("|" ++ ' ' :: b) := by simp
  have hpipe : tokens "|" = some [.pipe] := by decide +kernel
  obtain ⟨tb, htokens, hparse⟩ := Option.bind_eq_some_iff.mp hb
  rw [runOn, hline, tokens_blank ha, tokens_blank hpipe, htokens]
  simp only [Option.map_some, Option.bind_some, parseTokens_command, singleton_append,
    parseTokens, hparse, CommandList.prepend, CommandList.join, append_nil, runFrom, hrest]
  rfl

end

end Sequence

section
variable (tempPath : Text) (m : Machine) (w : Text)
include tempPath m w

theorem expand_quoted :
    expand tempPath m (w.map .quoted) = some (w, m) := by
  induction w with
  | nil => rfl
  | cons c w ih =>
    rw [map_cons, expand, ih]
    rfl

theorem expand_plain_append (rest : List Fragment) :
    expand tempPath m (w.map .plain ++ rest) =
      (expand tempPath m rest).map fun r => (w ++ r.1, r.2) := by
  induction w with
  | nil => exact Option.map_id'.symm
  | cons c w ih =>
    rw [map_cons, cons_append, expand, ih, Option.map_map]
    rfl

theorem expand_plain :
    expand tempPath m (w.map .plain) = some (w, m) := by
  have h := expand_plain_append tempPath m w []
  simpa [expand] using h

end

def Quoting.fragments (q : Quoting) (w : Text) : List Fragment :=
  match q with
  | .escape => w.map .quoted
  | .posixWord => if !w.isEmpty && w.all isPlain then w.map .plain else w.map .quoted

theorem tokens_apply (q : Quoting) (w : Text) :
    tokens (q.apply w) = some [.word (q.fragments w)] := by
  cases q with
  | escape => exact tokens_escape w
  | posixWord =>
    simp only [Quoting.apply, Quoting.fragments, posixWord]
    split
    · next hplain =>
        simp only [Bool.and_eq_true, Bool.not_eq_true', isEmpty_eq_false_iff,
          all_eq_true] at hplain
        exact tokens_plain hplain.1 hplain.2
    · exact tokens_escape w

theorem expand_fragments (tempPath : Text) (m : Machine) (q : Quoting) (w : Text) :
    expand tempPath m (q.fragments w) = some (w, m) := by
  cases q with
  | escape => exact expand_quoted tempPath m w
  | posixWord =>
    simp only [Quoting.fragments]
    split
    · exact expand_plain tempPath m w
    · exact expand_quoted tempPath m w

def fragmentsOf (ws : List (Quoting × Text)) : List (List Fragment) :=
  ws.map fun w => w.1.fragments w.2

theorem tokens_spaced {a : Text} {ta : List Token} (ha : tokens a = some ta)
    (ws : List (Quoting × Text)) :
    tokens (a ++ spaced ws) = some (ta ++ (fragmentsOf ws).map .word) := by
  induction ws generalizing a ta with
  | nil => simpa [spaced, fragmentsOf] using ha
  | cons w ws ih =>
    have hline : a ++ spaced (w :: ws) = (a ++ ' ' :: w.1.apply w.2) ++ spaced ws := by
      simp [spaced]
    have hfirst : tokens (a ++ ' ' :: w.1.apply w.2) =
        some (ta ++ [.word (w.1.fragments w.2)]) := by
      rw [tokens_blank ha, tokens_apply]
      rfl
    rw [hline, ih hfirst]
    simp [fragmentsOf]

theorem expandAll_fragmentsOf (tempPath : Text) (m : Machine) (ws : List (Quoting × Text)) :
    expandAll tempPath m (fragmentsOf ws) = some (ws.map Prod.snd, m) := by
  induction ws with
  | nil => rfl
  | cons w ws ih =>
    rw [fragmentsOf, map_cons, expandAll, expand_fragments, Option.bind_some]
    exact congrArg (Option.map fun rs => (w.2 :: rs.1, rs.2)) ih

end BridgeMcp.Shell
