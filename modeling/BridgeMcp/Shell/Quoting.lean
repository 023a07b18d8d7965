import BridgeMcp.Lib.Text

/-!
Quoting of one argument for the remote host's shell (`domain/use_cases/shell.rs`).
-/
namespace BridgeMcp.Shell
open TextLib

inductive ShellType where
  | posix
  | cmd
  | powerShell
  deriving DecidableEq

/-- Each of these opens and closes a PowerShell verbatim string. -/
def psSingleQuotes : List Char :=
  ['\'', '\u2018', '\u2019', '\u201A', '\u201B']

/-- Every character is emitted, and a second time when it is a single-quote character. -/
def escapePsSingleQuotedContent : Text → Text
  | [] => []
  | c :: s =>
    if c ∈ psSingleQuotes then c :: c :: escapePsSingleQuotedContent s
    else c :: escapePsSingleQuotedContent s

def escape (s : Text) : ShellType → Text
  | .posix => '\'' :: replaceChar '\'' ['\'', '\\', '\'', '\''] s ++ ['\'']
  | .cmd =>
    let s := replaceChar '^' ['^', '^'] s
    let s := replaceChar '%' ['%', '%'] s
    let s := replaceChar '&' ['^', '&'] s
    let s := replaceChar '|' ['^', '|'] s
    let s := replaceChar '<' ['^', '<'] s
    let s := replaceChar '>' ['^', '>'] s
    let s := replaceChar '"' ['^', '"'] s
    '"' :: s ++ ['"']
  | .powerShell => '\'' :: escapePsSingleQuotedContent s ++ ['\'']

/-- The characters a POSIX shell leaves alone in an unquoted word. -/
def isPlain (c : Char) : Bool :=
  c.isAlphanum || ['-', '_', '.', '/', ':', '=', '@', '%', '+', ','].contains c

def posixWord (word : Text) : Text :=
  if !word.isEmpty && word.all isPlain then word else escape word .posix

/-- The two ways a builder may turn an argument into one POSIX word. -/
inductive Quoting where
  | escape
  | posixWord
  deriving DecidableEq

def Quoting.apply (q : Quoting) (w : Text) : Text :=
  match q with
  | .escape => Shell.escape w .posix
  | .posixWord => Shell.posixWord w

end BridgeMcp.Shell
