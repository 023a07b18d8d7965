import BridgeMcp.Lib.Checks
import BridgeMcp.Lib.IpAddr

/-!
Checks of single argument values that several builders share (`domain/use_cases/shell.rs`).
-/
namespace BridgeMcp.Shell
open CheckLib TextLib IpLib

structure CommandDenied where
  reason : Text
  deriving DecidableEq

/-- In a slot where the remote program still reads options. -/
def refuseOptionLike (arg value : Text) : Except CommandDenied Unit :=
  if value.head? = some '-' then
    .error
      ⟨'\'' :: arg ++
        "' must not start with '-': the remote program would read it as an option"⟩
  else .ok ()

def ifGiven (value : Option Text) (check : Text → Except CommandDenied Unit) :
    Except CommandDenied Unit :=
  match value with
  | none => .ok ()
  | some v => check v

/-- Another name, a short form or a bracketed address is another machine. -/
def isLoopbackHost (host : Text) : Bool :=
  lower host == "localhost" ||
    (parseIpAddr host).any fun ip => ip.toCanonical.isLoopback

def binaryDirs : List Text :=
  ["/usr/bin", "/bin", "/usr/local/bin", "/usr/sbin", "/sbin", "/usr/local/sbin", "/opt/bin",
    "/snap/bin", "/var/lib/rancher/rke2/bin"].map String.toList

def isVersionSuffix (rest : Text) : Bool :=
  if rest.isEmpty then true
  else
    let rest := (stripPrefix ['-'] rest).getD rest
    let rest := (stripPrefix ['v'] rest).getD rest
    rest.head?.any Char.isDigit && rest.all fun c => c.isDigit || c == '.'

def isBinaryChar (c : Char) : Bool := c.isAlphanum || ['/', '-', '_', '.'].contains c

def isNamedBinaryIn (bin : Text) (names extraDirs : List Text) : Bool :=
  if bin.isEmpty || bin.head? == some '-' || !bin.all isBinaryChar then false
  else
    let named (file : Text) := names.any fun name =>
      (stripPrefix name file).any isVersionSuffix
    match splitLast '/' bin with
    | none => named bin
    | some (dir, file) =>
      bin.head? == some '/' && (binaryDirs.contains dir || extraDirs.contains dir) && named file

/-- A program by its name, alone or in a directory of the system, with a version at most. -/
def isNamedBinary (bin : Text) (names : List Text) : Bool := isNamedBinaryIn bin names []

theorem isNamedBinary_chars {bin : Text} {names : List Text} (h : isNamedBinary bin names = true) :
    bin ≠ [] ∧ ∀ c ∈ bin, isBinaryChar c = true := by
  unfold isNamedBinary isNamedBinaryIn at h
  split_ifs at h with hshape
  simp only [Bool.or_eq_true, Bool.not_eq_true', not_or, Bool.not_eq_false] at hshape
  exact ⟨by simpa using hshape.1.1, List.all_eq_true.mp hshape.2⟩

end BridgeMcp.Shell
