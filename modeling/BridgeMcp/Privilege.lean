import BridgeMcp.Shell.Words

/-!
Privilege elevation of a built command (`domain/privilege.rs`), read back by the POSIX word
splitter.
-/
namespace BridgeMcp.Privilege
open TextLib BridgeMcp.Shell

structure PrivilegeArgs where
  «sudo» : Bool
  sudoUser : Option Text
  deriving DecidableEq

/-- The command line to send and the bytes for the remote process's stdin. -/
structure Elevated where
  command : Text
  stdin : Option Text
  deriving DecidableEq

def elevate (command : Text) (args : PrivilegeArgs) : Text :=
  if !args.sudo then command
  else
    let quoted := escape command .posix
    match args.sudoUser with
    | none => "sudo -n bash -c " ++ quoted
    | some user =>
      "sudo -n -u " ++ escape user .posix ++ " bash -c " ++ quoted

def detachStdin (command : Text) : Text := "exec 0</dev/null; " ++ command

def elevateWithPassword (command : Text) (args : PrivilegeArgs) (password : Option Text) :
    Elevated :=
  if !args.sudo then ⟨command, none⟩
  else
    match password with
    | none => ⟨elevate command args, none⟩
    | some password =>
      let quoted := escape (detachStdin command) .posix
      let line :=
        match args.sudoUser with
        | none => "sudo -S -p '' bash -c " ++ quoted
        | some user =>
          "sudo -S -p '' -u " ++ escape user .posix ++ " bash -c " ++ quoted
      ⟨line, some (password ++ ['\n'])⟩

/-- The shared shape of the four forms: the options, the target user when one is given, and the
shell with the one string it runs. -/
def sudoPieces (options : List (Quoting × Text)) (user : Option Text) (inner : Text) :
    List (Quoting × Text) :=
  options ++ user.elim [] (fun user => [(.posixWord, "-u".toList), (.escape, user)]) ++
    [(.posixWord, "bash".toList), (.posixWord, "-c".toList), (.escape, inner)]

def nonInteractive : List (Quoting × Text) :=
  [(.posixWord, "sudo"), (.posixWord, "-n")]

def readsPassword : List (Quoting × Text) :=
  [(.posixWord, "sudo"), (.posixWord, "-S"), (.posixWord, "-p"), (.escape, [])]

theorem posixWord_fixed : ∀ w ∈ ["sudo", "-n", "-S", "-p", "-u", "bash", "-c"].map String.toList,
    posixWord w = w := by
  decide

theorem elevate_line (command : Text) (user : Option Text) :
    elevate command ⟨true, user⟩ = quotedLine (sudoPieces nonInteractive user command) := by
  have fixed := posixWord_fixed
  simp only [List.map_cons, List.map_nil, List.forall_mem_cons, String.reduceToList] at fixed
  cases user with
  | none => simp [elevate, quotedLine, sudoPieces, nonInteractive, Quoting.apply, fixed]
  | some user => simp [elevate, quotedLine, sudoPieces, nonInteractive, Quoting.apply, fixed]

theorem elevateWithPassword_line (command : Text) (user : Option Text) (password : Text) :
    elevateWithPassword command ⟨true, user⟩ (some password) =
      ⟨quotedLine (sudoPieces readsPassword user (detachStdin command)),
        some (password ++ ['\n'])⟩ := by
  have fixed := posixWord_fixed
  simp only [List.map_cons, List.map_nil, List.forall_mem_cons, String.reduceToList] at fixed
  have prompt : escape [] .posix = ['\'', '\''] := rfl
  cases user with
  | none => simp [elevateWithPassword, quotedLine, sudoPieces, readsPassword, Quoting.apply, fixed,
      prompt]
  | some user => simp [elevateWithPassword, quotedLine, sudoPieces, readsPassword, Quoting.apply,
      fixed, prompt]

theorem sudoPieces_words (options : List (Quoting × Text)) (user : Option Text) (inner : Text) :
    shellWords (quotedLine (sudoPieces options user inner)) =
      some (options.map Prod.snd ++ user.elim [] (fun user => ["-u".toList, user]) ++
        ["bash".toList, "-c".toList, inner]) := by
  rw [shellWords_quotedLine]
  cases user <;> simp [sudoPieces]

/-- With elevation requested, the remote shell reads exactly the intended argument vector, the
command and any target user each as one word. Two passwords give the same command line; the
password is only ever the stdin line. -/
theorem elevation_exact (command : Text) (user : Option Text) :
    (shellWords (elevateWithPassword command ⟨true, user⟩ none).command =
        some (["sudo".toList, "-n".toList] ++ user.elim [] (fun user => ["-u".toList, user]) ++
          ["bash".toList, "-c".toList, command]) ∧
      (elevateWithPassword command ⟨true, user⟩ none).stdin = none) ∧
    (∀ password,
      shellWords (elevateWithPassword command ⟨true, user⟩ (some password)).command =
        some (["sudo".toList, "-S".toList, "-p".toList, []] ++
          user.elim [] (fun user => ["-u".toList, user]) ++
          ["bash".toList, "-c".toList, "exec 0</dev/null; ".toList ++ command]) ∧
      (elevateWithPassword command ⟨true, user⟩ (some password)).stdin =
        some (password ++ ['\n'])) ∧
    ∀ password other,
      (elevateWithPassword command ⟨true, user⟩ (some password)).command =
        (elevateWithPassword command ⟨true, user⟩ (some other)).command := by
  refine ⟨⟨?_, rfl⟩, fun password => ?_, fun password other => ?_⟩
  · have hplain : (elevateWithPassword command ⟨true, user⟩ none).command =
        quotedLine (sudoPieces nonInteractive user command) := elevate_line command user
    rw [hplain]
    exact sudoPieces_words nonInteractive user command
  · rw [elevateWithPassword_line]
    exact ⟨sudoPieces_words readsPassword user (detachStdin command), rfl⟩
  · rw [elevateWithPassword_line, elevateWithPassword_line]

end BridgeMcp.Privilege
