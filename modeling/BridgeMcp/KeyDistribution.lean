import Mathlib.Data.Set.Insert
import BridgeMcp.Lib.LineFile
import BridgeMcp.Lib.Utf8Bytes
import BridgeMcp.Shell.CommandRun
import BridgeMcp.Shell.Hosts

/-!
Adding a public key to `~/.ssh/authorized_keys` (`domain/use_cases/key_management.rs`), and the keys
that sshd reads from the file.
-/
namespace BridgeMcp.KeyDistribution
open TextLib LineFile CheckLib Shell CommandLine List

def keyTypeStarts : List Text :=
  ["ssh-ed25519", "ssh-rsa", "ecdsa-sha2-", "sk-ssh-ed25519", "sk-ecdsa-sha2-"].map String.toList

def validatePublicKey (publicKey : Text) : Except CommandDenied Unit :=
  if publicKey = [] then .error ⟨"Public key must not be empty"⟩
  else if publicKey.contains '\n' || publicKey.contains '\r' then
    .error ⟨"Public key must not contain newlines"⟩
  else if utf8Len publicKey > 10000 then
    .error ⟨"Public key too long: " ++ Nat.toDigits 10 (utf8Len publicKey) ++
      " chars (max 10000)"⟩
  else if !keyTypeStarts.any fun start => decide (start <+: publicKey) then
    .error ⟨"Public key does not start with a recognized key type prefix"⟩
  else .ok ()

def distributeCommand (publicKey : Text) : Text :=
  "mkdir -p ~/.ssh && chmod 700 ~/.ssh && grep -qF -e " ++ (escape publicKey .posix ++
    (" ~/.ssh/authorized_keys 2>/dev/null || printf '%s\\n' " ++ (escape publicKey .posix ++
      " >> ~/.ssh/authorized_keys && chmod 600 ~/.ssh/authorized_keys && echo 'Key distributed successfully'")))

def buildKeyDistributeCommand (publicKey : Text) : Except CommandDenied Text := do
  validatePublicKey publicKey
  .ok (distributeCommand publicKey)

abbrev Bytes := List UInt8

def newline : UInt8 := 10

def isBlankByte (b : UInt8) : Bool := b == 32 || b == 9

/-- A type and a base64 field at the start; `valid` tells whether they are a key. -/
def readAt (valid : Bytes → Bytes → Bool) (s : Bytes) : Option (Bytes × Bytes) :=
  let type := s.takeWhile (!isBlankByte ·)
  let base64 := ((s.dropWhile (!isBlankByte ·)).dropWhile isBlankByte).takeWhile (!isBlankByte ·)
  if valid type base64 then some (type, base64) else none

/-- Past the options in front of a key; blanks between double quotes belong to them. A quote behind a
backslash is skipped with it. -/
def pastOptions (quoted skip : Bool) : Bytes → Option Bytes
  | [] => if quoted then none else some []
  | b :: s =>
    if skip then pastOptions quoted false s
    else if !quoted && isBlankByte b then some (b :: s)
    else if b = 92 ∧ s.head? = some 34 then pastOptions quoted true s
    else pastOptions (if b = 34 then !quoted else quoted) false s

def readKey (valid : Bytes → Bytes → Bool) (line : Bytes) : Option (Bytes × Bytes) :=
  let s := line.dropWhile isBlankByte
  if s = [] ∨ s.head? = some 35 then none
  else
    (readAt valid s).or
      ((pastOptions false false s).bind fun rest => readAt valid (rest.dropWhile isBlankByte))

def keys (valid : Bytes → Bytes → Bool) (content : Bytes) : Set (Bytes × Bytes) :=
  {key | ∃ line ∈ fileLines newline content, readKey valid line = some key}

def keyFile (home : Text) : Text := home ++ "/.ssh/authorized_keys"

def successLine : Bytes := utf8Bytes "Key distributed successfully" ++ [newline]

structure World where
  files : Text → Option Bytes
  out : Bytes

def grepFixed (text : Text) (content : Bytes) : Bool :=
  (fileLines newline content).any fun line => decide (utf8Bytes text <:+: line)

namespace World

def content (w : World) (file : Text) : Bytes := (w.files file).getD []

def print (w : World) (bytes : Bytes) : World := { w with out := w.out ++ bytes }

def append (w : World) (file : Text) (bytes : Bytes) : World :=
  { w with files := fun other =>
      if other = file then some (w.content file ++ bytes) else w.files other }

/-- The utilities of the line. Modes and directories are not recorded. -/
def exec (w : World) (argv : List Text) (targets : List (Redirection Text)) :
    Option (Bool × World) :=
  match argv, targets with
  | [name, first, _], [] =>
    if name = "mkdir" ∧ first = "-p" ∨ name = "chmod" then some (true, w)
    else none
  | [name, flags, flag, text, file], [target] =>
    if name = "grep" ∧ flags = "-qF" ∧ flag = "-e" ∧
        target = ⟨['2'], ['>'], "/dev/null"⟩ then
      some (grepFixed text (w.content file), w)
    else none
  | [name, format, text], [target] =>
    if name = "printf" ∧ format = "%s\\n" ∧ target.fd = ['1'] ∧
        target.op = ['>', '>'] then
      some (true, w.append target.target (utf8Bytes text ++ [newline]))
    else none
  | [name, text], [] =>
    if name = "echo" then some (true, w.print (utf8Bytes text ++ [newline])) else none
  | _, _ => none

def distribute (w : World) (home publicKey : Text) : World :=
  (if grepFixed publicKey (w.content (keyFile home)) then w
    else w.append (keyFile home) (utf8Bytes publicKey ++ [newline])).print successLine

end World

def distributePieces (publicKey : Text) : List Piece :=
  [.bare "mkdir", .bare "-p", .home ".ssh", .opTwice '&',
    .bare "chmod", .bare "700", .home ".ssh", .opTwice '&',
    .bare "grep", .bare "-qF", .bare "-e", .quoted publicKey,
    .home ".ssh/authorized_keys", .redirect ['2'] "/dev/null", .opTwice '|',
    .bare "printf", .quoted "%s\\n", .quoted publicKey, .opTwice '>',
    .home ".ssh/authorized_keys", .opTwice '&', .bare "chmod", .bare "600",
    .home ".ssh/authorized_keys", .opTwice '&', .bare "echo",
    .quoted "Key distributed successfully"]

theorem lineOf_distribute (publicKey : Text) :
    ' ' :: distributeCommand publicKey = lineOf (distributePieces publicKey) := by
  have hformat : escape "%s\\n" .posix = "'%s\\n'" := rfl
  have hdone : escape "Key distributed successfully" .posix =
      "'Key distributed successfully'" := rfl
  simp only [distributePieces, lineOf, flatMap_cons, flatMap_nil, Piece.bare, Piece.quoted,
    Piece.text, Part.text, append_nil, hformat, hdone]
  delta distributeCommand
  repeat rw [String.toList_ofList]
  simp only [cons_append, nil_append]

theorem wellFormed_distribute (publicKey : Text) :
    (distributePieces publicKey).all Piece.wellFormed = true := rfl

def distributeCommands (publicKey : Text) : List (Joint × Simple) :=
  [(.andIf, ⟨[bareWord "mkdir", bareWord "-p", homeWord ".ssh"], []⟩),
    (.andIf, ⟨[bareWord "chmod", bareWord "700", homeWord ".ssh"], []⟩),
    (.andIf, ⟨[bareWord "grep", bareWord "-qF", bareWord "-e",
        quotedWord publicKey, homeWord ".ssh/authorized_keys"],
      [⟨['2'], ['>'], "/dev/null".toList.map (.char · false)⟩]⟩),
    (.orIf, ⟨[bareWord "printf", quotedWord "%s\\n", quotedWord publicKey],
      [⟨['1'], ['>', '>'], homeWord ".ssh/authorized_keys"⟩]⟩),
    (.andIf, ⟨[bareWord "chmod", bareWord "600",
      homeWord ".ssh/authorized_keys"], []⟩),
    (.andIf, ⟨[bareWord "echo", quotedWord "Key distributed successfully"], []⟩)]

theorem parse_distribute (publicKey : Text) :
    parse ((distributePieces publicKey).flatMap Piece.tokens) =
      some (distributeCommands publicKey) := rfl

section Run

variable (home : Text) (value : Text → Text) (capture : Text → Text × Bool)

def setting : Setting World := ⟨home, value, capture, World.exec⟩

theorem run_distribute (publicKey : Text) (w : World) :
    runLine (setting home value capture) (distributeCommand publicKey) w =
      some (true, w.distribute home publicKey) := by
  have hargv : ∀ name first path, expandWords home value capture
      [bareWord name, bareWord first, homeWord path] = some [name, first, home ++ '/' :: path] := by
    intro name first path
    exact expandWords_cons (expandWord_bareWord name) (expandWords_cons (expandWord_bareWord first)
      (expandWords_cons (expandWord_homeWord path) expandWords_nil))
  have hgrep : expandWords home value capture [bareWord "grep", bareWord "-qF",
      bareWord "-e", quotedWord publicKey, homeWord ".ssh/authorized_keys"] =
      some ["grep".toList, "-qF".toList, "-e".toList, publicKey, keyFile home] :=
    expandWords_cons (expandWord_bareWord _) (expandWords_cons (expandWord_bareWord _)
      (expandWords_cons (expandWord_bareWord _) (expandWords_cons (expandWord_quotedWord _)
        (expandWords_cons (expandWord_homeWord _) expandWords_nil))))
  have hprintf : expandWords home value capture [bareWord "printf", quotedWord "%s\\n",
      quotedWord publicKey] = some ["printf".toList, "%s\\n".toList, publicKey] :=
    expandWords_cons (expandWord_bareWord _) (expandWords_cons (expandWord_quotedWord _)
      (expandWords_cons (expandWord_quotedWord _) expandWords_nil))
  have hecho : expandWords home value capture [bareWord "echo",
      quotedWord "Key distributed successfully"] =
      some ["echo".toList, "Key distributed successfully".toList] :=
    expandWords_cons (expandWord_bareWord _) (expandWords_cons (expandWord_quotedWord _) expandWords_nil)
  have hnull : expandTargets home value capture
      [⟨['2'], ['>'], "/dev/null".toList.map (.char · false)⟩] =
      some [⟨['2'], ['>'], "/dev/null"⟩] :=
    expandTargets_cons (expandWord_chars _ false) expandTargets_nil
  have hfile : expandTargets home value capture
      [⟨['1'], ['>', '>'], homeWord ".ssh/authorized_keys"⟩] =
      some [⟨['1'], ['>', '>'], keyFile home⟩] :=
    expandTargets_cons (expandWord_homeWord _) expandTargets_nil
  have hfinish : ∀ w : World, runCommands (setting home value capture)
      [(.andIf, ⟨[bareWord "chmod", bareWord "600",
          homeWord ".ssh/authorized_keys"], []⟩),
        (.andIf, ⟨[bareWord "echo", quotedWord "Key distributed successfully"], []⟩)]
      true value w =
      some (true, w.print successLine) := by
    intro w
    rw [runCommands_exec rfl rfl (hargv _ _ _) rfl rfl, runCommands_exec rfl rfl hecho rfl rfl]
    rfl
  rw [runLine_of_pieces (lineOf_distribute publicKey) (wellFormed_distribute publicKey)
    (parse_distribute publicKey), distributeCommands, runCommands_exec rfl rfl (hargv _ _ _) rfl rfl,
    runCommands_exec rfl rfl (hargv _ _ _) rfl rfl, runCommands_exec rfl rfl hgrep hnull rfl]
  cases hfound : grepFixed publicKey (w.content (keyFile home)) with
  | true =>
    rw [runCommands_skip rfl]
    refine (hfinish w).trans ?_
    rw [World.distribute, hfound]
    rfl
  | false =>
    rw [runCommands_exec rfl rfl hprintf hfile rfl]
    refine (hfinish _).trans ?_
    rw [World.distribute, hfound]
    rfl

end Run

theorem newline_notMem_utf8Bytes {s : Text} (h : '\n' ∉ s) : newline ∉ utf8Bytes s := by
  intro hmem
  obtain ⟨left, right, hs⟩ := append_of_mem hmem
  obtain ⟨t, u, rfl, -, -⟩ := utf8Bytes_split_char (a := '\n') (by decide) hs
  exact h (mem_append_right t mem_cons_self)

theorem utf8Bytes_ne_nil {s : Text} (h : s ≠ []) : utf8Bytes s ≠ [] := by
  intro hnil
  have hlen := length_utf8Bytes s
  rw [hnil] at hlen
  exact h (utf8Len_eq_zero.mp hlen.symm)

theorem key_of_build {publicKey command : Text}
    (h : buildKeyDistributeCommand publicKey = .ok command) :
    publicKey ≠ [] ∧ '\n' ∉ publicKey ∧ command = distributeCommand publicKey := by
  rw [buildKeyDistributeCommand] at h
  obtain ⟨_, hvalid, hcommand⟩ := exists_of_bind h
  cases hcommand
  rw [validatePublicKey] at hvalid
  split_ifs at hvalid with hempty hline
  refine ⟨hempty, ?_, rfl⟩
  intro hmem
  apply hline
  rw [contains_iff_mem.mpr hmem, Bool.true_or]

section Content

variable {valid : Bytes → Bytes → Bool} {publicKey : Text} {key : Bytes × Bytes} {content : Bytes}

theorem keys_of_lines {lines : List Bytes} {line : Bytes}
    (h : fileLines newline content = lines ++ [line]) :
    keys valid content = {key | (∃ line ∈ lines, readKey valid line = some key) ∨
      readKey valid line = some key} := by
  ext key
  rw [keys, Set.mem_ofPred_eq, Set.mem_ofPred_eq, h]
  simp only [mem_append, mem_singleton, or_and_right, exists_or, exists_eq_left]

theorem fileLines_written (hone : '\n' ∉ publicKey) (hfinished : Finished newline content) :
    fileLines newline (content ++ (utf8Bytes publicKey ++ [newline])) =
      fileLines newline content ++ [utf8Bytes publicKey] := by
  obtain ⟨lines, rest, rfl, hlines, hrest⟩ := exists_ended newline content
  have hnil := (finished_ended_iff hrest).mp hfinished
  rw [fileLines_append hlines hrest (newline_notMem_utf8Bytes hone), fileLines_parts hlines hrest,
    if_pos hnil, hnil, append_nil, nil_append]

theorem keys_written (hone : '\n' ∉ publicKey) (hkey : readKey valid (utf8Bytes publicKey) = some key)
    (hfinished : Finished newline content) :
    keys valid (content ++ (utf8Bytes publicKey ++ [newline])) = insert key (keys valid content) := by
  ext other
  rw [keys_of_lines (fileLines_written hone hfinished), hkey, Set.mem_ofPred_eq, Set.mem_insert_iff,
    Option.some.injEq, or_comm, eq_comm]
  rfl

theorem not_sublist_written (hne : publicKey ≠ []) (hone : '\n' ∉ publicKey)
    (hopen : ¬ Finished newline content) :
    ¬ (fileLines newline content).Sublist
      (fileLines newline (content ++ (utf8Bytes publicKey ++ [newline]))) := by
  obtain ⟨lines, rest, rfl, hlines, hrest⟩ := exists_ended newline content
  have hnil : rest ≠ [] := fun hnil => hopen ((finished_ended_iff hrest).mpr hnil)
  rw [fileLines_append hlines hrest (newline_notMem_utf8Bytes hone), fileLines_parts hlines hrest,
    if_neg hnil]
  intro hsub
  have hlast := append_cancel_left (hsub.eq_of_length (by simp))
  exact utf8Bytes_ne_nil hne (by simpa using hlast)

theorem grepFixed_written (hone : '\n' ∉ publicKey) :
    grepFixed publicKey (content ++ (utf8Bytes publicKey ++ [newline])) = true := by
  obtain ⟨lines, rest, rfl, hlines, hrest⟩ := exists_ended newline content
  rw [grepFixed, fileLines_append hlines hrest (newline_notMem_utf8Bytes hone), any_append]
  have hlast : utf8Bytes publicKey <:+: rest ++ utf8Bytes publicKey :=
    (suffix_append rest _).isInfix
  simp [hlast]

end Content

/-- The file already gives the key where a line holds its text, and is empty or ended otherwise. -/
def Distributable (valid : Bytes → Bytes → Bool) (publicKey : Text) (key : Bytes × Bytes)
    (content : Bytes) : Prop :=
  if grepFixed publicKey content then key ∈ keys valid content else Finished newline content

/-- The keys are the old ones and the new one, and every old line is still a line. -/
def Adds (valid : Bytes → Bytes → Bool) (key : Bytes × Bytes) (old new : Bytes) : Prop :=
  keys valid new = insert key (keys valid old) ∧
    (fileLines newline old).Sublist (fileLines newline new)

namespace World

theorem content_distribute (w : World) (home publicKey : Text) :
    (w.distribute home publicKey).content (keyFile home) =
      if grepFixed publicKey (w.content (keyFile home)) then w.content (keyFile home)
      else w.content (keyFile home) ++ (utf8Bytes publicKey ++ [newline]) := by
  rw [distribute]
  split_ifs with hfound
  · rfl
  · simp [print, append, content]

theorem out_distribute (w : World) (home publicKey : Text) :
    (w.distribute home publicKey).out = w.out ++ successLine := by
  rw [distribute]
  split_ifs with hfound
  · rfl
  · rfl

theorem files_distribute_twice (w : World) (home : Text) {publicKey : Text}
    (hone : '\n' ∉ publicKey) :
    ((w.distribute home publicKey).distribute home publicKey).files =
      (w.distribute home publicKey).files := by
  have hfound : grepFixed publicKey ((w.distribute home publicKey).content (keyFile home)) =
      true := by
    rw [content_distribute]
    split_ifs with hfound
    · exact hfound
    · exact grepFixed_written hone
  rw [distribute, if_pos hfound]
  rfl

end World

theorem adds_distribute_iff {valid : Bytes → Bytes → Bool} {publicKey : Text} {key : Bytes × Bytes}
    (hne : publicKey ≠ []) (hone : '\n' ∉ publicKey)
    (hkey : readKey valid (utf8Bytes publicKey) = some key) (home : Text) (w : World) :
    Adds valid key (w.content (keyFile home))
        ((w.distribute home publicKey).content (keyFile home)) ↔
      Distributable valid publicKey key (w.content (keyFile home)) := by
  rw [w.content_distribute, Distributable]
  split_ifs with hfound
  · rw [Adds, eq_comm, Set.insert_eq_self, and_iff_left (List.Sublist.refl _)]
  · constructor
    · intro h
      by_contra hopen
      exact not_sublist_written hne hone hopen h.2
    · intro hfinished
      refine ⟨keys_written hone hkey hfinished, ?_⟩
      rw [fileLines_written hone hfinished]
      exact sublist_append_left _ _

/-- The line always ends well and reports success. The key was added, and nothing else changed, just
when no line held its text without giving the key, and no line was left open for it to run into. -/
theorem distributed_iff {publicKey command : Text}
    (h : buildKeyDistributeCommand publicKey = .ok command) {valid : Bytes → Bytes → Bool}
    {key : Bytes × Bytes} (hkey : readKey valid (utf8Bytes publicKey) = some key) (home : Text)
    (value : Text → Text) (capture : Text → Text × Bool) (w : World) :
    ∃ w', runLine (setting home value capture) command w = some (true, w') ∧
      w'.out = w.out ++ successLine ∧
      (Adds valid key (w.content (keyFile home)) (w'.content (keyFile home)) ∧
          (∃ w'', runLine (setting home value capture) command w' = some (true, w'') ∧
            w''.files = w'.files) ↔
        Distributable valid publicKey key (w.content (keyFile home))) := by
  obtain ⟨hne, hone, rfl⟩ := key_of_build h
  refine ⟨w.distribute home publicKey, run_distribute home value capture publicKey w,
    w.out_distribute home publicKey, ?_⟩
  rw [adds_distribute_iff hne hone hkey home w]
  refine and_iff_left ?_
  exact ⟨_, run_distribute home value capture publicKey _, w.files_distribute_twice home hone⟩

def plainKey (type base64 : Bytes) : Bool :=
  (type == utf8Bytes "ssh-ed25519" || type == utf8Bytes "ssh-rsa") &&
    base64.all fun b => (65 ≤ b && b ≤ 90) || (97 ≤ b && b ≤ 122) || (48 ≤ b && b ≤ 57)

def hostWith (file : Text) (content : Bytes) : World :=
  ⟨fun other => if other = file then some content else none, []⟩

theorem out_hostWith (file : Text) (content : Bytes) : (hostWith file content).out = [] := rfl

theorem content_hostWith (file : Text) (content : Bytes) :
    (hostWith file content).content file = content := by
  simp [World.content, hostWith]

theorem distributed_iff_ended :
    ∃ w', runLine (setting "/root" (fun _ => []) fun _ => ([], true))
        (distributeCommand "ssh-ed25519 AAAAC3 b@y")
        (hostWith (keyFile "/root") (utf8Bytes "ssh-rsa AAAAB3\n")) =
        some (true, w') ∧
      Adds plainKey (utf8Bytes "ssh-ed25519", utf8Bytes "AAAAC3")
        (utf8Bytes "ssh-rsa AAAAB3\n") (w'.content (keyFile "/root")) := by
  have hbuild : buildKeyDistributeCommand "ssh-ed25519 AAAAC3 b@y" =
      .ok (distributeCommand "ssh-ed25519 AAAAC3 b@y") := rfl
  have hkey : readKey plainKey (utf8Bytes "ssh-ed25519 AAAAC3 b@y") =
      some (utf8Bytes "ssh-ed25519", utf8Bytes "AAAAC3") := rfl
  have habsent : grepFixed "ssh-ed25519 AAAAC3 b@y" (utf8Bytes "ssh-rsa AAAAB3\n") =
      false := rfl
  obtain ⟨w', hrun, -, hiff⟩ := distributed_iff hbuild hkey "/root" (fun _ => [])
    (fun _ => ([], true)) (hostWith (keyFile "/root") (utf8Bytes "ssh-rsa AAAAB3\n"))
  rw [content_hostWith] at hiff
  refine ⟨w', hrun, (hiff.mpr ?_).1⟩
  rw [Distributable, habsent]
  exact .inr rfl

/-- The file's only line had no newline at its end. The line reports success, and afterwards sshd
reads no key from the file. -/
theorem open_line_swallows_key :
    ∃ w', buildKeyDistributeCommand "ssh-ed25519 AAAAC3 b@y" =
        .ok (distributeCommand "ssh-ed25519 AAAAC3 b@y") ∧
      runLine (setting "/root" (fun _ => []) fun _ => ([], true))
        (distributeCommand "ssh-ed25519 AAAAC3 b@y")
        (hostWith (keyFile "/root") (utf8Bytes "ssh-rsa AAAAB3")) =
        some (true, w') ∧
      w'.out = successLine ∧
      readKey plainKey (utf8Bytes "ssh-rsa AAAAB3") =
        some (utf8Bytes "ssh-rsa", utf8Bytes "AAAAB3") ∧
      w'.content (keyFile "/root") =
        utf8Bytes "ssh-rsa AAAAB3ssh-ed25519 AAAAC3 b@y\n" ∧
      ∀ line ∈ fileLines newline (utf8Bytes "ssh-rsa AAAAB3ssh-ed25519 AAAAC3 b@y\n"),
        readKey plainKey line = none := by
  have habsent : grepFixed "ssh-ed25519 AAAAC3 b@y" (utf8Bytes "ssh-rsa AAAAB3") =
      false := rfl
  have hlines : fileLines newline (utf8Bytes "ssh-rsa AAAAB3ssh-ed25519 AAAAC3 b@y\n") =
      [utf8Bytes "ssh-rsa AAAAB3ssh-ed25519 AAAAC3 b@y"] := rfl
  have hread : readKey plainKey (utf8Bytes "ssh-rsa AAAAB3ssh-ed25519 AAAAC3 b@y") = none :=
    rfl
  refine ⟨_, rfl, run_distribute _ _ _ _ _, ?_, rfl, ?_, ?_⟩
  · rw [World.out_distribute, out_hostWith, nil_append]
  · rw [World.content_distribute, content_hostWith, habsent, if_neg Bool.false_ne_true]
    rfl
  · rw [hlines]
    intro line hline
    rw [mem_singleton.mp hline]
    exact hread

end BridgeMcp.KeyDistribution
