import BridgeMcp.Lib.TextScan
import BridgeMcp.Privilege

/-!
The guard that keeps `exit` out of a persistent session's own shell (`ssh/session.rs`): a scanner that
cuts a line into the segments that run there, and the test of each segment's command.
-/
namespace BridgeMcp.Session
open TextLib BridgeMcp.Shell BridgeMcp.Privilege List

/-- What the source reads in a loop of its own: the rest of a comment, the second character of a pair,
and what stands between `$'` and its closing quote. -/
inductive Reading where
  | plain
  | comment
  | second
  | ansiOpen
  | ansi
  | ansiEscaped
  deriving DecidableEq

structure Scanner where
  segments : List Text
  segment : Text
  depth : ℕ
  expansionDepth : ℕ
  inSingle : Bool
  inDouble : Bool
  inBacktick : Bool
  escaped : Bool
  atWordStart : Bool
  reading : Reading
  deriving DecidableEq

namespace Scanner

def start : Scanner := ⟨[], [], 0, 0, false, false, false, false, true, .plain⟩

def push (s : Scanner) (c : Char) : Scanner := { s with segment := s.segment ++ [c] }

/-- `segments.push(std::mem::take(&mut segment))` -/
def cut (s : Scanner) : Scanner := { s with segments := s.segments ++ [s.segment], segment := [] }

def beginsWord (c : Char) : Bool := isWhitespace c || c ∈ [';', '&', '|', '(', ')']

/-- Outside quotes and backticks; `startsWord` is about the character itself. -/
def bare (s : Scanner) (startsWord : Bool) (c : Char) (next : Option Char) : Scanner :=
  if c = '#' ∧ startsWord = true ∧ s.expansionDepth = 0 then
    let s := if s.depth = 0 then s.cut else s
    { s with atWordStart := true, reading := .comment }
  else if c = '$' ∧ next = some '\x7b' then
    { (s.push '$').push '\x7b' with expansionDepth := s.expansionDepth + 1, reading := .second }
  else if c = '$' ∧ next = some '\'' then
    { (s.push '$').push '\'' with atWordStart := false, reading := .ansiOpen }
  else if c = '$' ∧ next = some '(' then
    { (s.push '$').push '(' with depth := s.depth + 1, reading := .second }
  else if c = '(' ∧ s.expansionDepth = 0 then { s.push c with depth := s.depth + 1 }
  else if c = ')' ∧ 0 < s.depth then { s.push c with depth := s.depth - 1 }
  else if c = '\x7d' ∧ 0 < s.expansionDepth then
    { s.push c with expansionDepth := s.expansionDepth - 1 }
  else if c ∈ [')', ';', '&', '|', '\n'] ∧ s.depth = 0 ∧ s.expansionDepth = 0 then s.cut
  else s.push c

def turn (s : Scanner) (c : Char) (next : Option Char) : Scanner :=
  let startsWord := s.atWordStart
  let s := { s with atWordStart := beginsWord c }
  if s.escaped then { s.push c with escaped := false, atWordStart := false }
  else if c = '\\' ∧ s.inSingle = false then { s.push c with escaped := true }
  else if c = '\'' ∧ s.inDouble = false ∧ s.inBacktick = false then
    { s.push c with inSingle := !s.inSingle }
  else if c = '"' ∧ s.inSingle = false ∧ s.inBacktick = false then
    { s.push c with inDouble := !s.inDouble }
  else if s.inSingle ∨ s.inDouble then s.push c
  else if c = '`' then { s.push c with inBacktick := !s.inBacktick }
  else if s.inBacktick then s.push c
  else s.bare startsWord c next

def step (s : Scanner) (c : Char) (next : Option Char) : Scanner :=
  match s.reading with
  | .plain => s.turn c next
  | .comment => if c = '\n' then { s with reading := .plain } else s
  | .second => { s with reading := .plain }
  | .ansiOpen => { s with reading := .ansi }
  | .ansi =>
    if c = '\\' then { s.push c with reading := .ansiEscaped }
    else if c = '\'' then { s.push c with reading := .plain }
    else s.push c
  | .ansiEscaped => { s.push c with reading := .ansi }

def scan (s : Scanner) : Text → Scanner
  | [] => s
  | c :: rest => scan (s.step c rest.head?) rest

end Scanner

def topLevelSegments (command : Text) : List Text :=
  let s := Scanner.start.scan command
  s.segments ++ [s.segment]

def sameShellLeadingKeywords : List Text :=
  ["\x7b", "!", "if", "then", "elif", "else", "while", "until", "do", "time", "command",
    "builtin"].map String.toList

def isAssignmentPrefix (word : Text) : Bool :=
  match splitFirst ['='] word with
  | none => false
  | some ([], _) => false
  | some (c :: name, _) =>
    (c.isAlpha || c == '_') && name.all fun c => c.isAlphanum || c == '_'

/-- The words from the first, or from the target of a redirection. -/
def wordsRunExit : Bool → List Text → Bool
  | _, [] => false
  | true, _ :: words => wordsRunExit false words
  | false, rawWord :: words =>
    let word := rawWord.takeWhile fun c => c ≠ '<' ∧ c ≠ '>'
    if lower word = "exit" then true
    else if word = [] ∨ word.all Char.isDigit ∨ word ∈ sameShellLeadingKeywords ∨
        isAssignmentPrefix word then
      wordsRunExit (rawWord.getLast? = some '<' ∨ rawWord.getLast? = some '>') words
    else false

def segmentRunsExit (segment : Text) : Bool := wordsRunExit false (splitWhitespace segment)

def commandRunsExitInSessionShell (command : Text) : Bool :=
  (topLevelSegments command).any segmentRunsExit

def outside (segments : List Text) (segment : Text) (depth expansionDepth : ℕ) (atWordStart : Bool) :
    Scanner :=
  ⟨segments, segment, depth, expansionDepth, false, false, false, false, atWordStart, .plain⟩

def within (segments : List Text) (segment : Text) (depth expansionDepth : ℕ) (atWordStart : Bool) :
    Scanner :=
  ⟨segments, segment, depth, expansionDepth, true, false, false, false, atWordStart, .plain⟩

/-- A character that is text wherever it stands, a blank included. -/
def isOrdinary (c : Char) : Bool :=
  c ∉ ['\\', '\'', '"', '`', '#', '$', '(', ')', '\x7d', ';', '&', '|', '\n']

open Scanner

/-- Text that adds itself to the segment and leaves the scanner where it was. -/
def Transparent (text : Text) : Prop :=
  ∀ segments segment depth expansionDepth atWordStart rest, ∃ atWordStart',
    scan (outside segments segment depth expansionDepth atWordStart) (text ++ rest) =
      scan (outside segments (segment ++ text) depth expansionDepth atWordStart') rest

theorem Transparent.append {a b : Text} (ha : Transparent a) (hb : Transparent b) :
    Transparent (a ++ b) := by
  intro segments segment depth expansionDepth atWordStart rest
  obtain ⟨first, hfirst⟩ := ha segments segment depth expansionDepth atWordStart (b ++ rest)
  obtain ⟨second, hsecond⟩ := hb segments (segment ++ a) depth expansionDepth first rest
  refine ⟨second, ?_⟩
  rw [append_assoc, hfirst, hsecond, append_assoc]

theorem transparent_of_ordinary {text : Text} (h : text.all isOrdinary = true) : Transparent text := by
  intro segments segment depth expansionDepth atWordStart rest
  induction text generalizing segment atWordStart with
  | nil => exact ⟨atWordStart, by rw [append_nil, nil_append]⟩
  | cons c text ih =>
    obtain ⟨hc, htext⟩ := Bool.and_eq_true_iff.mp h
    have hstep : ∀ next, (outside segments segment depth expansionDepth atWordStart).step c next =
        outside segments (segment ++ [c]) depth expansionDepth (beginsWord c) := by
      intro next
      simp only [isOrdinary, mem_cons, not_mem_nil, or_false, not_or,
        decide_eq_true_eq] at hc
      simp [step, turn, bare, outside, push, hc]
    obtain ⟨atWordStart', hrest⟩ := ih htext (segment ++ [c]) (beginsWord c)
    refine ⟨atWordStart', ?_⟩
    rw [cons_append, scan, hstep, hrest, append_assoc, singleton_append]

section
variable {segments : List Text} {depth expansionDepth : ℕ}

theorem step_within {c : Char} (h : c ≠ '\'') (segment : Text) (atWordStart : Bool)
    (next : Option Char) :
    (within segments segment depth expansionDepth atWordStart).step c next =
      within segments (segment ++ [c]) depth expansionDepth (beginsWord c) := by
  simp [step, turn, within, push, h]

section
variable (segment : Text) (atWordStart : Bool)
include segment atWordStart

theorem step_open (next : Option Char) :
    (outside segments segment depth expansionDepth atWordStart).step '\'' next =
      within segments (segment ++ ['\'']) depth expansionDepth false := rfl

theorem step_close (next : Option Char) :
    (within segments segment depth expansionDepth atWordStart).step '\'' next =
      outside segments (segment ++ ['\'']) depth expansionDepth false := rfl

theorem scan_requote (rest : Text) :
    scan (within segments segment depth expansionDepth atWordStart)
        ('\'' :: '\\' :: '\'' :: '\'' :: rest) =
      scan (within segments (segment ++ ['\'', '\\', '\'', '\'']) depth expansionDepth false) rest := by
  have hquote : isWhitespace '\'' = false := rfl
  rw [scan, step_close, scan, scan, scan]
  simp [step, turn, outside, within, push, beginsWord, hquote]

end

theorem scan_within (s segment : Text) (atWordStart : Bool) (rest : Text) :
    scan (within segments segment depth expansionDepth atWordStart)
        (replaceChar '\'' ['\'', '\\', '\'', '\''] s ++ '\'' :: rest) =
      scan (outside segments (segment ++ replaceChar '\'' ['\'', '\\', '\'', '\''] s ++ ['\''])
        depth expansionDepth false) rest := by
  induction s generalizing segment atWordStart with
  | nil => rw [replaceChar_nil, nil_append, scan, step_close, append_nil]
  | cons c s ih =>
    by_cases hc : c = '\''
    · subst hc
      rw [replaceChar_cons_self, append_assoc]
      simp only [cons_append, nil_append]
      rw [scan_requote, ih]
      simp
    · rw [replaceChar_cons_ne _ _ hc, cons_append, scan, step_within hc, ih]
      simp

theorem scan_escape (s segment : Text) (atWordStart : Bool) (rest : Text) :
    scan (outside segments segment depth expansionDepth atWordStart) (escape s .posix ++ rest) =
      scan (outside segments (segment ++ escape s .posix) depth expansionDepth false) rest := by
  have hword : escape s .posix ++ rest =
      '\'' :: (replaceChar '\'' ['\'', '\\', '\'', '\''] s ++ '\'' :: rest) := by
    simp [escape]
  rw [hword, scan, step_open, scan_within]
  simp [escape]

end

theorem transparent_escape (s : Text) : Transparent (escape s .posix) :=
  fun _ segment _ _ atWordStart rest => ⟨false, scan_escape s segment atWordStart rest⟩

theorem segments_of_transparent {line : Text} (h : Transparent line) :
    topLevelSegments line = [line] := by
  obtain ⟨last, hscan⟩ := h [] [] 0 0 true []
  rw [append_nil, nil_append] at hscan
  have hstart : start = outside [] [] 0 0 true := rfl
  simp only [topLevelSegments, hstart, hscan]
  rfl

theorem segments_of_separated {a b : Text} (ha : Transparent a) (hb : Transparent b) :
    topLevelSegments (a ++ ';' :: b) = [a, b] := by
  obtain ⟨first, hfirst⟩ := ha [] [] 0 0 true (';' :: b)
  have hcut : ∀ next, (outside [] a 0 0 first).step ';' next = outside [a] [] 0 0 true := fun _ => rfl
  obtain ⟨last, hlast⟩ := hb [a] [] 0 0 true []
  rw [append_nil, nil_append] at hlast
  have hstart : start = outside [] [] 0 0 true := rfl
  simp only [topLevelSegments, hstart, hfirst, nil_append, scan, hcut, hlast]
  rfl

theorem transparent_elevate (s : Text) (user : Option Text) :
    Transparent (elevate s ⟨true, user⟩) := by
  cases user with
  | none =>
    have hfixed : Transparent "sudo -n bash -c " := transparent_of_ordinary rfl
    exact hfixed.append (transparent_escape s)
  | some user =>
    have hfixed : Transparent "sudo -n -u " := transparent_of_ordinary rfl
    have hfixed' : Transparent " bash -c " := transparent_of_ordinary rfl
    exact ((hfixed.append (transparent_escape user)).append hfixed').append (transparent_escape s)

theorem segmentRunsExit_sudo (rest : Text) :
    segmentRunsExit ("sudo" ++ ' ' :: rest) = false := by
  have hword : splitWhitespace ("sudo" ++ ' ' :: rest) =
      "sudo".toList :: splitWhitespace (' ' :: rest) := by
    apply splitWhitespace_word (cons_ne_nil _ _)
    · intro c hc
      simpa using all_eq_true.mp (rfl : "sudo".toList.all (!isWhitespace ·) = true) c hc
    · intro c hc
      cases hc
      rfl
  rw [segmentRunsExit, hword]
  rfl

theorem elevate_starts (s : Text) (user : Option Text) :
    ∃ rest, elevate s ⟨true, user⟩ = "sudo" ++ ' ' :: rest := by
  cases user with
  | none => exact ⟨_, rfl⟩
  | some user => exact ⟨_, rfl⟩

/-- The guard and the bridge's own quoting agree: an elevated line is never refused, an `exit` behind
an escaped word always is, and no escaped word moves the scanner. -/
theorem guard_reads_escapes :
    (∀ s user, commandRunsExitInSessionShell (elevate s ⟨true, user⟩) = false) ∧
    (∀ s, commandRunsExitInSessionShell
      ("echo " ++ escape s .posix ++ " ; exit") = true) ∧
    ∀ s segments segment depth expansionDepth atWordStart rest,
      scan (outside segments segment depth expansionDepth atWordStart) (escape s .posix ++ rest) =
        scan (outside segments (segment ++ escape s .posix) depth expansionDepth false) rest := by
  refine ⟨?_, ?_, ?_⟩
  · intro s user
    obtain ⟨rest, hrest⟩ := elevate_starts s user
    rw [commandRunsExitInSessionShell, segments_of_transparent (transparent_elevate s user)]
    simp only [any_cons, any_nil, Bool.or_false, hrest, segmentRunsExit_sudo]
  · intro s
    have hfixed : Transparent "echo " := transparent_of_ordinary rfl
    have hblank : Transparent " " := transparent_of_ordinary rfl
    have hexit : Transparent " exit" := transparent_of_ordinary rfl
    have hline : "echo " ++ escape s .posix ++ " ; exit" =
        ("echo " ++ escape s .posix ++ " ") ++ ';' :: " exit" := by
      rw [append_assoc _ " ".toList]
      rfl
    rw [commandRunsExitInSessionShell, hline,
      segments_of_separated ((hfixed.append (transparent_escape s)).append hblank) hexit]
    have hruns : segmentRunsExit " exit" = true := by decide
    rw [any_cons, any_cons, hruns, Bool.true_or, Bool.or_true]
  · intro s segments segment depth expansionDepth atWordStart rest
    exact scan_escape s segment atWordStart rest

end BridgeMcp.Session
