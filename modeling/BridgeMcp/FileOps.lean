import BridgeMcp.Lib.TextScan
import BridgeMcp.Shell.Words

/-!
Reading a file by line ranges (`domain/use_cases/file_ops.rs`): the command, the lines that `sed`,
`head` and `cat` print for it, and reading page after page.
-/
namespace BridgeMcp.FileOps
open TextLib Shell List

/-- The command without the path at its end. The numbers are `u64`, and their sum saturates. -/
def readWords (offset limit : Option ℕ) : List (Quoting × Text) :=
  match offset, limit with
  | some off, some lim =>
    let stop := min (off + lim) (2 ^ 64 - 1)
    [(.posixWord, "sed"), (.posixWord, "-n"), (.posixWord, "-e"),
      (.escape, Nat.toDigits 10 off ++ ',' :: (Nat.toDigits 10 stop ++ ['p'])), (.posixWord, "--")]
  | some off, none =>
    [(.posixWord, "sed"), (.posixWord, "-n"), (.posixWord, "-e"),
      (.escape, Nat.toDigits 10 off ++ [',', '$', 'p']), (.posixWord, "--")]
  | none, some lim =>
    [(.posixWord, "head"), (.posixWord, "-n"), (.posixWord, Nat.toDigits 10 lim),
      (.posixWord, "--")]
  | none, none => [(.posixWord, "cat"), (.posixWord, "--")]

def buildReadCommand (path : Text) (offset limit : Option ℕ) : Text :=
  quotedLine (readWords offset limit ++ [(.escape, path)])

/-- `a,bp` on the lines of a file; `$` is the last of them. Line 0 is refused. -/
def sedPrint (script : Text) (lines : List Text) : Option (List Text) :=
  let first := Nat.ofDigitChars 10 (script.takeWhile Char.isDigit) 0
  let rest := script.dropWhile Char.isDigit
  if first = 0 then none
  else if rest.head? = some ',' ∧ rest.tail.dropWhile Char.isDigit = ['p'] then
    let last := Nat.ofDigitChars 10 (rest.tail.takeWhile Char.isDigit) 0
    some ((lines.drop (first - 1)).take (last - first + 1))
  else if rest = [',', '$', 'p'] then some (lines.drop (first - 1))
  else none

/-- The lines that a command prints; `named` are those of the file that an operand names. -/
def printed (named : Text → List Text) : List Text → Option (List Text)
  | [sed, n, e, script, dashes, path] =>
    if [sed, n, e, dashes] = ["sed".toList, "-n".toList, "-e".toList, "--".toList] then
      sedPrint script (named path)
    else none
  | [head, n, count, dashes, path] =>
    if [head, n, dashes] = ["head".toList, "-n".toList, "--".toList] then
      some ((named path).take (Nat.ofDigitChars 10 count 0))
    else none
  | [cat, dashes, path] =>
    if [cat, dashes] = ["cat".toList, "--".toList] then some (named path) else none
  | _ => none

def read (named : Text → List Text) (path : Text) (offset limit : Option ℕ) :
    Option (List Text) :=
  (shellWords (buildReadCommand path offset limit)).bind (printed named)

/-- Pages of `n` lines from line `offset` on, up to the first empty one. -/
def readPages (named : Text → List Text) (path : Text) (n : ℕ) : ℕ → ℕ → Option (List Text)
  | 0, _ => none
  | fuel + 1, offset =>
    (read named path (some offset) (some n)).bind fun page =>
      if page = [] then some [] else (readPages named path n fuel (offset + n)).map (page ++ ·)

variable {named : Text → List Text} {path : Text} {o n : ℕ}

theorem read_eq (offset limit : Option ℕ) : read named path offset limit =
    printed named ((readWords offset limit).map Prod.snd ++ [path]) := by
  rw [read, buildReadCommand, shellWords_quotedLine, map_append]
  rfl

theorem digits_append (n : ℕ) {c : Char} (hc : c.isDigit = false) (r : Text) :
    (Nat.toDigits 10 n ++ c :: r).takeWhile Char.isDigit = Nat.toDigits 10 n ∧
      (Nat.toDigits 10 n ++ c :: r).dropWhile Char.isDigit = c :: r := by
  rw [takeWhile_append_of_pos (isDigit_toDigits n), dropWhile_append_of_pos (isDigit_toDigits n)]
  simp [hc]

theorem read_limit : read named path none (some n) = some ((named path).take n) := by
  have hprinted : read named path none (some n) =
      some ((named path).take (Nat.ofDigitChars 10 (Nat.toDigits 10 n) 0)) := read_eq _ _
  rw [hprinted, Nat.ofDigitChars_ten_toDigits]

theorem read_offset (ho : 1 ≤ o) :
    read named path (some o) none = some ((named path).drop (o - 1)) := by
  obtain ⟨hfirst, hrest⟩ := digits_append o (c := ',') (by decide) ['$', 'p']
  have hprinted : read named path (some o) none = sedPrint _ (named path) := read_eq _ _
  rw [hprinted, sedPrint, hfirst, hrest, Nat.ofDigitChars_ten_toDigits,
    if_neg (Nat.one_le_iff_ne_zero.mp ho), if_neg (by decide)]
  exact if_pos rfl

theorem read_range (ho : 1 ≤ o) : read named path (some o) (some n) =
    some (((named path).drop (o - 1)).take (min (o + n) (2 ^ 64 - 1) - o + 1)) := by
  have hprinted : read named path (some o) (some n) = sedPrint _ (named path) := read_eq _ _
  rw [hprinted]
  generalize min (o + n) (2 ^ 64 - 1) = stop
  obtain ⟨hlast, hend⟩ := digits_append stop (c := 'p') (by decide) []
  obtain ⟨hfirst, hrest⟩ := digits_append o (c := ',') (by decide) (Nat.toDigits 10 stop ++ ['p'])
  rw [sedPrint, hfirst, hrest, Nat.ofDigitChars_ten_toDigits,
    if_neg (Nat.one_le_iff_ne_zero.mp ho), tail_cons, hlast, hend, Nat.ofDigitChars_ten_toDigits]
  exact if_pos ⟨rfl, rfl⟩

theorem length_readPages {fuel : ℕ} {lines : List Text} (ho : 1 ≤ o)
    (hlines : (named path).length < 2 ^ 64)
    (h : readPages named path n fuel o = some lines) :
    (named path).length + 1 - o ≤ lines.length := by
  induction fuel generalizing o lines with
  | zero => cases h
  | succ fuel ih =>
    rw [readPages, read_range ho, Option.bind_some] at h
    split_ifs at h with hempty
    · cases h
      have hlength := congrArg length hempty
      rw [length_take, length_drop, length_nil] at hlength
      omega
    · obtain ⟨rest, hrest, rfl⟩ := Option.map_eq_some_iff.mp h
      have hlength := ih (by omega) hrest
      rw [length_append, length_take, length_drop]
      omega

/-- For every file and all numbers of 64 bits: a limit alone, an offset alone and neither read what
they should. A range has one line too many unless the file ends before it, or the sum is exactly
`2 ^ 64`; and pages of `n` lines give the file back just when it has no more than `n`. -/
theorem ranges_read_iff (named : Text → List Text) (path : Text) (o n : ℕ)
    (ho : 1 ≤ o ∧ o < 2 ^ 64) (hn : 1 ≤ n ∧ n < 2 ^ 64) :
    let lines := named path
    read named path none none = some lines ∧
    read named path none (some n) = some (lines.take n) ∧
    read named path (some o) none = some (lines.drop (o - 1)) ∧
    (read named path (some o) (some n) = some ((lines.take (o + n - 1)).drop (o - 1)) ↔
      lines.length < min (o + n) (2 ^ 64) ∨ o + n = 2 ^ 64) ∧
    (lines.length < 2 ^ 64 →
      ((∃ fuel, readPages named path n fuel 1 = some lines) ↔ lines.length ≤ n)) := by
  refine ⟨read_eq none none, read_limit, read_offset ho.1, ?_, fun hlines => ⟨?_, fun hle => ⟨2, ?_⟩⟩⟩
  · rw [read_range ho.1, Option.some.injEq, drop_take, take_eq_take_iff, length_drop]
    omega
  · rintro ⟨fuel, h⟩
    by_contra hgt
    cases fuel with
    | zero => cases h
    | succ fuel =>
      -- the first page has one line more, and the pages from the second on have all the others
      rw [readPages, read_range le_rfl, Option.bind_some] at h
      split_ifs at h with hempty
      · have hlength := congrArg length hempty
        rw [length_take, length_drop, length_nil] at hlength
        omega
      · obtain ⟨rest, hrest, heq⟩ := Option.map_eq_some_iff.mp h
        have hcount := length_readPages (by omega) hlines hrest
        have hlength := congrArg length heq
        rw [length_append, length_take, length_drop] at hlength
        omega
  · have hfirst : (drop (1 - 1) (named path)).take (min (1 + n) (2 ^ 64 - 1) - 1 + 1) =
        named path := take_of_length_le (by rw [length_drop]; omega)
    rw [readPages, read_range le_rfl, hfirst, Option.bind_some]
    split_ifs with hempty
    · rw [hempty]
    · rw [readPages, read_range (by omega), drop_of_length_le (by omega), take_nil,
        Option.bind_some, if_pos rfl, Option.map_some, append_nil]

theorem ranges_read_iff_hosts : read (fun _ => ["a", "b"]) "/etc/hosts" (some 2)
    (some 1) = some ["b".toList] :=
  (ranges_read_iff _ _ 2 1 (by decide) (by decide)).2.2.2.1.mpr (.inl (by decide))

/-- Of a file of two lines, a range of one line is both of them. -/
theorem one_line_too_many : read (fun _ => ["a", "b"]) "/etc/hosts" (some 1)
    (some 1) = some ["a".toList, "b".toList] ∧
    readPages (fun _ => ["a", "b"]) "/etc/hosts" 1 3 1 =
      some ["a".toList, "b".toList, "b".toList] := by
  rw [readPages, readPages, readPages, read_range (by decide), read_range (by decide),
    read_range (by decide)]
  exact ⟨rfl, rfl⟩

end BridgeMcp.FileOps
