import BridgeMcp.Lib.TextScan
import BridgeMcp.Lib.Utf8Bytes
import BridgeMcp.Session.Manager
import BridgeMcp.Shell.Quoting

/-!
One command of a session as the shell is told it and as its answer is read back
(`ssh/session.rs`). The command is wrapped in `echo`s of two markers; the answer is the
command's own output, then the begin marker, the exit code, the working directory and the end
marker, one to a line.
-/
namespace BridgeMcp.Session
open TextLib BridgeMcp.Shell List

/-- The text form of a UUID: five groups of lower-case hexadecimal digits. -/
def isHyphenated (s : Text) : Bool :=
  (s.splitOn '-').map length == [8, 4, 4, 4, 12] &&
    s.all fun c => c == '-' || c.isDigit || 'a' ≤ c && c ≤ 'f'

structure Uuid where
  text : Text
  hyphenated : isHyphenated text = true

def markerPrefix : Text := "---SSHB_"

def beginMarker (id : Uuid) : Text := markerPrefix ++ "B_" ++ id.text ++ "---"

def endMarker (id : Uuid) : Text := markerPrefix ++ "E_" ++ id.text ++ "---"

def buildExecWrapper (shell : ShellType) (command beginMarker endMarker : Text) : Text :=
  match shell with
  | .posix =>
    command ++ "\n__sshb_rc=$?\necho \"" ++ beginMarker ++
      "\"\necho $__sshb_rc\npwd\necho \"" ++ endMarker ++ "\"\n"
  | .cmd =>
    command ++ "\r\necho " ++ beginMarker ++
      "\r\necho %ERRORLEVEL%\r\ncd\r\necho " ++ endMarker ++ "\r\n"
  | .powerShell =>
    command ++
      "\n$__sshb_rc = $LASTEXITCODE; if ($null -eq $__sshb_rc) \x7b $__sshb_rc = 0 \x7d\n" ++
      "Write-Host '" ++ beginMarker ++
      "'\nWrite-Host $__sshb_rc\n(Get-Location).Path\nWrite-Host '" ++ endMarker ++
      "'\n"

def parseExecOutput (raw beginMarker : Text) : Text × Option ℕ × Text :=
  match splitFirst beginMarker raw with
  | some (before, after) =>
    let metadata := lines (trim after)
    (trimEnd before, metadata.head?.bind fun line => parseU32 (trim line),
      (metadata[1]?.map trim).getD ['/'])
  -- no begin marker: the raw text, and no exit code since none was read
  | none => (raw, none, ['/'])

structure SessionExecResult where
  sessionId : SessionId
  output : Text
  exitCode : Option ℕ
  cwd : Text
  deriving DecidableEq

/-- What one command did: the bytes it wrote, its exit code, and the directory it left the shell
in. -/
structure Reply where
  output : List UInt8
  exitCode : ℤ
  cwd : List UInt8

namespace Reply

def bytes (reply : Reply) (eol : Eol) (id : Uuid) : List UInt8 :=
  reply.output ++
    (utf8Bytes (beginMarker id) ++
      (utf8Bytes (eol.text ++ decimal reply.exitCode ++ eol.text) ++
        (reply.cwd ++ utf8Bytes (eol.text ++ endMarker id ++ eol.text))))

/-- The result reports this command and nothing else: its bytes without trailing whitespace, its
exit code when a `u32` can hold it, and its directory. -/
structure ReportedBy (reply : Reply) (result : SessionExecResult) : Prop where
  output : ∃ text, utf8Bytes text = reply.output ∧ result.output = trimEnd text
  exitCode : result.exitCode =
    if 0 ≤ reply.exitCode ∧ reply.exitCode < 2 ^ 32 then some reply.exitCode.toNat else none
  cwd : utf8Bytes result.cwd = reply.cwd

/-- The begin marker does not occur before the place where the shell writes it. -/
def BeginsOnce (reply : Reply) (eol : Eol) (id : Uuid) : Prop :=
  ∀ i < reply.output.length, ¬ utf8Bytes (beginMarker id) <+: (reply.bytes eol id).drop i

/-- The directory's name is one line without whitespace around it. -/
def PlainCwd (reply : Reply) : Prop :=
  '\n' ∉ fromUtf8Lossy reply.cwd ∧ trim (fromUtf8Lossy reply.cwd) = fromUtf8Lossy reply.cwd

end Reply

theorem Uuid.isAscii (id : Uuid) : IsAscii id.text := by
  intro c hc
  have hchar := all_eq_true.mp (Bool.and_eq_true_iff.mp id.hyphenated).2 c hc
  rw [Bool.or_eq_true_iff, Bool.or_eq_true_iff, Bool.and_eq_true_iff] at hchar
  obtain (hdash | hdigit) | ⟨-, hletter⟩ := hchar
  · rw [beq_iff_eq.mp hdash]
    decide
  · have := isDigit_iff.mp hdigit
    omega
  · have hle : c.toNat ≤ 'f'.toNat := UInt32.le_iff_toNat_le.mp (of_decide_eq_true hletter)
    exact Nat.lt_of_le_of_lt hle (by decide)

theorem beginMarker_isAscii (id : Uuid) : IsAscii (beginMarker id) := by
  simp only [beginMarker, isAscii_append]
  exact ⟨⟨⟨by decide, by decide⟩, id.isAscii⟩, by decide⟩

theorem endMarker_isAscii (id : Uuid) : IsAscii (endMarker id) := by
  simp only [endMarker, isAscii_append]
  exact ⟨⟨⟨by decide, by decide⟩, id.isAscii⟩, by decide⟩

theorem eol_isAscii (eol : Eol) : IsAscii eol.text := by cases eol <;> decide

theorem decimal_isAscii (z : ℤ) : IsAscii (decimal z) := by
  intro c hc
  have := mem_decimal hc
  omega

theorem beginMarker_ne_nil (id : Uuid) : beginMarker id ≠ [] := by simp [beginMarker]

theorem raw_split {raw : Text} {reply : Reply} {eol : Eol} {id : Uuid}
    (hraw : utf8Bytes raw = reply.bytes eol id) :
    ∃ text cwd, utf8Bytes text = reply.output ∧ utf8Bytes cwd = reply.cwd ∧
      raw = text ++ beginMarker id ++ (eol.text ++ (decimal reply.exitCode ++ eol.text ++
        (cwd ++ eol.text ++ endMarker id)) ++ eol.text) := by
  rw [Reply.bytes, ← append_assoc] at hraw
  obtain ⟨text, rest, rfl, htext, hrest⟩ :=
    utf8Bytes_split (beginMarker_isAscii id) (beginMarker_ne_nil id) hraw
  have hcode : IsAscii (eol.text ++ decimal reply.exitCode ++ eol.text) :=
    isAscii_append.mpr ⟨isAscii_append.mpr ⟨eol_isAscii eol, decimal_isAscii _⟩, eol_isAscii eol⟩
  obtain ⟨tail, rfl, htail⟩ := utf8Bytes_strip hcode hrest
  have hend : IsAscii (eol.text ++ endMarker id ++ eol.text) :=
    isAscii_append.mpr ⟨isAscii_append.mpr ⟨eol_isAscii eol, endMarker_isAscii id⟩, eol_isAscii eol⟩
  obtain ⟨cwd, u, rfl, hcwd, hu⟩ := utf8Bytes_split hend (by cases eol <;> simp [Eol.text])
    (htail.trans (append_nil _).symm)
  obtain rfl : u = [] := utf8Bytes_injective hu
  exact ⟨text, cwd, htext, hcwd, by simp⟩

theorem splitFirst_raw {text rest : Text} {reply : Reply} {eol : Eol} {id : Uuid}
    (hraw : utf8Bytes (text ++ beginMarker id ++ rest) = reply.bytes eol id)
    (htext : utf8Bytes text = reply.output) (hbegin : reply.BeginsOnce eol id) :
    splitFirst (beginMarker id) (text ++ beginMarker id ++ rest) = some (text, rest) := by
  refine splitFirst_of_first fun t u h => ?_
  by_contra hshort
  -- an earlier occurrence in the text is one in the bytes
  have ht : t <+: text ++ beginMarker id ++ rest := ⟨beginMarker id ++ u, by simp [h]⟩
  have htext' : text <+: text ++ beginMarker id ++ rest := ⟨beginMarker id ++ rest, by simp⟩
  obtain ⟨w, rfl⟩ := prefix_of_prefix_length_le ht htext' (Nat.le_of_not_le hshort)
  have hw : 0 < (utf8Bytes w).length := by
    refine length_pos_iff.mpr fun hnil => ?_
    obtain rfl : w = [] := utf8Bytes_injective hnil
    simp at hshort
  refine hbegin (utf8Bytes t).length ?_ ?_
  · rw [← htext, utf8Bytes_append, length_append]
    omega
  · rw [← hraw, h, utf8Bytes_append, utf8Bytes_append, append_assoc, drop_left]
    exact prefix_append _ _

theorem parseExecOutput_raw {raw : Text} {reply : Reply} {eol : Eol} {id : Uuid}
    (hraw : utf8Bytes raw = reply.bytes eol id) (hbegin : reply.BeginsOnce eol id)
    (hcwd : reply.PlainCwd) :
    ∃ text cwd, utf8Bytes text = reply.output ∧ utf8Bytes cwd = reply.cwd ∧
      parseExecOutput raw (beginMarker id) =
        (trimEnd text, parseU32 (decimal reply.exitCode), cwd) := by
  obtain ⟨text, cwd, htext, hcwdText, rfl⟩ := raw_split hraw
  refine ⟨text, cwd, htext, hcwdText, ?_⟩
  rw [Reply.PlainCwd, ← hcwdText, fromUtf8Lossy_utf8Bytes] at hcwd
  obtain ⟨hline, htrim⟩ := hcwd
  have hmeta : trim (eol.text ++ (decimal reply.exitCode ++ eol.text ++
      (cwd ++ eol.text ++ endMarker id)) ++ eol.text) =
      decimal reply.exitCode ++ eol.text ++ (cwd ++ eol.text ++ endMarker id) := by
    refine trim_pad (eol_whitespace eol) (eol_whitespace eol) ?_ ?_ (by simp [decimal_ne_nil])
    · rw [append_assoc, head?_append_of_ne_nil _ (decimal_ne_nil _)]
      exact fun c hc => decimal_not_whitespace (mem_of_mem_head? hc)
    · intro c hc
      rw [endMarker, ← append_assoc, ← append_assoc, getLast?_append] at hc
      obtain rfl : '-' = c := by simpa using hc
      decide
  have hlines : ∀ rest, lines (decimal reply.exitCode ++ eol.text ++ rest) =
      decimal reply.exitCode :: lines rest :=
    lines_line (fun h => absurd (decimal_not_whitespace h) (by decide))
      (fun h => absurd (decimal_not_whitespace (mem_of_getLast? h)) (by decide)) eol
  have hcwdLine : lines (cwd ++ eol.text ++ endMarker id) = cwd :: lines (endMarker id) := by
    refine lines_line hline (fun h => ?_) eol _
    exact absurd (getLast_not_whitespace htrim h) (by decide)
  simp only [parseExecOutput, splitFirst_raw hraw htext hbegin, hmeta, hlines, hcwdLine]
  simp [trim_decimal, htrim]

end BridgeMcp.Session
