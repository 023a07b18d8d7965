import BridgeMcp.Lib.Utf8Bytes

/-!
Collecting what a remote command says: two streams of bytes that share one limit, the exit status
and the exit signal, in whatever order the channel brings them.
-/
namespace BridgeMcp.Connections.CommandOutput
open TextLib

inductive Sig where
  | HUP | INT | QUIT | ILL | ABRT | FPE | KILL | USR1 | SEGV | PIPE | ALRM | TERM
  | Custom (name : Text)

def signalExitCode : Sig → ℕ
  | .HUP => 129
  | .INT => 130
  | .QUIT => 131
  | .ILL => 132
  | .ABRT => 134
  | .FPE => 136
  | .KILL => 137
  | .USR1 => 138
  | .SEGV => 139
  | .PIPE => 141
  | .ALRM => 142
  | .TERM => 143
  | .Custom _ => 255

theorem signalExitCode_ne_zero (signal : Sig) : signalExitCode signal ≠ 0 := by
  cases signal <;> exact Nat.succ_ne_zero _

def resolveExitCode (exitStatus exitSignal : Option ℕ) : Option ℕ :=
  match exitSignal, exitStatus with
  | some sig, _ => some sig
  | none, some status => some status
  | none, none => none

/-- `other` is every message without an arm of its own, such as `Eof`. -/
inductive ChannelMsg where
  | data (data : List UInt8)
  | extendedData (data : List UInt8) (ext : ℕ)
  | exitStatus (status : ℕ)
  | exitSignal (signalName : Sig)
  | other

structure LimitsConfig where
  maxOutputBytes : ℕ
  commandTimeoutSeconds : ℕ

structure Reading where
  stdout : List UInt8 := []
  stderr : List UInt8 := []
  exitStatus : Option ℕ := none
  exitSignal : Option ℕ := none
  totalBytes : ℕ := 0
  overLimit : Bool := false

def Reading.chunk (maxOutputBytes : ℕ) (r : Reading) (data : List UInt8) (kept : Reading) :
    Reading :=
  let totalBytes := r.totalBytes + data.length
  if totalBytes ≤ maxOutputBytes then { kept with totalBytes := totalBytes }
  else { r with totalBytes := totalBytes, overLimit := true }

def Reading.step (maxOutputBytes : ℕ) (r : Reading) : ChannelMsg → Reading
  | .data data => r.chunk maxOutputBytes data { r with stdout := r.stdout ++ data }
  | .extendedData data ext =>
    if ext = 1 then r.chunk maxOutputBytes data { r with stderr := r.stderr ++ data } else r
  | .exitStatus status => { r with exitStatus := some status }
  | .exitSignal signalName => { r with exitSignal := some (signalExitCode signalName) }
  | .other => r

def read (maxOutputBytes : ℕ) (messages : List ChannelMsg) : Reading :=
  messages.foldl (Reading.step maxOutputBytes) {}

def transportNote (maxOutputBytes totalBytes : ℕ) : List UInt8 :=
  utf8Bytes ("\n\n--- [output stopped at the " ++ Nat.toDigits 10 maxOutputBytes ++
    " byte transport limit; the command produced " ++ Nat.toDigits 10 totalBytes ++
    " bytes] ---\n")

inductive BridgeError where
  | sshTimeout (seconds : ℕ)

/-- `inTime` says whether the channel closed before the time limit. -/
def readCommandOutput (limits : LimitsConfig) (messages : List ChannelMsg) (inTime : Bool) :
    Except BridgeError (List UInt8 × List UInt8 × ℕ) :=
  if inTime then
    let r := read limits.maxOutputBytes messages
    .ok (r.stdout ++ (if r.overLimit then transportNote limits.maxOutputBytes r.totalBytes else []),
      r.stderr, (resolveExitCode r.exitStatus r.exitSignal).getD 0)
  else .error (.sshTimeout limits.commandTimeoutSeconds)

def ChannelMsg.stdout : ChannelMsg → List UInt8
  | .data bytes => bytes
  | _ => []

def ChannelMsg.stderr : ChannelMsg → List UInt8
  | .extendedData bytes ext => if ext = 1 then bytes else []
  | _ => []

def ChannelMsg.status : ChannelMsg → Option ℕ
  | .exitStatus status => some status
  | _ => none

def ChannelMsg.signal : ChannelMsg → Option Sig
  | .exitSignal signalName => some signalName
  | _ => none

def sentStdout (messages : List ChannelMsg) : List UInt8 := messages.flatMap ChannelMsg.stdout

def sentStderr (messages : List ChannelMsg) : List UInt8 := messages.flatMap ChannelMsg.stderr

def sentBytes (messages : List ChannelMsg) : ℕ :=
  (sentStdout messages).length + (sentStderr messages).length

def exitCode (messages : List ChannelMsg) : ℕ :=
  match (messages.filterMap ChannelMsg.signal).getLast? with
  | some signal => signalExitCode signal
  | none => (messages.filterMap ChannelMsg.status).getLast?.getD 0

/-- The loop's variables after `out` and `err` were sent: all of it is kept as long as the limit is
not passed, and nothing after that. -/
structure Kept (maxOutputBytes : ℕ) (out err : List UInt8) (r : Reading) : Prop where
  total : r.totalBytes = out.length + err.length
  limit : r.overLimit = true ↔ maxOutputBytes < r.totalBytes
  complete : r.totalBytes ≤ maxOutputBytes → r.stdout = out ∧ r.stderr = err
  stdout : r.stdout <+: out
  stderr : r.stderr <+: err
  bounded : r.stdout.length + r.stderr.length ≤ maxOutputBytes

variable {maxOutputBytes : ℕ} {out err : List UInt8} {r : Reading}

theorem Kept.chunk (h : Kept maxOutputBytes out err r) {data moreOut moreErr : List UInt8}
    {kept : Reading} (hlen : data.length = moreOut.length + moreErr.length)
    (hout : kept.stdout = r.stdout ++ moreOut) (herr : kept.stderr = r.stderr ++ moreErr)
    (hover : kept.overLimit = r.overLimit) :
    Kept maxOutputBytes (out ++ moreOut) (err ++ moreErr) (r.chunk maxOutputBytes data kept) := by
  have htotal := h.total
  have hsum : r.totalBytes + data.length = (out ++ moreOut).length + (err ++ moreErr).length := by
    rw [List.length_append, List.length_append]
    omega
  unfold Reading.chunk
  dsimp only
  split
  · next hle =>
    obtain ⟨rfl, rfl⟩ := h.complete (by omega)
    have hwithin : ¬ kept.overLimit = true := by
      rw [hover, h.limit]
      omega
    refine ⟨hsum, iff_of_false hwithin (by dsimp only; omega), fun _ => ⟨hout, herr⟩,
      hout ▸ List.prefix_rfl, herr ▸ List.prefix_rfl, ?_⟩
    dsimp only
    rw [hout, herr, ← hsum]
    exact hle
  · next hgt =>
    exact ⟨hsum, iff_of_true rfl (not_le.mp hgt), fun hle => absurd hle hgt,
      h.stdout.trans (List.prefix_append _ _), h.stderr.trans (List.prefix_append _ _), h.bounded⟩

theorem Kept.step (h : Kept maxOutputBytes out err r) (m : ChannelMsg) :
    Kept maxOutputBytes (out ++ m.stdout) (err ++ m.stderr) (r.step maxOutputBytes m) := by
  have hquiet : ∀ {r' : Reading}, r'.stdout = r.stdout → r'.stderr = r.stderr →
      r'.totalBytes = r.totalBytes → r'.overLimit = r.overLimit →
      Kept maxOutputBytes (out ++ []) (err ++ []) r' := by
    rintro ⟨⟩ rfl rfl rfl rfl
    rw [List.append_nil, List.append_nil]
    exact ⟨h.total, h.limit, h.complete, h.stdout, h.stderr, h.bounded⟩
  cases m with
  | data data => exact h.chunk (Nat.add_zero _).symm rfl (List.append_nil _).symm rfl
  | extendedData data ext =>
    by_cases hext : ext = 1
    · rw [ChannelMsg.stderr, Reading.step, if_pos hext, if_pos hext]
      exact h.chunk (Nat.zero_add _).symm (List.append_nil _).symm rfl rfl
    · rw [ChannelMsg.stderr, Reading.step, if_neg hext, if_neg hext]
      exact hquiet rfl rfl rfl rfl
  | exitStatus status => exact hquiet rfl rfl rfl rfl
  | exitSignal signalName => exact hquiet rfl rfl rfl rfl
  | other => exact hquiet rfl rfl rfl rfl

theorem read_kept (maxOutputBytes : ℕ) (messages : List ChannelMsg) :
    Kept maxOutputBytes (sentStdout messages) (sentStderr messages)
      (read maxOutputBytes messages) := by
  induction messages using List.reverseRecOn with
  | nil =>
    exact ⟨rfl, iff_of_false Bool.false_ne_true (Nat.not_lt_zero _), fun _ => ⟨rfl, rfl⟩,
      List.prefix_rfl, List.prefix_rfl, Nat.zero_le _⟩
  | append_singleton messages m ih =>
    rw [sentStdout, sentStderr, List.flatMap_append, List.flatMap_append,
      List.flatMap_singleton, List.flatMap_singleton, read, List.foldl_concat]
    exact ih.step m

theorem step_reports (r : Reading) (m : ChannelMsg) :
    (r.step maxOutputBytes m).exitStatus = m.status.or r.exitStatus ∧
    (r.step maxOutputBytes m).exitSignal = (m.signal.map signalExitCode).or r.exitSignal := by
  cases m with
  | data data =>
    simp only [Reading.step, Reading.chunk]
    split <;> exact ⟨rfl, rfl⟩
  | extendedData data ext =>
    simp only [Reading.step, Reading.chunk]
    split
    · split <;> exact ⟨rfl, rfl⟩
    · exact ⟨rfl, rfl⟩
  | exitStatus status => exact ⟨rfl, rfl⟩
  | exitSignal signalName => exact ⟨rfl, rfl⟩
  | other => exact ⟨rfl, rfl⟩

theorem getLast?_filterMap_concat {α β : Type} (f : α → Option β) (l : List α) (a : α) :
    ((l ++ [a]).filterMap f).getLast? = (f a).or (l.filterMap f).getLast? := by
  rw [List.filterMap_append]
  cases h : f a with
  | none => simp [h]
  | some b => simp [h]

theorem read_reports (maxOutputBytes : ℕ) (messages : List ChannelMsg) :
    (read maxOutputBytes messages).exitStatus =
      (messages.filterMap ChannelMsg.status).getLast? ∧
    (read maxOutputBytes messages).exitSignal =
      (messages.filterMap ChannelMsg.signal).getLast?.map signalExitCode := by
  induction messages using List.reverseRecOn with
  | nil => exact ⟨rfl, rfl⟩
  | append_singleton messages m ih =>
    rw [read, List.foldl_concat, ← read, (step_reports _ m).1, (step_reports _ m).2, ih.1, ih.2,
      getLast?_filterMap_concat, getLast?_filterMap_concat]
    cases m.signal <;> exact ⟨rfl, rfl⟩

theorem read_exitCode (maxOutputBytes : ℕ) (messages : List ChannelMsg) :
    (resolveExitCode (read maxOutputBytes messages).exitStatus
      (read maxOutputBytes messages).exitSignal).getD 0 = exitCode messages := by
  rw [(read_reports _ _).1, (read_reports _ _).2, exitCode]
  cases (messages.filterMap ChannelMsg.signal).getLast? with
  | some signal => rfl
  | none => cases (messages.filterMap ChannelMsg.status).getLast? <;> rfl

/-- For every sequence of messages that ends with the close of the channel in time: what is
returned are prefixes of the two streams, with the note exactly if something is missing; nothing is
missing within the limit; and the exit code is the last signal's, else the last status, else 0. -/
theorem output_faithful (limits : LimitsConfig) (messages : List ChannelMsg) :
    ∃ out err note, readCommandOutput limits messages true =
        .ok (out ++ note, err, exitCode messages) ∧
      out <+: sentStdout messages ∧ err <+: sentStderr messages ∧
      note = (if out = sentStdout messages ∧ err = sentStderr messages then []
        else transportNote limits.maxOutputBytes (sentBytes messages)) ∧
      (sentBytes messages ≤ limits.maxOutputBytes →
        out = sentStdout messages ∧ err = sentStderr messages) ∧
      out.length + err.length ≤ limits.maxOutputBytes ∧
      ∀ signal, signalExitCode signal ≠ 0 := by
  have h := read_kept limits.maxOutputBytes messages
  have htotal : _ = sentBytes messages := h.total
  refine ⟨_, _, _, ?_, h.stdout, h.stderr, rfl, htotal ▸ h.complete, h.bounded,
    signalExitCode_ne_zero⟩
  rw [readCommandOutput, if_pos rfl]
  dsimp only
  rw [read_exitCode]
  by_cases hover : (read limits.maxOutputBytes messages).overLimit = true
  · have hgt := h.limit.mp hover
    rw [if_pos hover, if_neg, htotal]
    -- the streams together are longer than what is kept
    rintro ⟨hout, herr⟩
    have hbound := h.bounded
    rw [hout, herr, ← sentBytes, ← htotal] at hbound
    exact absurd hbound (not_le.mpr hgt)
  · rw [if_neg hover, if_pos (h.complete (not_lt.mp (mt h.limit.mpr hover)))]

end BridgeMcp.Connections.CommandOutput
