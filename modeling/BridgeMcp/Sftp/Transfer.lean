import BridgeMcp.Lib.Checks
import BridgeMcp.Lib.Files
import BridgeMcp.Lib.Text

/-!
The transfer of one file (`upload_file` and `download_file` in `ssh/sftp.rs`): both open their
destination with flags that depend on the mode and then copy the rest of the source in chunks.
-/
namespace BridgeMcp.Sftp
open CheckLib TextLib FileLib List

abbrev Bytes : Type := List UInt8

/-- The content of a file, whose length is a `u64`. -/
structure Content where
  bytes : Bytes
  length_lt : bytes.length < 2 ^ 64

inductive SftpError where
  | fileTransfer (reason : Text)
  | sftp (reason : Text)

def validateRemotePath (path : Text) : Except SftpError Unit :=
  if (path.splitOn '/').contains ".." then
    .error (.fileTransfer "Path traversal ('..') is not allowed in remote paths")
  else .ok ()

def saturate (n : ℕ) : ℕ := min n (2 ^ 64 - 1)

def minChunkSize : ℕ := 4096

def maxChunkSize : ℕ := 64 * 1024 * 1024

def clampChunkSize (chunkSize : ℕ) : ℕ :=
  if chunkSize < minChunkSize then minChunkSize
  else if chunkSize > maxChunkSize then maxChunkSize
  else chunkSize

inductive TransferMode where
  | overwrite
  | append
  | resume
  | failIfExists
  deriving DecidableEq

structure TransferOptions where
  mode : TransferMode
  chunkSize : ℕ
  verifyChecksum : Bool

def TransferOptions.effectiveChunkSize (options : TransferOptions) : ℕ :=
  clampChunkSize options.chunkSize

/-- A clamped size fits a `usize`. -/
def chunkLen (chunkSize : ℕ) : ℕ := clampChunkSize chunkSize

structure TransferResult where
  bytesTransferred : ℕ
  durationMs : ℕ
  checksum : Option Text

inductive Call where
  | openSource
  | sourceMetadata
  | sourceSize
  | destinationSize
  | destinationExists
  | openDestination
  | reopenSource
  | seekSource
  | read (i : ℕ)
  | write (i : ℕ)
  | flush
  | close
  deriving DecidableEq

/-- Which calls fail, how many bytes each read has ready beyond the one it returns at least, and the
time the transfer takes. -/
structure Environment where
  fails : Call → Option Text
  ready : ℕ → ℕ
  elapsedMs : ℕ

def Environment.call (env : Environment) (call : Call) (error : Text → SftpError) :
    Except SftpError Unit :=
  match env.fails call with
  | some e => .error (error e)
  | none => .ok ()

def because (start : String) (e : Text) : SftpError := .fileTransfer (start.toList ++ e)

/-- What is left to read, the destination, what has been hashed, and the counter. -/
structure Copying where
  rest : Bytes
  file : Handle UInt8
  hasher : Option Bytes
  total : ℕ

def Copying.advance (st : Copying) (n : ℕ) : Copying where
  rest := st.rest.drop n
  file := st.file.write (st.rest.take n)
  hasher := st.hasher.map (· ++ st.rest.take n)
  total := saturate (st.total + n)

/-- The loop, from its `i`-th pass. A read returns between one byte and a chunk, and nothing only at
the end, so there are no more passes than bytes. -/
def copy (env : Environment) (chunk : ℕ) : ℕ → ℕ → Copying → Except SftpError Copying
  | 0, i, st => do
      env.call (.read i) (because "Read error: ")
      return st
  | fuel + 1, i, st => do
      env.call (.read i) (because "Read error: ")
      let n := min (env.ready i + 1) (min chunk st.rest.length)
      if n = 0 then return st
      env.call (.write i) (because "Write error: ")
      copy env chunk fuel (i + 1) (st.advance n)

def canComputeFullChecksum (mode : TransferMode) : Bool :=
  mode = .overwrite || mode = .failIfExists

/-- From the opened destination on. `sha256` is the digest in hexadecimal. -/
def stream (env : Environment) (sha256 : Bytes → Text) (options : TransferOptions) (source : Content)
    (startOffset : ℕ) (file : Handle UInt8) : Except SftpError (TransferResult × Bytes) := do
  let hasher :=
    if options.verifyChecksum && canComputeFullChecksum options.mode then some [] else none
  let rest := source.bytes.drop startOffset
  let st ← copy env (chunkLen options.effectiveChunkSize) rest.length 0
    ⟨rest, file, hasher, startOffset⟩
  env.call .flush (because "Flush error: ")
  return (⟨st.total - startOffset, env.elapsedMs, st.hasher.map sha256⟩, st.file.content)

/-- The length of what is there; zero when it cannot be told. -/
def startOffset (env : Environment) (mode : TransferMode) (old : Option Content) : ℕ :=
  if mode = .resume then
    match env.fails .destinationSize with
    | some _ => 0
    | none => (old.map fun content => content.bytes.length).getD 0
  else 0

def seekTo (env : Environment) (offset : ℕ) (message : String) : Except SftpError Unit :=
  if offset > 0 then env.call .seekSource (because message) else .ok ()

/-- The open call. Its flags may refuse the file as it is. -/
def openDestination (env : Environment) (error : Text → SftpError) (refusal : String)
    (flags : OpenFlags) (old : Option Content) : Except SftpError (Handle UInt8) := do
  env.call .openDestination error
  match openWith flags (old.map Content.bytes) with
  | none => .error (error refusal.toList)
  | some file => .ok file

def uploadFlags : TransferMode → OpenFlags
  | .overwrite => ⟨true, true, false, false⟩
  | .append | .resume => ⟨true, false, true, false⟩
  | .failIfExists => ⟨true, false, false, true⟩

def remoteAbsent (env : Environment) (mode : TransferMode) (remotePath : Text)
    (old : Option Content) : Except SftpError Unit :=
  if mode = .failIfExists then do
    env.call .destinationExists .sftp
    if old.isSome then .error (.fileTransfer ("Remote file already exists: " ++ remotePath))
    else .ok ()
  else .ok ()

/-- With the destination's content before the call, and after it in the result. -/
def uploadFile (env : Environment) (sha256 : Bytes → Text) (options : TransferOptions)
    (remotePath : Text) (source : Content) (old : Option Content) :
    Except SftpError (TransferResult × Bytes) := do
  validateRemotePath remotePath
  env.call .openSource (because "Cannot open local file: ")
  env.call .sourceMetadata (because "Cannot read file metadata: ")
  remoteAbsent env options.mode remotePath old
  let file ← openDestination env .sftp "Failure" (uploadFlags options.mode) old
  env.call .reopenSource (because "Cannot open local file: ")
  seekTo env (startOffset env options.mode old) "Cannot seek local file: "
  let result ← stream env sha256 options source (startOffset env options.mode old) file
  env.call .close (because "Close error: ")
  return result

def downloadFlags : TransferMode → OpenFlags
  -- `File::create`
  | .overwrite => ⟨true, true, false, false⟩
  | .append | .resume => ⟨true, false, true, false⟩
  -- `create_new`
  | .failIfExists => ⟨true, false, false, true⟩

def cannotOpen : TransferMode → Text → SftpError
  | .append, e | .resume, e => because "Cannot open local file: " e
  | .overwrite, e | .failIfExists, e => because "Cannot create local file: " e

def localAbsent (mode : TransferMode) (localPath : Text) (old : Option Content) :
    Except SftpError Unit :=
  if mode = .failIfExists && old.isSome then
    .error (.fileTransfer ("Local file already exists: " ++ localPath))
  else .ok ()

/-- `localPath` is only printed. -/
def downloadFile (env : Environment) (sha256 : Bytes → Text) (options : TransferOptions)
    (remotePath localPath : Text) (source : Content) (old : Option Content) :
    Except SftpError (TransferResult × Bytes) := do
  validateRemotePath remotePath
  env.call .sourceMetadata .sftp
  env.call .sourceSize fun _ => .fileTransfer "Cannot determine remote file size"
  localAbsent options.mode localPath old
  env.call .openSource .sftp
  seekTo env (startOffset env options.mode old) "Cannot seek remote file: "
  let file ← openDestination env (cannotOpen options.mode) "File exists" (downloadFlags options.mode) old
  stream env sha256 options source (startOffset env options.mode old) file

theorem chunkLen_pos (chunkSize : ℕ) : 0 < chunkLen chunkSize := by
  rw [chunkLen, clampChunkSize]
  split_ifs with hmin
  · decide
  · decide
  · exact Nat.lt_of_lt_of_le (by decide) (not_lt.mp hmin)

theorem saturate_of_lt {n : ℕ} (h : n < 2 ^ 64) : saturate n = n := min_eq_left (by omega)

theorem saturate_add (m n : ℕ) : saturate (saturate m + n) = saturate (m + n) := by
  rw [saturate, saturate, saturate]
  omega

theorem Copying.advance_advance (st : Copying) (m n : ℕ) :
    (st.advance m).advance n = st.advance (m + n) := by
  have htake : st.rest.take m ++ (st.rest.drop m).take n = st.rest.take (m + n) :=
    take_add.symm
  simp only [Copying.advance, drop_drop, Handle.write_write, Option.map_map, saturate_add,
    htake, Nat.add_assoc, Function.comp_def, append_assoc]

theorem Copying.advance_zero {st : Copying} (h : st.total < 2 ^ 64) : st.advance 0 = st := by
  cases st
  simp only [Copying.advance, drop_zero, take_zero, Handle.write_nil, append_nil,
    Nat.add_zero, Option.map_id', saturate_of_lt h]

theorem saturate_lt (n : ℕ) : saturate n < 2 ^ 64 := by
  rw [saturate]
  omega

section Loop
variable {env : Environment} {chunk : ℕ}

theorem copy_ok (hchunk : 0 < chunk) {fuel i : ℕ} {st st' : Copying} (htotal : st.total < 2 ^ 64)
    (hfuel : st.rest.length ≤ fuel) (h : copy env chunk fuel i st = .ok st') :
    st' = st.advance st.rest.length := by
  induction fuel generalizing i st with
  | zero =>
    rw [copy] at h
    cases (ok_of_bind h).2
    rw [Nat.le_zero.mp hfuel, Copying.advance_zero htotal]
  | succ fuel ih =>
    rw [copy] at h
    have hread := (ok_of_bind h).2
    dsimp only at hread
    split_ifs at hread with hzero
    · have hempty : st.rest.length = 0 := by omega
      rw [← Except.ok.inj hread, hempty, Copying.advance_zero htotal]
    · have hnext := (ok_of_bind hread).2
      have hlength : (st.advance (min (env.ready i + 1) (min chunk st.rest.length))).rest.length =
          st.rest.length - min (env.ready i + 1) (min chunk st.rest.length) := length_drop
      rw [ih (saturate_lt _) (by omega) hnext, hlength, Copying.advance_advance]
      congr 1
      omega

theorem copy_isOk (hread : ∀ i, env.fails (.read i) = none)
    (hwrite : ∀ i, env.fails (.write i) = none) (fuel i : ℕ) (st : Copying) :
    ∃ st', copy env chunk fuel i st = .ok st' := by
  induction fuel generalizing i st with
  | zero =>
    rw [copy, Environment.call, hread]
    exact ⟨st, rfl⟩
  | succ fuel ih =>
    rw [copy, Environment.call, Environment.call, hread, hwrite]
    by_cases hzero : min (env.ready i + 1) (min chunk st.rest.length) = 0
    · exact ⟨st, if_pos hzero⟩
    · obtain ⟨st', hst'⟩ := ih (i + 1) (st.advance _)
      exact ⟨st', (if_neg hzero).trans hst'⟩

end Loop

def kept (mode : TransferMode) (old : Option Content) : Bytes :=
  match mode with
  | .overwrite | .failIfExists => []
  | .append | .resume => (old.map Content.bytes).getD []

/-- The destination is what was kept and what was read, and the result says so. -/
structure Transferred (env : Environment) (sha256 : Bytes → Text) (options : TransferOptions)
    (source : Content) (old : Option Content) (result : TransferResult) (new : Bytes) : Prop where
  absent : options.mode = .failIfExists → old = none
  content : new = kept options.mode old ++ source.bytes.drop (startOffset env options.mode old)
  bytes : result.bytesTransferred =
    (source.bytes.drop (startOffset env options.mode old)).length
  checksum : ∀ sum ∈ result.checksum, sum = sha256 source.bytes

section Transfer
variable {env : Environment} {sha256 : Bytes → Text} {options : TransferOptions} {source : Content}
  {old : Option Content} {result : TransferResult} {new : Bytes}

theorem startOffset_lt : startOffset env options.mode old < 2 ^ 64 := by
  rw [startOffset]
  split_ifs
  · split
    · decide
    · cases old with
      | none => decide
      | some content => exact content.length_lt
  · decide

variable {file : Handle UInt8}

theorem stream_ok {offset : ℕ} (hoffset : offset < 2 ^ 64)
    (h : stream env sha256 options source offset file = .ok (result, new)) :
    new = (file.write (source.bytes.drop offset)).content ∧
      result.bytesTransferred = (source.bytes.drop offset).length ∧
      ∀ sum ∈ result.checksum, canComputeFullChecksum options.mode = true ∧
        sum = sha256 (source.bytes.drop offset) := by
  rw [stream] at h
  obtain ⟨st, hcopy, h⟩ := exists_of_bind h
  have hst : st = Copying.advance ⟨source.bytes.drop offset, file,
      if options.verifyChecksum && canComputeFullChecksum options.mode then some [] else none, offset⟩
      (source.bytes.drop offset).length := copy_ok (chunkLen_pos _) hoffset (le_refl _) hcopy
  cases (ok_of_bind h).2
  rw [hst]
  have hlength := source.length_lt
  refine ⟨?_, ?_, ?_⟩
  · simp only [Copying.advance, take_length]
  · simp only [Copying.advance, length_drop]
    rw [saturate_of_lt (by omega)]
    omega
  · intro sum hsum
    simp only [Copying.advance, take_length, Option.map_map] at hsum
    split_ifs at hsum with hhash
    · cases hsum
      exact ⟨(Bool.and_eq_true_iff.mp hhash).2, by rw [Function.comp_apply, nil_append]⟩
    · cases hsum

theorem openWith_flags {mode : TransferMode}
    (h : openWith (uploadFlags mode) (old.map Content.bytes) = some file) :
    (mode = .failIfExists → old = none) ∧ ∀ data,
      (file.write data).content = kept mode old ++ data := by
  cases old with
  | none =>
    refine ⟨fun _ => rfl, fun data => ?_⟩
    cases mode <;> cases h <;> simp [Handle.write, kept, uploadFlags]
  | some content =>
    cases mode with
    | failIfExists => cases h
    | overwrite =>
      cases h
      exact ⟨TransferMode.noConfusion, Handle.write_content_of_nil rfl⟩
    | append =>
      cases h
      exact ⟨TransferMode.noConfusion, Handle.write_content_of_append rfl⟩
    | resume =>
      cases h
      exact ⟨TransferMode.noConfusion, Handle.write_content_of_append rfl⟩

theorem transferred_of_stream {file : Handle UInt8}
    (hopen : openWith (uploadFlags options.mode) (old.map Content.bytes) = some file)
    (h : stream env sha256 options source (startOffset env options.mode old) file =
      .ok (result, new)) : Transferred env sha256 options source old result new := by
  obtain ⟨habsent, hwrite⟩ := openWith_flags hopen
  obtain ⟨hnew, hbytes, hchecksum⟩ := stream_ok startOffset_lt h
  refine ⟨habsent, hnew.trans (hwrite _), hbytes, ?_⟩
  intro sum hsum
  obtain ⟨hmode, hdigest⟩ := hchecksum sum hsum
  have hoffset : startOffset env options.mode old = 0 := by
    rw [startOffset, if_neg]
    intro hresume
    rw [hresume] at hmode
    cases hmode
  rw [hdigest, hoffset, drop_zero]

theorem openDestination_ok {error : Text → SftpError} {refusal : String} {flags : OpenFlags}
    (h : openDestination env error refusal flags old = .ok file) :
    openWith flags (old.map Content.bytes) = some file := by
  have h := (ok_of_bind h).2
  cases hopen : openWith flags (old.map Content.bytes) with
  | none =>
    rw [hopen] at h
    cases h
  | some opened =>
    rw [hopen] at h
    cases h
    rfl

variable {remotePath localPath : Text}

theorem uploadFile_ok
    (h : uploadFile env sha256 options remotePath source old = .ok (result, new)) :
    Transferred env sha256 options source old result new := by
  have h := (ok_of_bind (ok_of_bind (ok_of_bind (ok_of_bind h).2).2).2).2
  obtain ⟨file, hopen, h⟩ := exists_of_bind h
  have h := (ok_of_bind (ok_of_bind h).2).2
  obtain ⟨transferred, hstream, h⟩ := exists_of_bind h
  cases (ok_of_bind h).2
  exact transferred_of_stream (openDestination_ok hopen) hstream

theorem downloadFlags_eq (mode : TransferMode) : downloadFlags mode = uploadFlags mode := by
  cases mode <;> rfl

theorem downloadFile_ok
    (h : downloadFile env sha256 options remotePath localPath source old = .ok (result, new)) :
    Transferred env sha256 options source old result new := by
  have h := (ok_of_bind (ok_of_bind (ok_of_bind (ok_of_bind h).2).2).2).2
  obtain ⟨file, hopen, hstream⟩ := exists_of_bind (ok_of_bind (ok_of_bind h).2).2
  rw [downloadFlags_eq] at hopen
  exact transferred_of_stream (openDestination_ok hopen) hstream

def Agree (a b : Bytes) : Prop := a.take b.length = b.take a.length

def Delivered (mode : TransferMode) (source : Content) (old : Option Content) (new : Bytes) : Prop :=
  match mode with
  | .overwrite => new = source.bytes
  | .failIfExists => old = none ∧ new = source.bytes
  | .append => new = (old.map Content.bytes).getD [] ++ source.bytes
  | .resume => Agree ((old.map Content.bytes).getD []) source.bytes → new = source.bytes

/-- What is there can be resumed: it is no longer than the source, and its length could be told. -/
def Resumable (env : Environment) (mode : TransferMode) (source : Content) (old : Option Content) :
    Prop :=
  mode = .resume → Agree (kept mode old) source.bytes →
    (kept mode old).length ≤ source.bytes.length ∧
      (env.fails .destinationSize = none ∨ kept mode old = [])

theorem startOffset_resume : startOffset env .resume old =
    if env.fails .destinationSize = none then (kept .resume old).length else 0 := by
  rw [startOffset, if_pos rfl]
  cases env.fails .destinationSize with
  | some e => rfl
  | none => cases old <;> rfl

theorem append_drop_of_agree {before source : Bytes} (hagree : Agree before source)
    (hlength : before.length ≤ source.length) : before ++ source.drop before.length = source := by
  have hbefore : before = source.take before.length := by
    rw [← hagree, take_of_length_le hlength]
  calc before ++ source.drop before.length
      = source.take before.length ++ source.drop before.length := by rw [← hbefore]
    _ = source := take_append_drop _ _

theorem resumed_iff {offset : ℕ} {before source : Bytes} (hagree : Agree before source)
    (hoffset : offset = before.length ∨ offset = 0) :
    before ++ source.drop offset = source ↔
      before.length ≤ source.length ∧ (offset = before.length ∨ before = []) := by
  constructor
  · intro heq
    have hlength := congrArg length heq
    rw [length_append, length_drop] at hlength
    cases hoffset with
    | inl hoffset => exact ⟨by omega, .inl hoffset⟩
    | inr hoffset => exact ⟨by omega, .inr (length_eq_zero_iff.mp (by omega))⟩
  · intro ⟨hlength, hcases⟩
    have heq : offset = before.length := by
      cases hcases with
      | inl heq => exact heq
      | inr hempty =>
        rw [hempty] at hoffset ⊢
        exact hoffset.elim id id
    rw [heq]
    exact append_drop_of_agree hagree hlength

theorem Transferred.delivered_iff (h : Transferred env sha256 options source old result new) :
    Delivered options.mode source old new ↔ Resumable env options.mode source old := by
  obtain ⟨habsent, hnew, -, -⟩ := h
  rw [Resumable]
  cases hmode : options.mode with
  | overwrite =>
    rw [hmode] at hnew
    exact iff_of_true hnew nofun
  | failIfExists =>
    rw [hmode] at hnew
    exact iff_of_true ⟨habsent hmode, hnew⟩ nofun
  | append =>
    rw [hmode] at hnew
    exact iff_of_true hnew nofun
  | resume =>
    rw [hmode, startOffset_resume] at hnew
    rw [Delivered, forall_prop_of_true rfl, hnew]
    apply forall_congr'
    intro hagree
    change Agree (kept .resume old) source.bytes at hagree
    by_cases htold : env.fails .destinationSize = none
    · rw [if_pos htold, resumed_iff hagree (.inl rfl)]
      simp [htold]
    · rw [if_neg htold, resumed_iff hagree (.inr rfl), eq_comm (a := 0), length_eq_zero_iff,
        or_self, or_iff_right htold]

theorem Transferred.bytes_eq (h : Transferred env sha256 options source old result new) :
    result.bytesTransferred = new.length - (kept options.mode old).length := by
  rw [h.bytes, h.content, length_append, Nat.add_sub_cancel_left]

theorem call_of_none {call : Call} {error : Text → SftpError} (h : env.fails call = none) :
    env.call call error = .ok () := by
  rw [Environment.call, h]

section
variable (hnone : ∀ call, env.fails call = none)
include hnone

theorem stream_isOk (offset : ℕ) (file : Handle UInt8) :
    ∃ done, stream env sha256 options source offset file = .ok done := by
  obtain ⟨st, hst⟩ : ∃ st, copy env (chunkLen options.effectiveChunkSize)
      (source.bytes.drop offset).length 0 ⟨source.bytes.drop offset, file,
        if options.verifyChecksum && canComputeFullChecksum options.mode then some [] else none,
        offset⟩ = .ok st :=
    copy_isOk (fun i => hnone (.read i)) (fun i => hnone (.write i)) _ _ _
  exact ⟨_, (bind_of_ok hst _).trans (bind_of_ok (call_of_none (hnone _)) _)⟩

theorem openDestination_isOk
    {mode : TransferMode} (habsent : mode = .failIfExists → old = none) (error : Text → SftpError)
    (refusal : String) :
    ∃ file, openDestination env error refusal (uploadFlags mode) old = .ok file := by
  rw [openDestination, bind_of_ok (call_of_none (hnone _))]
  cases old with
  | none => cases mode <;> exact ⟨_, rfl⟩
  | some content =>
    cases mode with
    | failIfExists => cases habsent rfl
    | _ => exact ⟨_, rfl⟩

theorem seekTo_of_none (offset : ℕ) (message : String) :
    seekTo env offset message = .ok () := by
  rw [seekTo]
  split_ifs
  · exact call_of_none (hnone _)
  · rfl

theorem uploadFile_isOk (hvalid : validateRemotePath remotePath = .ok ())
    (habsent : options.mode = .failIfExists → old = none) :
    ∃ done, uploadFile env sha256 options remotePath source old = .ok done := by
  have hcall : ∀ call error, env.call call error = .ok () := fun call _ => call_of_none (hnone call)
  have hremote : remoteAbsent env options.mode remotePath old = .ok () := by
    rw [remoteAbsent]
    by_cases hmode : options.mode = .failIfExists
    · rw [if_pos hmode, bind_of_ok (hcall _ _), habsent hmode]
      rfl
    · rw [if_neg hmode]
  obtain ⟨file, hfile⟩ := openDestination_isOk hnone habsent .sftp "Failure"
  obtain ⟨done, hdone⟩ : ∃ done, stream env sha256 options source
      (startOffset env options.mode old) file = .ok done := stream_isOk hnone _ _
  refine ⟨done, ?_⟩
  rw [uploadFile, bind_of_ok hvalid, bind_of_ok (hcall _ _), bind_of_ok (hcall _ _),
    bind_of_ok hremote, bind_of_ok hfile, bind_of_ok (hcall _ _), bind_of_ok (seekTo_of_none hnone _ _),
    bind_of_ok hdone, bind_of_ok (hcall _ _)]
  rfl

theorem downloadFile_isOk (hvalid : validateRemotePath remotePath = .ok ())
    (habsent : options.mode = .failIfExists → old = none) :
    ∃ done, downloadFile env sha256 options remotePath localPath source old = .ok done := by
  have hcall : ∀ call error, env.call call error = .ok () := fun call _ => call_of_none (hnone call)
  have hlocal : localAbsent options.mode localPath old = .ok () := by
    rw [localAbsent, if_neg]
    intro h
    simp only [Bool.and_eq_true, decide_eq_true_eq] at h
    rw [habsent h.1] at h
    cases h.2
  obtain ⟨file, hfile⟩ :=
    openDestination_isOk hnone habsent (cannotOpen options.mode) "File exists"
  rw [← downloadFlags_eq] at hfile
  obtain ⟨done, hdone⟩ : ∃ done, stream env sha256 options source
      (startOffset env options.mode old) file = .ok done := stream_isOk hnone _ _
  refine ⟨done, ?_⟩
  rw [downloadFile, bind_of_ok hvalid, bind_of_ok (hcall _ _), bind_of_ok (hcall _ _),
    bind_of_ok hlocal, bind_of_ok (hcall _ _), bind_of_ok (seekTo_of_none hnone _ _),
    bind_of_ok hfile, hdone]

end

end Transfer

/-- A transfer that reports success delivers what its mode promises, exactly when a resumed
destination could be resumed; its counter and checksum are right. Without a fault it succeeds. -/
theorem reported_is_done (env : Environment) (sha256 : Bytes → Text) (options : TransferOptions)
    (remotePath localPath : Text) (source : Content) (old : Option Content) :
    (∀ result new,
      uploadFile env sha256 options remotePath source old = .ok (result, new) ∨
        downloadFile env sha256 options remotePath localPath source old = .ok (result, new) →
      (Delivered options.mode source old new ↔ Resumable env options.mode source old) ∧
        result.bytesTransferred = new.length - (kept options.mode old).length ∧
        ∀ sum ∈ result.checksum, sum = sha256 source.bytes) ∧
    ((∀ call, env.fails call = none) → validateRemotePath remotePath = .ok () →
      (options.mode = .failIfExists → old = none) →
        (∃ done, uploadFile env sha256 options remotePath source old = .ok done) ∧
          ∃ done, downloadFile env sha256 options remotePath localPath source old = .ok done) := by
  constructor
  · intro result new h
    have hdone : Transferred env sha256 options source old result new :=
      h.elim uploadFile_ok downloadFile_ok
    exact ⟨hdone.delivered_iff, hdone.bytes_eq, hdone.checksum⟩
  · intro hnone hvalid habsent
    exact ⟨uploadFile_isOk hnone hvalid habsent, downloadFile_isOk hnone hvalid habsent⟩

section Runs

def calm : Environment := ⟨fun _ => none, fun _ => 1, 12⟩

def abc : Content := ⟨[97, 98, 99], by decide⟩

def abcDigest : Text :=
  "ba7816bf8f01cfea414140de5dae2223b00361a396177a9cb410ff61f20015ad"

theorem reported_is_done_abc :
    (∃ result new, uploadFile calm (fun _ => abcDigest) ⟨.overwrite, 0, true⟩ "/tmp/f" abc
        (some ⟨[1], by decide⟩) = .ok (result, new) ∧ new = abc.bytes ∧
      result.bytesTransferred = 3 ∧ result.checksum = some abcDigest ∧
      ∀ sum ∈ result.checksum, sum = abcDigest) ∧
    ∃ result new, downloadFile calm (fun _ => abcDigest) ⟨.resume, 0, true⟩ "/tmp/f"
        "f" abc (some ⟨[97], by decide⟩) = .ok (result, new) ∧
      Delivered .resume abc (some ⟨[97], by decide⟩) new ∧ result.bytesTransferred = 2 := by
  have hupload := (reported_is_done calm (fun _ => abcDigest) ⟨.overwrite, 0, true⟩ "/tmp/f"
    "f" abc (some ⟨[1], by decide⟩)).1 _ _ (.inl rfl)
  have hdownload := (reported_is_done calm (fun _ => abcDigest) ⟨.resume, 0, true⟩ "/tmp/f"
    "f" abc (some ⟨[97], by decide⟩)).1 _ _ (.inr rfl)
  exact ⟨⟨_, _, rfl, rfl, rfl, rfl, hupload.2.2⟩, _, _, rfl,
    hdownload.1.mpr fun _ _ => ⟨by decide, .inl rfl⟩, rfl⟩

/-- A destination that is the source and more: nothing is sent, and that is reported as done. -/
theorem longer_destination_stays : ∃ result new,
    uploadFile calm (fun _ => abcDigest) ⟨.resume, 0, true⟩ "/tmp/f" abc
        (some ⟨[97, 98, 99, 100], by decide⟩) = .ok (result, new) ∧
      Agree [97, 98, 99, 100] abc.bytes ∧ new = [97, 98, 99, 100] ∧ new ≠ abc.bytes :=
  ⟨_, _, rfl, rfl, rfl, by decide⟩

end Runs

end BridgeMcp.Sftp
