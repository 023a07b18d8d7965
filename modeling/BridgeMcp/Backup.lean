import BridgeMcp.Cron
import BridgeMcp.Lib.Utf8
import BridgeMcp.Shell.CommandRun
import BridgeMcp.Sftp.Directory

/-!
Snapshots and scheduled backups (`domain/use_cases/backup_advanced.rs`): the checks, the two command
lines, and the operands that tar receives from the shell, for the second one by way of cron.
-/
namespace BridgeMcp.Backup
open CheckLib TextLib LineLib Shell CommandLine List
open Sftp (isControl)
open Cron (takeFields cronRead isEntry emitted printfOf isCronFieldChar)

def validatePaths (paths : Text) : Except CommandDenied Unit :=
  if paths = [] then .error ⟨"Backup paths must not be empty"⟩
  else if paths.any isControl then
    .error ⟨"Backup paths must not contain control characters (newline, carriage return, NUL)"⟩
  else if contains paths ".." then
    .error ⟨"Backup paths must not contain '..' (path traversal)"⟩
  else if utf8Len paths > 4096 then
    .error ⟨"Backup paths too long: " ++ Nat.toDigits 10 (utf8Len paths) ++
      " chars (max 4096)"⟩
  else .ok ()

def refuseRemoteArchive (arg name : Text) : Except CommandDenied Unit :=
  if (name.takeWhile (· ≠ '/')).contains ':' then
    .error ⟨['\''] ++ arg ++ "' must not have a ':' before its first '/': tar would read it as an archive on a remote host. Use an absolute path or prefix it with './'"⟩
  else .ok ()

def validateCronExpr (cronExpr : Text) : Except CommandDenied Unit :=
  let fields := splitWhitespace cronExpr
  if fields.length ≠ 5 then
    .error ⟨"Invalid cron expression: expected 5 fields, got " ++
      Nat.toDigits 10 fields.length⟩
  else
    match fields.zipIdx.find? fun field => !field.1.all isCronFieldChar with
    | some (field, i) =>
      .error ⟨"Invalid cron field " ++ Nat.toDigits 10 (i + 1) ++ ": '" ++ field ++
        "' contains invalid characters"⟩
    | none => .ok ()

def isLabelChar (c : Char) : Bool := c.isAlphanum || c == '_' || c == '-'

def labelPart (label : Option Text) : Text := (label.getD "snapshot").filter isLabelChar

def snapshotLine (labelPart paths : Text) : Text :=
  "TIMESTAMP=$(date +%Y%m%d_%H%M%S) && ARCHIVE=\"/tmp/snapshot_" ++ (labelPart ++
    ("_$\x7bTIMESTAMP\x7d.tar.gz\" && tar czf \"$ARCHIVE\" -- " ++ (escape paths .posix ++
      " 2>/dev/null && echo \"Snapshot created: $ARCHIVE\" && ls -lh \"$ARCHIVE\" && sha256sum \"$ARCHIVE\"")))

def buildSnapshotCommand (paths : Text) (label : Option Text) : Except CommandDenied Text := do
  validatePaths paths
  return snapshotLine (labelPart label) paths

def refuseEmptyDest (dest : Text) : Except CommandDenied Unit :=
  if dest = [] then .error ⟨"Backup destination must not be empty"⟩ else .ok ()

def refuseLineBreaks (name value : Text) : Except CommandDenied Unit :=
  if value.any fun c => isControl c || c == '%' then
    .error ⟨"Backup " ++ name ++ " must not contain control characters or '%' (they would break the crontab line)"⟩
  else .ok ()

def backupCmd (paths dest : Text) : Text :=
  "tar czf " ++ (escape dest .posix ++
    ("/backup_$(date +\\%Y\\%m\\%d_\\%H\\%M\\%S).tar.gz -- " ++ escape paths .posix))

def cronLine (cronExpr paths dest : Text) : Text := cronExpr ++ ' ' :: backupCmd paths dest

def scheduleLine (line : Text) : Text :=
  "(crontab -l 2>/dev/null; printf '%s\\n' " ++ (escape line .posix ++
    ") | crontab - && echo 'Backup schedule added successfully' && crontab -l | tail -3")

def buildScheduleCommand (cronExpr paths dest : Text) : Except CommandDenied Text := do
  validateCronExpr cronExpr
  validatePaths paths
  refuseEmptyDest dest
  refuseRemoteArchive "dest" dest
  refuseLineBreaks "paths" paths
  refuseLineBreaks "dest" dest
  return scheduleLine (cronLine cronExpr paths dest)

def joined (paths : List Text) : Text := [' '].intercalate paths

/-- Paths that the tool accepts and that its blanks keep apart. -/
structure Asked (paths : List Text) : Prop where
  some : paths ≠ []
  nonempty : ∀ path ∈ paths, path ≠ []
  plain : ∀ path ∈ paths, ∀ c ∈ path, c ≠ ' ' ∧ isControl c = false ∧ c ≠ '%'
  forward : ∀ path ∈ paths, ¬ ".." <:+: path
  short : utf8Len (joined paths) ≤ 4096

/-- `tar` was run once, on exactly these paths. -/
def Archives (trace : List (List Text)) (archive : Text) (paths : List Text) : Prop :=
  trace.filter (fun argv => argv.head? == some "tar".toList) =
    ["tar".toList :: "czf".toList :: archive :: "--".toList :: paths]

theorem archives_of_first {status : List Text → Bool} {archive : Text} {operands : List Text}
    {others : List (List Text)} (h : ∀ argv ∈ others, argv.head? ≠ some "tar".toList) :
    Archives (untilFailure status (("tar".toList :: "czf".toList :: archive :: "--".toList ::
      operands) :: others)) archive operands := by
  have hnone : (untilFailure status others).filter
      (fun argv => argv.head? == some "tar".toList) = [] := by
    apply filter_eq_nil_iff.mpr
    intro argv hargv
    simpa using h argv ((untilFailure_sublist others).mem hargv)
  rw [Archives, untilFailure, filter_cons_of_pos (by simp)]
  congr 1
  split_ifs
  · exact hnone
  · rfl

variable {paths : List Text}

theorem archives_joined_iff {trace : List (List Text)} {archive archive' : Text}
    (h : Archives trace archive [joined paths]) (hsome : paths ≠ []) :
    Archives trace archive' paths ↔ archive' = archive ∧ paths.length = 1 := by
  rw [Archives] at h
  rw [Archives, h]
  constructor
  · intro heq
    simp only [cons.injEq, and_true, true_and] at heq
    obtain ⟨harchive, hpaths⟩ := heq
    refine ⟨harchive.symm, ?_⟩
    rw [← hpaths]
    rfl
  · rintro ⟨rfl, hone⟩
    obtain ⟨path, rfl⟩ := length_eq_one_iff.mp hone
    rw [joined, intercalate_singleton]

theorem mem_joined {c : Char} (h : c ∈ joined paths) :
    c = ' ' ∨ ∃ path ∈ paths, c ∈ path := by
  induction paths with
  | nil => cases h
  | cons path paths ih =>
    cases paths with
    | nil =>
      rw [joined, intercalate_singleton] at h
      exact .inr ⟨path, mem_cons_self, h⟩
    | cons next paths =>
      rw [joined, intercalate_cons_cons, mem_append, mem_append,
        mem_singleton, or_assoc] at h
      rcases h with h | h | h
      · exact .inr ⟨path, mem_cons_self, h⟩
      · exact .inl h
      · apply (ih h).imp_right
        rintro ⟨found, hfound, hc⟩
        exact ⟨found, mem_cons_of_mem path hfound, hc⟩

theorem infix_joined {needle : Text} (hne : needle ≠ []) (hblank : ' ' ∉ needle)
    (h : needle <:+: joined paths) : ∃ path ∈ paths, needle <:+: path := by
  induction paths with
  | nil => exact absurd (List.eq_nil_of_infix_nil h) hne
  | cons path paths ih =>
    cases paths with
    | nil =>
      rw [joined, intercalate_singleton] at h
      exact ⟨path, mem_cons_self, h⟩
    | cons next paths =>
      have hsplit : joined (path :: next :: paths) = path ++ ' ' :: joined (next :: paths) := by
        rw [joined, intercalate_cons_cons, append_assoc]
        rfl
      rw [hsplit] at h
      rcases infix_of_infix_append_cons hblank h with h | h
      · exact ⟨path, mem_cons_self, h⟩
      · obtain ⟨found, hfound, hinfix⟩ := ih h
        exact ⟨found, mem_cons_of_mem path hfound, hinfix⟩

theorem validatePaths_joined (h : Asked paths) :
    validatePaths (joined paths) = .ok () := by
  have hne : joined paths ≠ [] := by
    obtain ⟨path, rest, rfl⟩ := exists_cons_of_ne_nil h.some
    obtain ⟨c, path, rfl⟩ := exists_cons_of_ne_nil (h.nonempty _ mem_cons_self)
    cases rest with
    | nil => simp [joined]
    | cons next rest => simp [joined, intercalate_cons_cons]
  have hcontrol : (joined paths).any isControl = false := by
    rw [any_eq_false]
    intro c hc
    rcases mem_joined hc with rfl | ⟨path, hpath, hc⟩
    · decide
    · rw [(h.plain path hpath c hc).2.1]
      decide
  have hforward : contains (joined paths) ".." = false := by
    by_contra hdots
    rw [Bool.not_eq_false, TextLib.contains_iff] at hdots
    obtain ⟨path, hpath, hinfix⟩ := infix_joined (by decide) (by decide) hdots
    exact h.forward path hpath hinfix
  rw [validatePaths, if_neg hne, hcontrol, hforward, if_neg Bool.false_ne_true,
    if_neg Bool.false_ne_true, if_neg (not_lt.mpr h.short)]

section Snapshot

variable {home : Text} {value : Text → Text} {capture : Text → Text × Bool}
  {status : List Text → Bool} {stamp : Text}

def dateCommand : Text := "date +%Y%m%d_%H%M%S"

/-- What `date` prints for the format: digits and `_`. -/
def isStamp (stamp : Text) : Bool := !stamp.isEmpty && stamp.all fun c => c.isDigit || c == '_'

def archiveWord : Word := [Part.double [.parameter "ARCHIVE"]].flatMap Part.atoms

def snapshotPieces (label paths : Text) : List Piece :=
  [.word [.bare "TIMESTAMP=", .substitution dateCommand], .opTwice '&',
    .word [.bare "ARCHIVE=", .double [.literal ("/tmp/snapshot_" ++ (label ++ ['_'])),
      .braced "TIMESTAMP", .literal ".tar.gz"]], .opTwice '&',
    .bare "tar", .bare "czf", .word [.double [.parameter "ARCHIVE"]],
    .bare "--", .quoted paths, .redirect ['2'] "/dev/null", .opTwice '&',
    .bare "echo",
    .word [.double [.literal "Snapshot created: ", .parameter "ARCHIVE"]],
    .opTwice '&', .bare "ls", .bare "-lh",
    .word [.double [.parameter "ARCHIVE"]], .opTwice '&', .bare "sha256sum",
    .word [.double [.parameter "ARCHIVE"]]]

theorem lineOf_snapshot (label paths : Text) :
    ' ' :: snapshotLine label paths = lineOf (snapshotPieces label paths) := by
  simp only [snapshotPieces, lineOf, flatMap_cons, flatMap_nil, Piece.bare, Piece.quoted,
    Piece.text, Part.text, Inner.text, append_nil, append_assoc]
  delta snapshotLine dateCommand
  repeat rw [String.toList_ofList]
  simp only [cons_append, nil_append, append_assoc]

theorem wellFormed_snapshot {label : Text} (h : label.all isLabelChar = true) (paths : Text) :
    (snapshotPieces label paths).all Piece.wellFormed = true := by
  have hchar : ∀ c, isLabelChar c = true → Inner.isLiteralChar c = true := by
    intro c hc
    have hno : ∀ d : Char, isLabelChar d = false → c ≠ d := by
      rintro d hd rfl
      rw [hc] at hd
      cases hd
    simp [Inner.isLiteralChar, hno '"' rfl, hno '$' rfl, hno '`' rfl, hno '\\' rfl]
  have hname : ("/tmp/snapshot_" ++ (label ++ ['_'])).all Inner.isLiteralChar = true := by
    rw [all_append, all_append, Bool.and_eq_true, Bool.and_eq_true]
    refine ⟨rfl, ?_, rfl⟩
    rw [all_eq_true] at h ⊢
    exact fun c hc => hchar c (h c hc)
  have hassign : (Piece.word [.bare "ARCHIVE=",
      .double [.literal ("/tmp/snapshot_" ++ (label ++ ['_'])), .braced "TIMESTAMP",
        .literal ".tar.gz"]]).wellFormed = true := by
    have hdouble : (Part.double [.literal ("/tmp/snapshot_" ++ (label ++ ['_'])),
        .braced "TIMESTAMP", .literal ".tar.gz"]).wellFormed = true := by
      rw [Part.wellFormed, Inner.allFormed, Inner.wellFormed, hname]
      · rfl
      · intro name hname
        cases hname
    rw [Piece.wellFormed, all_cons, all_cons, hdouble]
    rfl
  rw [snapshotPieces, all_cons, all_cons, all_cons, hassign]
  rfl

def snapshotArchive (label stamp : Text) : Text :=
  ("/tmp/snapshot_" ++ (label ++ ['_'])) ++ (stamp ++ ".tar.gz")

def timestampWord : Word := [Part.substitution dateCommand].flatMap Part.atoms

def nameWord (label : Text) : Word :=
  [Part.double [.literal ("/tmp/snapshot_" ++ (label ++ ['_'])), .braced "TIMESTAMP",
    .literal ".tar.gz"]].flatMap Part.atoms

def createdWord : Word :=
  [Part.double [.literal "Snapshot created: ", .parameter "ARCHIVE"]].flatMap Part.atoms

def archiveCommands (paths : Text) : List (Joint × Simple) :=
  [(.andIf, ⟨[bareWord "tar", bareWord "czf", archiveWord, bareWord "--",
      quotedWord paths], [⟨['2'], ['>'], "/dev/null".toList.map (.char · false)⟩]⟩),
    (.andIf, ⟨[bareWord "echo", createdWord], []⟩),
    (.andIf, ⟨[bareWord "ls", bareWord "-lh", archiveWord], []⟩),
    (.andIf, ⟨[bareWord "sha256sum", archiveWord], []⟩)]

def assignments (label : Text) : List (Joint × Simple) :=
  [(.andIf, ⟨[(Part.bare "TIMESTAMP=").atoms ++ timestampWord], []⟩),
    (.andIf, ⟨[(Part.bare "ARCHIVE=").atoms ++ nameWord label], []⟩)]

theorem parse_snapshot (label paths : Text) :
    parse ((snapshotPieces label paths).flatMap Piece.tokens) =
      some (assignments label ++ archiveCommands paths) := rfl

theorem isField_of_isStamp (h : isStamp stamp = true) : isField stamp = true := by
  rw [isStamp, Bool.and_eq_true] at h
  rw [isField, Bool.and_eq_true]
  refine ⟨h.1, ?_⟩
  have hall := all_eq_true.mp h.2
  apply all_eq_true.mpr
  intro c hc
  rcases Bool.or_eq_true _ _ ▸ hall c hc with hdigit | hline
  · exact digit_plain hdigit
  · rw [beq_iff_eq.mp hline]
    rfl

theorem expand_timestamp (hdate : capture dateCommand = (stamp, true)) (hstamp : isStamp stamp = true)
    (vars : Text → Text) : expandWord home vars capture timestampWord = some stamp := by
  have hfield : isField (capture dateCommand).1 = true := by
    rw [hdate]
    exact isField_of_isStamp hstamp
  rw [timestampWord, flatMap_singleton, Part.atoms, expandWord_substitution hfield, hdate,
    expandWord, Option.map_some, append_nil]

def archiveArgvs (archive paths : Text) : List (List Text) :=
  ["tar" :: "czf" :: archive :: "--" :: [paths],
    ["echo", "Snapshot created: " ++ archive],
    ["ls", "-lh", archive], ["sha256sum", archive]]

variable (home capture) in
theorem expands_archive (vars : Text → Text) (paths : Text) :
    List.Forall₂ (Expands home vars capture) (archiveCommands paths)
      (archiveArgvs (vars "ARCHIVE") paths) := by
  have htar : expandWords home vars capture _ = some _ :=
    expandWords_cons (expandWord_bareWord "tar")
      (expandWords_cons (expandWord_bareWord "czf")
        (expandWords_cons (expandWord_doubleName "ARCHIVE")
          (expandWords_cons (expandWord_bareWord "--")
            (expandWords_cons (expandWord_quotedWord paths) expandWords_nil))))
  have hnull : expandTargets home vars capture [⟨['2'], ['>'], _⟩] = some _ :=
    expandTargets_cons (expandWord_chars "/dev/null" false) expandTargets_nil
  have hecho : expandWords home vars capture _ = some _ :=
    expandWords_cons (expandWord_bareWord "echo")
      (expandWords_cons (expandWord_doubleText "Snapshot created: " "ARCHIVE")
        expandWords_nil)
  have hls : expandWords home vars capture _ = some _ :=
    expandWords_cons (expandWord_bareWord "ls")
      (expandWords_cons (expandWord_bareWord "-lh")
        (expandWords_cons (expandWord_doubleName "ARCHIVE") expandWords_nil))
  have hsum : expandWords home vars capture _ = some _ :=
    expandWords_cons (expandWord_bareWord "sha256sum")
      (expandWords_cons (expandWord_doubleName "ARCHIVE") expandWords_nil)
  exact .cons ⟨rfl, rfl, htar, _, hnull⟩ (.cons ⟨rfl, rfl, hecho, _, expandTargets_nil⟩
    (.cons ⟨rfl, rfl, hls, _, expandTargets_nil⟩
      (.cons ⟨rfl, rfl, hsum, _, expandTargets_nil⟩ .nil)))

theorem assignments_read (label : Text) :
    assignmentFrom [] ((Part.bare "TIMESTAMP=").atoms ++ timestampWord) =
        some ("TIMESTAMP".toList, timestampWord) ∧
      assignmentFrom [] ((Part.bare "ARCHIVE=").atoms ++ nameWord label) =
        some ("ARCHIVE".toList, nameWord label) := ⟨rfl, rfl⟩

variable (status) in
theorem archives_archiveArgvs (archive paths : Text) :
    Archives (untilFailure status (archiveArgvs archive paths)) archive [paths] := by
  apply archives_of_first
  intro argv hargv
  have hheads : ∀ name ∈ ["echo".toList, "ls".toList, "sha256sum".toList],
      some name ≠ some "tar".toList := by decide
  have hhead : argv.head? ∈ (["echo".toList, "ls".toList, "sha256sum".toList]).map some := by
    simp only [mem_cons, not_mem_nil, or_false] at hargv
    rcases hargv with rfl | rfl | rfl
    · exact mem_cons_self
    · exact mem_cons_of_mem _ mem_cons_self
    · exact mem_cons_of_mem _ (mem_cons_of_mem _ mem_cons_self)
  obtain ⟨name, hname, heq⟩ := mem_map.mp hhead
  rw [← heq]
  exact hheads name hname

variable (value status)

theorem run_snapshot (hdate : capture dateCommand = (stamp, true)) (hstamp : isStamp stamp = true)
    {label : Text} (hlabel : label.all isLabelChar = true) (paths : Text) :
    ∃ ok trace, runLine (tracing home value capture status) (snapshotLine label paths) [] =
        some (ok, trace) ∧ Archives trace (snapshotArchive label stamp) [paths] := by
  have hok : substitutionsSucceed capture timestampWord = true := congrArg Prod.snd hdate
  have hfree : substitutionsSucceed capture (nameWord label) = true := by
    apply substitutionsSucceed_of_free
    intro command quoted hmem
    simp [nameWord, Part.atoms, Inner.atoms] at hmem
  have hname : expandWord home (assign value "TIMESTAMP" stamp) capture (nameWord label) =
      some (snapshotArchive label stamp) := by
    have hword : ∀ before after : Text, expandWord home (assign value "TIMESTAMP" stamp) capture
        ([Part.double [.literal before, .braced "TIMESTAMP", .literal after]].flatMap
          Part.atoms) = some (before ++ (stamp ++ after)) := by
      intro before after
      rw [expandWord_doubleAround, assign_self]
    exact hword _ _
  have hexpands := expands_archive home capture
    (assign (assign value "TIMESTAMP" stamp) "ARCHIVE" (snapshotArchive label stamp))
    paths
  rw [assign_self] at hexpands
  obtain ⟨ok, hrun⟩ := runCommands_trace value status hexpands []
  refine ⟨ok, _, ?_, archives_archiveArgvs status (snapshotArchive label stamp) paths⟩
  have hline : runLine (tracing home value capture status) (snapshotLine label paths) [] =
      runCommands (tracing home value capture status) (assignments label ++ archiveCommands paths)
        true value [] :=
    runLine_of_pieces (lineOf_snapshot label paths) (wellFormed_snapshot hlabel paths)
      (parse_snapshot label paths) []
  have hfirst : ∀ rest, runCommands (tracing home value capture status)
      ((.andIf, ⟨[(Part.bare "TIMESTAMP=").atoms ++ timestampWord], []⟩) :: rest) true value [] =
      runCommands (tracing home value capture status) rest true
        (assign value "TIMESTAMP" stamp) [] := fun rest =>
    runCommands_assign rfl (assignments_read label).1 (expand_timestamp hdate hstamp value) hok
  have hsecond : ∀ rest, runCommands (tracing home value capture status)
      ((.andIf, ⟨[(Part.bare "ARCHIVE=").atoms ++ nameWord label], []⟩) :: rest) true
        (assign value "TIMESTAMP" stamp) [] =
      runCommands (tracing home value capture status) rest true
        (assign (assign value "TIMESTAMP" stamp) "ARCHIVE"
          (snapshotArchive label stamp)) [] := fun rest =>
    runCommands_assign rfl (assignments_read label).2 hname hfree
  exact hline.trans ((hfirst _).trans ((hsecond _).trans hrun))

end Snapshot

def tarLine (paths dest : Text) : Text :=
  "tar czf " ++ (escape dest .posix ++
    ("/backup_$(date +%Y%m%d_%H%M%S).tar.gz -- " ++ escape paths .posix))

def tarPieces (paths dest : Text) : List Piece :=
  [.bare "tar", .bare "czf",
    .word [.quoted dest, .bare "/backup_", .substitution dateCommand, .bare ".tar.gz"],
    .bare "--", .quoted paths]

theorem lineOf_tar (paths dest : Text) : ' ' :: tarLine paths dest = lineOf (tarPieces paths dest) := by
  simp only [tarPieces, lineOf, flatMap_cons, flatMap_nil, Piece.bare, Piece.quoted,
    Piece.text, Part.text, append_nil]
  delta tarLine dateCommand
  repeat rw [String.toList_ofList]
  simp only [cons_append, nil_append, append_assoc]

def scheduledArchive (dest stamp : Text) : Text :=
  dest ++ ("/backup_" ++ (stamp ++ ".tar.gz"))

def scheduledWord (dest : Text) : Word :=
  [Part.quoted dest, .bare "/backup_", .substitution dateCommand,
    .bare ".tar.gz"].flatMap Part.atoms

def tarCommands (paths dest : Text) : List (Joint × Simple) :=
  [(.andIf, ⟨[bareWord "tar", bareWord "czf", scheduledWord dest, bareWord "--",
    quotedWord paths], []⟩)]

theorem parse_tar (paths dest : Text) :
    parse ((tarPieces paths dest).flatMap Piece.tokens) = some (tarCommands paths dest) := rfl

section Schedule

variable {home : Text} {value : Text → Text} {capture : Text → Text × Bool}
  {status : List Text → Bool} {stamp : Text}

theorem expand_scheduled (hdate : capture dateCommand = (stamp, true))
    (hstamp : isStamp stamp = true) (dest : Text) :
    expandWord home value capture (scheduledWord dest) = some (scheduledArchive dest stamp) := by
  have hfield : isField (capture dateCommand).1 = true := by
    rw [hdate]
    exact isField_of_isStamp hstamp
  have hword : ∀ before after : Text, expandWord home value capture
      ([Part.quoted dest, .bare before, .substitution dateCommand, .bare after].flatMap Part.atoms) =
      some (dest ++ (before ++ (stamp ++ after))) := by
    intro before after
    simp [Part.atoms, expandWord_append, expandWord_substitution hfield, hdate]
  exact hword _ _

variable (value status)

theorem run_tar (hdate : capture dateCommand = (stamp, true)) (hstamp : isStamp stamp = true)
    (paths dest : Text) :
    ∃ ok trace, runLine (tracing home value capture status) (tarLine paths dest) [] =
        some (ok, trace) ∧ Archives trace (scheduledArchive dest stamp) [paths] := by
  have htar : expandWords home value capture _ = some _ :=
    expandWords_cons (expandWord_bareWord "tar")
      (expandWords_cons (expandWord_bareWord "czf")
        (expandWords_cons (expand_scheduled hdate hstamp dest)
          (expandWords_cons (expandWord_bareWord "--")
            (expandWords_cons (expandWord_quotedWord paths) expandWords_nil))))
  have hexpands : List.Forall₂ (Expands home value capture) (tarCommands paths dest) [_] :=
    .cons ⟨rfl, rfl, htar, _, expandTargets_nil⟩ .nil
  obtain ⟨ok, hrun⟩ := runCommands_trace value status hexpands []
  have hline : runLine (tracing home value capture status) (tarLine paths dest) [] =
      runCommands (tracing home value capture status) _ true value [] :=
    runLine_of_pieces (lineOf_tar paths dest) rfl (parse_tar paths dest) []
  exact ⟨ok, _, hline.trans hrun, archives_of_first (forall_mem_nil _)⟩

end Schedule

theorem getLast?_escape (s : Text) : (escape s .posix).getLast? = some '\'' := by
  rw [escape, getLast?_concat]

variable {s dest cronExpr command : Text}

theorem notMem_escape {c : Char} (hc : c ∉ ['\'', '\\']) (h : c ∉ s) : c ∉ escape s .posix := by
  obtain ⟨hquote, hslash⟩ : c ≠ '\'' ∧ c ≠ '\\' := by simpa using hc
  have hreplaced : c ∉ replaceChar '\'' ['\'', '\\', '\'', '\''] s := by
    intro hmem
    obtain ⟨d, hd, hmem⟩ := mem_flatMap.mp hmem
    split at hmem
    · simp [hquote, hslash] at hmem
    · exact h (mem_singleton.mp hmem ▸ hd)
  rw [escape, mem_append, mem_cons, mem_singleton, not_or, not_or]
  exact ⟨⟨hquote, hreplaced⟩, hquote⟩

theorem cronRead_backupCmd {paths : Text} (hpaths : '%' ∉ paths) (hdest : '%' ∉ dest) :
    cronRead (backupCmd paths dest) = (tarLine paths dest, none) := by
  have hfirst : '%' ∉ "tar czf " ++ escape dest .posix := by
    rw [mem_append, not_or]
    exact ⟨by decide, notMem_escape (by decide) hdest⟩
  have hfirstEnd : ("tar czf " ++ escape dest .posix).getLast? ≠ some '\\' := by
    rw [getLast?_append, getLast?_escape]
    decide
  have hlastEnd : (escape paths .posix).getLast? ≠ some '\\' := by
    rw [getLast?_escape]
    decide
  have hlast : cronRead (escape paths .posix) = (escape paths .posix, none) := by
    have hcopy := Cron.cronRead_copy (notMem_escape (by decide) hpaths) hlastEnd []
    rw [append_nil] at hcopy
    rw [hcopy]
    exact congrArg (·, none) (append_nil _)
  have hname : ∀ s, cronRead ("/backup_$(date +\\%Y\\%m\\%d_\\%H\\%M\\%S).tar.gz -- " ++ s) =
      ("/backup_$(date +%Y%m%d_%H%M%S).tar.gz -- " ++ (cronRead s).1, (cronRead s).2) := by
    intro s
    repeat rw [String.toList_ofList]
    rfl
  have hsplit : backupCmd paths dest = ("tar czf " ++ escape dest .posix) ++
      ("/backup_$(date +\\%Y\\%m\\%d_\\%H\\%M\\%S).tar.gz -- " ++ escape paths .posix) :=
    (append_assoc _ _ _).symm
  rw [hsplit, Cron.cronRead_copy hfirst hfirstEnd, hname, hlast, append_assoc]
  rfl

theorem emitted_scheduleLine (line : Text) : emitted (scheduleLine line) = some [line ++ ['\n']] := by
  have hfirst : lexFrom .start "(crontab -l 2>/dev/null; printf '%s\\n' " =
      some ⟨[.word "%s\\n", .word "printf", .op ";", .word "/dev/null",
        .op ">", .ioNumber "2", .word "-l", .word "crontab",
        .op "("], .between, false, []⟩ := by
    rw [String.toList_ofList]
    rfl
  have hlast : ∀ out, (lexFrom ⟨out, .word line false, false, []⟩
      ") | crontab - && echo 'Backup schedule added successfully' && crontab -l | tail -3").bind
        Lexing.close =
      some (.word "-3" :: .word "tail" :: .op "|" :: .word "-l" ::
        .word "crontab" :: .op "&&" ::
        .word "Backup schedule added successfully" :: .word "echo" :: .op "&&" ::
        .word "-" :: .word "crontab" :: .op "|" :: .op ")" ::
        .word line :: out).reverse := by
    intro out
    rw [String.toList_ofList]
    rfl
  have hquoted := lexFrom_then (lexFrom_escape [.word "%s\\n", .word "printf",
    .op ";", .word "/dev/null", .op ">", .ioNumber "2",
    .word "-l", .word "crontab", .op "("] false [] line)
    ") | crontab - && echo 'Backup schedule added successfully' && crontab -l | tail -3"
  have hlex := (congrArg (Option.bind · Lexing.close) ((lexFrom_then hfirst _).trans hquoted)).trans
    (hlast _)
  rw [emitted, show Shell.lex (scheduleLine line) = _ from hlex]
  rfl

/-- A shell in which `date` works; all else is arbitrary. -/
structure Session where
  home : Text
  value : Text → Text
  capture : Text → Text × Bool
  status : List Text → Bool
  stamp : Text
  date : capture dateCommand = (stamp, true)
  digits : isStamp stamp = true

def Session.setting (s : Session) : Setting (List (List Text)) :=
  tracing s.home s.value s.capture s.status

theorem Session.slash_notMem (s : Session) : '/' ∉ "backup_" ++ (s.stamp ++ ".tar.gz") := by
  have hstamp : '/' ∉ s.stamp := by
    intro hmem
    have hall := (Bool.and_eq_true _ _ ▸ s.digits).2
    exact absurd (all_eq_true.mp hall _ hmem) (by decide)
  rw [mem_append, mem_append, not_or, not_or]
  exact ⟨by decide, hstamp, by decide⟩

/-- The line runs and archives these paths. -/
def SnapshotCovers (s : Session) (line : Text) (paths : List Text) : Prop :=
  ∃ ok trace archive, runLine s.setting line [] = some (ok, trace) ∧ Archives trace archive paths

/-- One line is added to the crontab. cron finds the expression's fields in it, and the command that
it hands over archives these paths into the directory. -/
def ScheduleCovers (s : Session) (command cronExpr dest : Text) (paths : List Text) : Prop :=
  ∃ out entry line ok trace name, emitted command = some [out] ∧ inputLines out = [entry] ∧
    isEntry entry = true ∧ (takeFields 5 entry).1 = splitWhitespace cronExpr ∧
    cronRead (takeFields 5 entry).2 = (line, none) ∧
    runLine s.setting line [] = some (ok, trace) ∧ name ≠ [] ∧ '/' ∉ name ∧
    Archives trace (dest ++ '/' :: name) paths

structure Scheduled (cronExpr paths dest command : Text) : Prop where
  fields : (splitWhitespace cronExpr).length = 5
  fieldChars : ∀ field ∈ splitWhitespace cronExpr, ∀ c ∈ field, isCronFieldChar c = true
  pathChars : ∀ c ∈ paths, isControl c = false ∧ c ≠ '%'
  destChars : ∀ c ∈ dest, isControl c = false ∧ c ≠ '%'
  command : command = scheduleLine (cronLine cronExpr paths dest)

section Entry

variable {paths : Text} (h : Scheduled cronExpr paths dest command)
include h

theorem Scheduled.isEntry : isEntry (cronLine cronExpr paths dest) = true := by
  apply Cron.isEntry_append
  · intro hnil
    have := h.fields
    rw [hnil] at this
    cases this
  · exact fun c hc => Cron.schedule_chars h.fieldChars hc

variable (hblanks : ∀ c ∈ cronExpr, isWhitespace c = true → Cron.isBlank c = true)
include hblanks

theorem Scheduled.newline_notMem : '\n' ∉ cronLine cronExpr paths dest := by
  have hexpr : '\n' ∉ cronExpr := fun hmem => absurd (hblanks _ hmem rfl) (by decide)
  have hpath : '\n' ∉ paths := fun hmem => absurd (h.pathChars _ hmem).1 (by decide)
  have hdest : '\n' ∉ dest := fun hmem => absurd (h.destChars _ hmem).1 (by decide)
  rw [cronLine, mem_append, mem_cons, not_or, not_or]
  refine ⟨hexpr, by decide, ?_⟩
  delta backupCmd
  rw [mem_append, mem_append, mem_append, not_or, not_or, not_or]
  exact ⟨by decide, notMem_escape (by decide) hdest, by decide, notMem_escape (by decide) hpath⟩

theorem Scheduled.takeFields : takeFields 5 (cronLine cronExpr paths dest) =
    (splitWhitespace cronExpr, backupCmd paths dest) := by
  have htake := Cron.takeFields_schedule hblanks (backupCmd paths dest)
  rw [h.fields] at htake
  exact htake

end Entry

theorem fields_of_validateCronExpr (h : validateCronExpr cronExpr = .ok ()) :
    (splitWhitespace cronExpr).length = 5 ∧
      ∀ field ∈ splitWhitespace cronExpr, ∀ c ∈ field, isCronFieldChar c = true := by
  simp only [validateCronExpr] at h
  split_ifs at h with hlength
  refine ⟨not_not.mp hlength, fun field hfield => ?_⟩
  split at h
  · cases h
  · next hfind =>
      obtain ⟨i, hi⟩ := mem_iff_getElem?.mp hfield
      have hgood := find?_eq_none.mp hfind (field, i) (mem_zipIdx_iff_getElem?.mpr hi)
      simpa using hgood

theorem chars_of_refuseLineBreaks {name value : Text} (h : refuseLineBreaks name value = .ok ()) :
    ∀ c ∈ value, isControl c = false ∧ c ≠ '%' := by
  rw [refuseLineBreaks] at h
  split_ifs at h with hany
  intro c hc
  have hfree := any_eq_false.mp (Bool.not_eq_true _ ▸ hany) c hc
  simpa using hfree

theorem scheduled_of_build {paths : Text}
    (h : buildScheduleCommand cronExpr paths dest = .ok command) :
    Scheduled cronExpr paths dest command := by
  obtain ⟨hexpr, h⟩ := ok_of_bind h
  obtain ⟨-, h⟩ := ok_of_bind h
  obtain ⟨-, h⟩ := ok_of_bind h
  obtain ⟨-, h⟩ := ok_of_bind h
  obtain ⟨hpaths, h⟩ := ok_of_bind h
  obtain ⟨hdest, h⟩ := ok_of_bind h
  obtain ⟨hfields, hchars⟩ := fields_of_validateCronExpr hexpr
  exact ⟨hfields, hchars, chars_of_refuseLineBreaks hpaths, chars_of_refuseLineBreaks hdest,
    (Except.ok.inj h).symm⟩

variable {paths : List Text}

theorem snapshotCovers_iff (s : Session) (h : Asked paths) (label : Option Text) :
    SnapshotCovers s (snapshotLine (labelPart label) (joined paths)) paths ↔ paths.length = 1 := by
  have hlabel : (labelPart label).all isLabelChar = true :=
    all_eq_true.mpr fun c hc => (mem_filter.mp hc).2
  obtain ⟨ok, trace, hrun, harchives⟩ : ∃ ok trace, runLine s.setting
      (snapshotLine (labelPart label) (joined paths)) [] = some (ok, trace) ∧
        Archives trace (snapshotArchive (labelPart label) s.stamp) [joined paths] :=
    run_snapshot s.value s.status s.date s.digits hlabel (joined paths)
  constructor
  · rintro ⟨ok', trace', archive, hrun', harchives'⟩
    cases hrun.symm.trans hrun'
    exact ((archives_joined_iff harchives h.some).mp harchives').2
  · intro hone
    exact ⟨ok, trace, _, hrun, (archives_joined_iff harchives h.some).mpr ⟨rfl, hone⟩⟩

theorem not_plain_of_whitespace {c : Char} (h : isWhitespace c = true) : isPlain c = false := by
  have hno : ∀ d : Char, isWhitespace d = false → c ≠ d := by
    rintro d hd rfl
    rw [h] at hd
    cases hd
  have hword : c.isAlphanum = false := by
    by_contra hc
    have hrange := isAlphanum_iff.mp (Bool.not_eq_false _ ▸ hc)
    simp only [isWhitespace, Bool.or_eq_true, Bool.and_eq_true, decide_eq_true_eq, beq_iff_eq] at h
    omega
  simp [isPlain, hword, hno '-' rfl, hno '_' rfl, hno '.' rfl, hno '/' rfl, hno ':' rfl, hno '=' rfl,
    hno '@' rfl, hno '%' rfl, hno '+' rfl, hno ',' rfl]

theorem runLine_of_whitespace (s : Session) {c : Char} (hspace : isWhitespace c = true)
    (hblank : Cron.isBlank c = false) (rest : Text) : runLine s.setting (c :: rest) [] = none := by
  have hno : ∀ d : Char, isWhitespace d = false → c ≠ d := by
    rintro d hd rfl
    rw [hspace] at hd
    cases hd
  have hplain : isPlain c = false := not_plain_of_whitespace hspace
  have hstep : Reader.step .start c = none := by
    have hop : isOperatorChar c = false := by
      simp [isOperatorChar, hno '&' rfl, hno '|' rfl, hno '<' rfl, hno '>' rfl]
    simp only [Reader.step, Reader.start, Reader.fresh, Reader.inWord, if_neg (hno '~' rfl),
      if_neg (hno '\'' rfl), if_neg (hno '"' rfl), if_neg (hno '\\' rfl), if_neg (hno '$' rfl), hop,
      hplain, show CommandLine.isBlank c = false from hblank, Bool.false_eq_true, false_and, if_false]
  rw [runLine, CommandLine.read, readFrom, hstep]
  rfl

theorem splitOn_eq_singleton_iff {line : Text} : s.splitOn '\n' = [line] ↔ s = line ∧ '\n' ∉ s := by
  constructor
  · intro h
    have hfree : '\n' ∉ s := by
      intro hmem
      obtain ⟨before, after, rfl⟩ := append_of_mem hmem
      have hlength := congrArg length h
      rw [splitOn_append_cons, length_append] at hlength
      have hbefore := length_pos_of_ne_nil (splitOn_ne_nil '\n' before)
      have hafter := length_pos_of_ne_nil (splitOn_ne_nil '\n' after)
      rw [length_singleton] at hlength
      omega
    rw [splitOn_eq_singleton hfree] at h
    exact ⟨singleton_injective h, hfree⟩
  · rintro ⟨rfl, hfree⟩
    exact splitOn_eq_singleton hfree

/-- A scheduled backup covers one path, if cron finds the fields. -/
theorem scheduleCovers_iff (s : Session) (hpaths : Asked paths)
    (h : Scheduled cronExpr (joined paths) dest command) :
    ScheduleCovers s command cronExpr dest paths ↔
      paths.length = 1 ∧ ∀ c ∈ cronExpr, isWhitespace c = true → Cron.isBlank c = true := by
  obtain ⟨ok, trace, hrun, harchives⟩ : ∃ ok trace, runLine s.setting
      (tarLine (joined paths) dest) [] = some (ok, trace) ∧
        Archives trace (scheduledArchive dest s.stamp) [joined paths] :=
    run_tar s.value s.status s.date s.digits (joined paths) dest
  have hread : cronRead (backupCmd (joined paths) dest) = (tarLine (joined paths) dest, none) :=
    cronRead_backupCmd (fun hmem => (h.pathChars _ hmem).2 rfl) fun hmem => (h.destChars _ hmem).2 rfl
  have hemitted := emitted_scheduleLine (cronLine cronExpr (joined paths) dest)
  rw [← h.command] at hemitted
  constructor
  · rintro ⟨out, entry, line, ok', trace', name, hout, hentry, -, hfields, hline, hrun', -, -, hcovers⟩
    rw [hemitted] at hout
    obtain rfl : cronLine cronExpr (joined paths) dest ++ ['\n'] = out := by simpa using hout
    rw [inputLines_newline, splitOn_eq_singleton_iff] at hentry
    obtain ⟨rfl, -⟩ := hentry
    rcases Cron.blanks_of_takeFields hfields with hblanks | ⟨c, rest, hrest, hspace, hblank⟩
    · refine ⟨?_, hblanks⟩
      rw [h.takeFields hblanks, hread] at hline
      cases hline
      cases hrun.symm.trans hrun'
      exact ((archives_joined_iff harchives hpaths.some).mp hcovers).2
    · -- the command would start with white space that the shell does not skip
      rw [show cronLine cronExpr (joined paths) dest = cronExpr ++ ' ' :: backupCmd (joined paths) dest
        from rfl, hrest, cronRead, Cron.cronReadFrom, if_neg (by rintro rfl; cases hspace),
        if_neg (by rintro rfl; cases hspace)] at hline
      obtain rfl := congrArg Prod.fst hline
      rw [runLine_of_whitespace s hspace hblank] at hrun'
      cases hrun'
  · rintro ⟨hone, hblanks⟩
    refine ⟨_, _, _, ok, trace, _, hemitted, ?_, h.isEntry, ?_, ?_, hrun, ?_, s.slash_notMem, ?_⟩
    · rw [inputLines_newline]
      exact splitOn_eq_singleton_iff.mpr ⟨rfl, h.newline_notMem hblanks⟩
    · rw [h.takeFields hblanks]
    · rw [h.takeFields hblanks]
      exact hread
    · exact append_ne_nil_of_left_ne_nil (by decide) _
    · exact (archives_joined_iff harchives hpaths.some).mpr ⟨rfl, hone⟩

/-- All the paths are quoted as one word, so tar gets them as one operand. -/
theorem backup_covers_iff {paths : List Text} (hpaths : Asked paths) (label : Option Text)
    {cronExpr dest command : Text}
    (h : buildScheduleCommand cronExpr (joined paths) dest = .ok command) (shell cron : Session) :
    ∃ snapshot, buildSnapshotCommand (joined paths) label = .ok snapshot ∧
      (SnapshotCovers shell snapshot paths ∧ ScheduleCovers cron command cronExpr dest paths ↔
        paths.length = 1 ∧ ∀ c ∈ cronExpr, isWhitespace c = true → Cron.isBlank c = true) := by
  refine ⟨snapshotLine (labelPart label) (joined paths), ?_, ?_⟩
  · exact bind_of_ok (validatePaths_joined hpaths) _
  · rw [snapshotCovers_iff shell hpaths label, scheduleCovers_iff cron hpaths (scheduled_of_build h)]
    constructor
    · exact fun hboth => hboth.2
    · exact fun hcond => ⟨hcond.1, hcond⟩

def isAsked (paths : List Text) : Bool :=
  !paths.isEmpty && paths.all (fun path => !path.isEmpty &&
    path.all (fun c => c != ' ' && !isControl c && c != '%') && !contains path "..") &&
    decide (utf8Len (joined paths) ≤ 4096)

theorem asked_of_isAsked (h : isAsked paths = true) : Asked paths := by
  simp only [isAsked, Bool.and_eq_true, all_eq_true, Bool.not_eq_true', decide_eq_true_eq,
    bne_iff_ne, isEmpty_eq_false_iff] at h
  obtain ⟨⟨hsome, hall⟩, hshort⟩ := h
  refine ⟨hsome, fun path hpath => (hall path hpath).1.1, ?_, ?_, hshort⟩
  · intro path hpath c hc
    obtain ⟨⟨hblank, hcontrol⟩, hpercent⟩ := (hall path hpath).1.2 c hc
    exact ⟨hblank, hcontrol, hpercent⟩
  · intro path hpath hinfix
    have hdots := (hall path hpath).2
    rw [TextLib.contains_iff.mpr hinfix] at hdots
    cases hdots

def nightly : Session where
  home := "/root"
  value _ := []
  capture _ := ("20260101_020000", true)
  status _ := true
  stamp := "20260101_020000"
  date := rfl
  digits := rfl

theorem backup_covers_iff_etc :
    ∃ snapshot command,
      buildSnapshotCommand "/etc" none = .ok snapshot ∧
      buildScheduleCommand "0 2 * * *" "/etc" "/var/backups" = .ok command ∧
      SnapshotCovers nightly snapshot ["/etc"] ∧
      ScheduleCovers nightly command "0 2 * * *" "/var/backups" ["/etc"] := by
  have hasked : Asked ["/etc"] := asked_of_isAsked rfl
  have hbuild : buildScheduleCommand "0 2 * * *" (joined ["/etc"])
      "/var/backups" = .ok (scheduleLine (cronLine "0 2 * * *" "/etc"
        "/var/backups")) := rfl
  have hblanks : ∀ c ∈ "0 2 * * *".toList, isWhitespace c = true → Cron.isBlank c = true := by
    have hall : "0 2 * * *".toList.all (fun c => !isWhitespace c || Cron.isBlank c) = true := rfl
    intro c hc hspace
    simpa [hspace] using all_eq_true.mp hall c hc
  obtain ⟨snapshot, hsnapshot, hiff⟩ := backup_covers_iff hasked none hbuild nightly nightly
  obtain ⟨hfirst, hsecond⟩ := hiff.mpr ⟨rfl, hblanks⟩
  exact ⟨snapshot, _, hsnapshot, hbuild, hfirst, hsecond⟩

/-- Two paths: tar is told to archive one file whose name holds both. -/
theorem two_paths_one_operand :
    buildSnapshotCommand "/etc /srv" none =
        .ok (snapshotLine "snapshot" "/etc /srv") ∧
      (∃ ok trace, runLine nightly.setting (snapshotLine "snapshot" "/etc /srv") [] =
          some (ok, trace) ∧
        Archives trace (snapshotArchive "snapshot" nightly.stamp) ["/etc /srv"]) ∧
      ¬ SnapshotCovers nightly (snapshotLine "snapshot" "/etc /srv")
        ["/etc", "/srv"] := by
  have hasked : Asked ["/etc", "/srv"] := asked_of_isAsked rfl
  refine ⟨rfl, run_snapshot _ _ nightly.date nightly.digits rfl _, ?_⟩
  intro hcovers
  have hone := (snapshotCovers_iff nightly hasked none).mp hcovers
  cases hone

end BridgeMcp.Backup
