import BridgeMcp.Lib.Lines
import BridgeMcp.Lib.SlashPath
import BridgeMcp.Shell.Hosts
import BridgeMcp.Shell.Words

/-!
The `local-path` orphan collector (`domain/use_cases/kubernetes.rs`): the check of the storage root
and the script of `build_localpath_gc_command`, run in the C locale. A text here may be read as one
character for each byte, in which case the order of texts is the order of `sort`.
-/
namespace BridgeMcp.Kubernetes
open TextLib LineLib SlashPath Shell

def isPathChar (c : Char) : Bool := c.isAlphanum || ['.', '_', '/', '-'].contains c

def validateAbsPath (path : Text) : Except CommandDenied Unit :=
  if path.isEmpty then .error ⟨"path must not be empty"⟩
  else if path.head? ≠ some '/' then
    .error ⟨"path must be absolute (start with '/'): " ++ path⟩
  else if (path.splitOn '/').contains ".." then
    .error ⟨"path contains path traversal '..': " ++ path⟩
  else
    match path.find? (!isPathChar ·) with
    | some ch => .error ⟨"path contains disallowed character '" ++ ch :: "': " ++ path⟩
    | none => .ok ()

def trimSlashes (path : Text) : Text := path.rdropWhile (· = '/')

def validateStorageRoot (path : Text) : Except CommandDenied Unit := do
  validateAbsPath path
  if (((trimSlashes path).splitOn '/').drop 1).any fun seg => seg.isEmpty || seg == ['.'] then
    throw ⟨"storage root contains an empty or '.' segment: " ++ path⟩
  let depth := ((path.splitOn '/').filter (!·.isEmpty)).length
  if depth < 3 then
    throw ⟨"storage root path is too shallow (must have ≥3 segments, got " ++
      Nat.toDigits 10 depth ++ "): " ++ path⟩

/-- The two places of the script that its run depends on. Its other places, the kubectl program and
the context, only decide which cluster answers. -/
structure GcScript where
  rootEsc : Text
  applyStr : Text

def buildLocalpathGcCommand (storageRoot : Text) (apply : Bool) : GcScript :=
  ⟨escape (trimSlashes storageRoot) .posix, if apply then "true" else "false"⟩

def assigned (word : Text) : Text := ((shellWords word).bind List.head?).getD []

/-- The `awk` program on one line: the line it prints, if any. -/
def liveAwk (r line : Text) : Option Text :=
  let p := squeeze line
  if p.head? ≠ some '/' then none
  else
    let p := trimSlashes p
    let slashed := '/' :: p ++ ['/']
    if contains slashed "/./" || contains slashed "/../" then some "!UNSURE"
    else if p = r ∨ p ++ ['/'] <+: r ++ ['/'] then some "!COVERS"
    else
      match stripPrefix (r ++ ['/']) p with
      | none => none
      | some s =>
        let s := s.takeWhile (· ≠ '/')
        if s = [] then none else some (r ++ '/' :: s)

structure FileName where
  text : Text
  slash : '/' ∉ text
  nul : '\x00' ∉ text

/-- `find "$ROOT" -mindepth 1 -maxdepth 1 -type d -name 'pvc-*'` -/
def findPvc (root : Text) (disk : List FileName) : Text :=
  unlines ((disk.filter fun dir => "pvc-".toList.isPrefixOf dir.text).map fun dir =>
    root ++ '/' :: dir.text)

def sortU (input : Text) : Text := unlines (sortUnique (inputLines input))

def hasLine (value line : Text) : Bool := (inputLines (value ++ ['\n'])).contains line

/-- `PVL`, where `none` is a kubectl that failed. -/
def pvList : Option Text → Except Text Text
  | none => .error
      ("ERROR: kubectl get pv failed - cannot tell live dirs from orphans, " ++
        "nothing removed")
  | some out =>
    if "PVLIST_OK" <:+ capture out then .ok (capture out)
    else .error
      ("ERROR: PV list incomplete - cannot tell live dirs from orphans, " ++
        "nothing removed")

def liveDirs (root pvl : Text) : Text :=
  capture (sortU (unlines ((inputLines (pvl ++ ['\n'])).filterMap (liveAwk root))))

def checkLive (live : Text) : Except Text Unit :=
  if hasLine live "!UNSURE" then .error
    ("ERROR: a PV path has a . or .. segment - cannot tell which directories are live, " ++
      "nothing removed")
  else if hasLine live "!COVERS" then .error
    ("ERROR: a PV path is the storage root or one of its parents - every directory under it " ++
      "is live, nothing removed")
  else .ok ()

def onDisk (root : Text) (disk : List FileName) : Text := capture (sortU (findPvc root disk))

def orphans (on live : Text) : Text :=
  capture (unlines (comm23 (inputLines (on ++ ['\n'])) (inputLines (live ++ ['\n']))))

/-- One round of the `while read` loop: the path that `rm -rf` gets, or the refusal. -/
def removeOrphan (root d : Text) : Except Text Text :=
  let rel := (stripPrefix (root ++ ['/']) d).getD d
  if root ++ "/pvc-".toList <+: d then
    if rel.contains '/' then .error ("refusing (not a first-level directory): ".toList ++ d)
    else .ok d
  else .error ("refusing (not a pvc-* directory under root): ".toList ++ d)

/-- What the script prints and does when it does not stop with an error. -/
structure GcReport where
  live : Text
  onDisk : Text
  orphans : Text
  rounds : List (Except Text Text)

def GcReport.removed (report : GcReport) : List Text := report.rounds.filterMap Except.toOption

def removeOrphans (apply root live on orph : Text) : Except Text GcReport :=
  if apply = "true" ∧ orph ≠ [] then
    if live = [] then .error
      ("ERROR: orphans found but no PV lies under the storage root - wrong cluster or " ++
        "context? nothing removed")
    else .ok ⟨live, on, orph, (inputLines (orph ++ ['\n'])).map (removeOrphan root)⟩
  else .ok ⟨live, on, orph, []⟩

def GcScript.run (script : GcScript) (kubectl : Option Text) (disk : List FileName) :
    Except Text GcReport := do
  let root := assigned script.rootEsc
  let pvl ← pvList kubectl
  let live := liveDirs root pvl
  checkLive live
  let on := onDisk root disk
  removeOrphans (assigned script.applyStr) root live on (orphans on live)

def GcScript.removed (script : GcScript) (kubectl : Option Text) (disk : List FileName) : List Text :=
  (script.run kubectl disk).toOption.elim [] GcReport.removed

structure PersistentVolume where
  localPath : Option Text
  hostPath : Option Text
  oneLine : ∀ p ∈ localPath.toList ++ hostPath.toList, '\n' ∉ p

def PersistentVolume.paths (pv : PersistentVolume) : List Text :=
  pv.localPath.toList ++ pv.hostPath.toList

/-- The two fields of every volume; one that is missing prints nothing. -/
def pvFields (pvs : List PersistentVolume) : List Text :=
  pvs.flatMap fun pv => [pv.localPath.getD [], pv.hostPath.getD []]

def pvOutput (pvs : List PersistentVolume) : Text :=
  unlines (pvFields pvs) ++ "PVLIST_OK"

inductive Listing where
  | failed
  | complete (pvs : List PersistentVolume)
  | truncated (pvs : List PersistentVolume) (out : Text)
      (isStart : out <+: pvOutput pvs) (isShort : out ≠ pvOutput pvs)

def Listing.answer : Listing → Option Text
  | .failed => none
  | .complete pvs => some (pvOutput pvs)
  | .truncated _ out _ _ => some out

end BridgeMcp.Kubernetes
