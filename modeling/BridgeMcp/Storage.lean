import BridgeMcp.Lib.Lines
import BridgeMcp.Lib.Utf8
import BridgeMcp.Shell.CommandRun
import BridgeMcp.Shell.Hosts

/-!
The `mount` command of `ssh_mount` (`domain/use_cases/storage.rs`), and the helpers that `mount` can
run for its arguments.
-/
namespace BridgeMcp.Storage
open TextLib CheckLib BridgeMcp.Shell BridgeMcp.Shell.CommandLine List

def mountFsTypes : List Text :=
  ["auto", "none", "ext2", "ext3", "ext4", "xfs", "btrfs", "zfs", "f2fs", "jfs", "reiserfs", "nilfs2",
    "bcachefs", "vfat", "msdos", "exfat", "ntfs", "ntfs3", "ntfs-3g", "hfs", "hfsplus", "nfs", "nfs4",
    "cifs", "smb3", "9p", "virtiofs", "ceph", "vboxsf", "tmpfs", "ramfs", "overlay", "hugetlbfs",
    "mqueue", "iso9660", "udf", "squashfs", "erofs", "proc", "sysfs", "devpts", "devtmpfs", "cgroup",
    "cgroup2", "bpf", "debugfs", "tracefs", "securityfs"].map String.toList

def cifsCredentialKeys : List Text :=
  ["credentials", "cred", "cruid", "multiuser", "upcall_target"].map String.toList

def cephCredentialKeys : List Text := ["secretfile", "conf", "key"].map String.toList

def cephSecretMaxLen : ℕ := 40

def unsetVariables : List Text :=
  ["PASSWD", "PASSWD_FD", "PASSWD_FILE", "PASSWD2", "PASSWD2_FD", "PASSWD2_FILE", "USER"].map
    String.toList

def mountCifsUnset : Text :=
  "unset PASSWD PASSWD_FD PASSWD_FILE PASSWD2 PASSWD2_FD PASSWD2_FILE USER && "

def typesOf (fsType : Option Text) : List Text := fsType.elim [] (·.splitOn ',')

/-- The type is left to `mount`, in whole or by an element of the list. -/
def autodetects (fsType : Option Text) : Bool :=
  fsType.isNone || (typesOf fsType).any fun t => t == "auto" || t == "none"

def isShare (device : Text) : Bool := "//".toList.isPrefixOf device

def reachesMountCifs (device : Text) (fsType : Option Text) : Bool :=
  (typesOf fsType).any (fun t => t == "cifs" || t == "smb3") ||
    autodetects fsType && isShare device

def namesCeph (fsType : Option Text) : Bool := (typesOf fsType).any (· == "ceph")

structure NetworkFs where
  cifs : Bool
  nfs : Bool
  ceph : Bool
  deriving DecidableEq

open NetworkFs

def NetworkFs.of (device : Text) (fsType : Option Text) : NetworkFs :=
  if autodetects fsType && (isShare device || device.contains ':') then ⟨true, true, true⟩
  else
    ⟨(typesOf fsType).any fun t => t == "cifs" || t == "smb3",
      (typesOf fsType).any fun t => t == "nfs" || t == "nfs4", namesCeph fsType⟩

def NetworkFs.any (net : NetworkFs) : Bool := net.cifs || net.nfs || net.ceph

def keyValue (opt : Text) : Text × Text := (splitFirst ['='] opt).getD (opt, [])

def keyOf (opt : Text) : Text := lower (trim (keyValue (trim opt)).1)

def valueOf (opt : Text) : Text := lower (trim (keyValue (trim opt)).2)

def isKerberos (opt : Text) : Bool :=
  keyOf opt == "sec" && ((valueOf opt).splitOn ':').any fun f =>
    "krb5".toList.isPrefixOf f || "lkey".toList.isPrefixOf f || "spkm3".toList.isPrefixOf f

def isHostCertificate (opt : Text) : Bool :=
  keyOf opt == "xprtsec" && valueOf opt == "mtls"

def readsCredentials : Text :=
  ("reads the credentials from a file, a Kerberos ticket cache or a per-user session of the " ++
    "host").toList

def readsCephKey : Text :=
  "reads the CephX key or the cluster configuration from a file of the host"

def usesKerberos : Text := "authenticates with the Kerberos credentials of the host"

def presentsCertificate : Text := "presents the TLS client certificate of the host"

def hostSource (net : NetworkFs) (opt : Text) : Option Text :=
  if net.cifs && cifsCredentialKeys.contains (keyOf opt) then some readsCredentials
  else if net.ceph && cephCredentialKeys.contains (keyOf opt) then some readsCephKey
  else if (net.cifs || net.nfs) && isKerberos opt then some usesKerberos
  else if net.nfs && isHostCertificate opt then some presentsCertificate
  else none

def optionRefusal (opt what : Text) : Text :=
  "options '" ++ trim opt ++ "' " ++ what ++
    (", which a network filesystem must not use with a server chosen by the caller. Pass " ++
      "username= and password= explicitly, or use an entry of /etc/fstab").toList

def checkOptions (net : NetworkFs) : List Text → Except CommandDenied Unit
  | [] => .ok ()
  | opt :: rest =>
    match hostSource net opt with
    | some what => .error ⟨optionRefusal opt what⟩
    | none => checkOptions net rest

def quoteRefusal : Text :=
  ("options must not contain a quote character (\" or ') for a network filesystem: the mount " ++
    "helpers do not read a quoted key or value as written. Write the options without quotes").toList

def checkQuotes (options : Text) : Except CommandDenied Unit :=
  if options.contains '"' || options.contains '\'' then .error ⟨quoteRefusal⟩ else .ok ()

/-- A value that `mount.ceph` keeps. -/
def isUsableSecret (value : Text) : Bool :=
  1 ≤ utf8Len value && utf8Len value ≤ cephSecretMaxLen &&
    value.all fun c => c.isAlphanum || c == '+' || c == '/' || c == '='

def isSecret (opt : Text) : Bool := (keyValue opt).1 == "secret"

def secretRefusal : Text :=
  ("options of a ceph mount must contain exactly one secret= with a value: a CephX key, at most 40 " ++
    "characters of A-Z, a-z, 0-9, +, / and =. Without it mount.ceph looks up the key of the client " ++
    "name in a keyring of the host and hands it to the monitor chosen by the caller. Pass secret= " ++
    "explicitly").toList

/-- Whether there is one `secret=` among the options, with a usable value. -/
def givesSecret (opts : List Text) : Bool :=
  match opts.filter isSecret with
  | [opt] => (splitFirst ['='] opt).any fun found => isUsableSecret found.2
  | _ => false

def validateCephSecret (options : Text) : Except CommandDenied Unit :=
  if givesSecret (options.splitOn ',') then .ok () else .error ⟨secretRefusal⟩

def checkCeph (fsType : Option Text) (options : Text) : Except CommandDenied Unit :=
  if namesCeph fsType then validateCephSecret options else .ok ()

def validateNetworkMountOptions (device : Text) (fsType : Option Text) (options : Text) :
    Except CommandDenied Unit :=
  let net := of device fsType
  if net.any then do
    checkQuotes options
    checkOptions net (options.splitOn ',')
    checkCeph fsType options
  else .ok ()

def typeRefusal (t : Text) : Text :=
  "fs_type '" ++ t ++
    ("' is not an allowed filesystem type (fuse and subtype names such as 'fuse.prog' would make " ++
      "mount run a helper program)").toList

def checkTypes : List Text → Except CommandDenied Unit
  | [] => .ok ()
  | t :: rest => if mountFsTypes.contains t then checkTypes rest else .error ⟨typeRefusal t⟩

def hashRefusal : Text :=
  ("device must not contain '#' unless fs_type names a filesystem: mount.fuse reads 'prog#source' " ++
    "as a program to run").toList

def checkHash (device : Text) (fsType : Option Text) : Except CommandDenied Unit :=
  if autodetects fsType && device.contains '#' then .error ⟨hashRefusal⟩ else .ok ()

def isMove (opt : Text) : Bool :=
  opt == "bind" || opt == "rbind" || opt == "move"

def moves (options : Option Text) : Bool :=
  options.any fun list => (list.splitOn ',').any fun opt => isMove (trim opt)

def networkForm (device : Text) : Bool :=
  isShare device || device.contains ':' || device.contains '@'

def noneRefusal : Text :=
  ("fs_type 'none' is refused for a network device: mount reads it as a pattern that tries every " ++
    "type listed in /etc/filesystems. Give the type of the filesystem (cifs, nfs, ceph...)").toList

def checkNone (device : Text) (fsType options : Option Text) : Except CommandDenied Unit :=
  if !moves options && networkForm device && (typesOf fsType).any (· == "none") then
    .error ⟨noneRefusal⟩
  else .ok ()

def atRefusal : Text :=
  ("a device with '@' (the ceph name@fsid.fs=/path form) needs fs_type: left to mount, it tries " ++
    "every type listed in /etc/filesystems. Give fs_type ceph").toList

def checkAt (device : Text) (fsType options : Option Text) : Except CommandDenied Unit :=
  if !moves options && autodetects fsType && device.contains '@' then .error ⟨atRefusal⟩
  else .ok ()

def validateMountArgs (device : Text) (fsType options : Option Text) : Except CommandDenied Unit := do
  checkTypes (typesOf fsType)
  checkHash device fsType
  checkNone device fsType options
  checkAt device fsType options
  validateNetworkMountOptions device fsType (options.getD [])

def mountLine (device mountPoint : Text) (fsType options : Option Text) : Text :=
  (if reachesMountCifs device fsType then mountCifsUnset else []) ++ "mount".toList ++
    fsType.elim [] (fun t => " -t ".toList ++ escape t .posix) ++
    options.elim [] (fun o => " -o ".toList ++ escape o .posix) ++
    " -- " ++ escape device .posix ++ ' ' :: escape mountPoint .posix

def buildMountCommand (device mountPoint : Text) (fsType options : Option Text) :
    Except CommandDenied Text := do
  validateMountArgs device fsType options
  pure (mountLine device mountPoint fsType options)

def itemsFrom (quoted : Bool) (item : Text) : Text → List Text
  | [] => [item]
  | c :: s =>
    if c = '"' then itemsFrom (!quoted) (item ++ [c]) s
    else if c = ',' ∧ quoted = false then item :: itemsFrom false [] s
    else itemsFrom quoted (item ++ [c]) s

def optionItems (options : Option Text) : List Text := options.elim [] (itemsFrom false [])

def Listed (fsType : Option Text) (t : Text) : Prop :=
  t ∈ typesOf fsType ∧ t ≠ "auto" ∧ t ≠ "none"

/-- The helper of a type can run: by its name, by the form of the device, or because the host lists
it in `/etc/filesystems`. -/
def CanRun (filesystems : List Text) (device : Text) (fsType options : Option Text) (t : Text) : Prop :=
  (∀ item ∈ optionItems options, isMove item = false) ∧
    (Listed fsType t ∨
      ((fsType = none ∨ "auto".toList ∈ typesOf fsType) ∧
        (if ':' ∈ device then t = "nfs"
          else if isShare device then t = "cifs"
          else t ∈ filesystems)) ∨
      ("none".toList ∈ typesOf fsType ∧ t ∈ filesystems))

def IsCifs (t : Text) : Prop := t = "cifs" ∨ t = "smb3"

def IsNfs (t : Text) : Prop := t = "nfs" ∨ t = "nfs4"

def IsFuse (t : Text) : Prop := "fuse" <+: t

/-- The option makes the helper of a type use a credential of the host. -/
def LendsIdentity (t opt : Text) : Prop :=
  (IsCifs t ∧ (keyOf opt ∈ cifsCredentialKeys ∨ isKerberos opt = true)) ∨
    (IsNfs t ∧ (isKerberos opt = true ∨ isHostCertificate opt = true)) ∨
    (t = "ceph" ∧ keyOf opt ∈ cephCredentialKeys)

theorem mem_of_checkTypes {types : List Text} (h : checkTypes types = .ok ()) :
    ∀ t ∈ types, t ∈ mountFsTypes := by
  induction types with
  | nil => nofun
  | cons t types ih =>
    rw [checkTypes] at h
    split_ifs at h with ht
    exact forall_mem_cons.mpr ⟨contains_iff_mem.mp ht, ih h⟩

theorem hostSource_of_checkOptions {net : NetworkFs} {opts : List Text}
    (h : checkOptions net opts = .ok ()) : ∀ opt ∈ opts, hostSource net opt = none := by
  induction opts with
  | nil => nofun
  | cons opt opts ih =>
    rw [checkOptions] at h
    split at h
    · cases h
    · next hopt => exact forall_mem_cons.mpr ⟨hopt, ih h⟩

theorem of_ite_error {c : Bool} {e : CommandDenied}
    (h : (if c = true then .error e else .ok () : Except CommandDenied Unit) = .ok ()) : c = false := by
  cases c with
  | false => rfl
  | true => cases h

structure NetworkChecked (net : NetworkFs) (fsType : Option Text) (options : Text) : Prop where
  unquoted : '"' ∉ options
  sources : ∀ opt ∈ options.splitOn ',', hostSource net opt = none
  secret : namesCeph fsType = true → givesSecret (options.splitOn ',') = true

structure Checked (device : Text) (fsType options : Option Text) : Prop where
  types : ∀ t ∈ typesOf fsType, t ∈ mountFsTypes
  hash : autodetects fsType = true → '#' ∉ device
  none : moves options = false → networkForm device = true → "none".toList ∉ typesOf fsType
  at' : moves options = false → autodetects fsType = true → '@' ∉ device
  network : (of device fsType).any = true →
    NetworkChecked (of device fsType) fsType (options.getD [])

theorem networkChecked_of_ok {device : Text} {fsType : Option Text} {options : Text}
    (h : validateNetworkMountOptions device fsType options = .ok ())
    (hany : (of device fsType).any = true) :
    NetworkChecked (of device fsType) fsType options := by
  unfold validateNetworkMountOptions at h
  rw [if_pos hany] at h
  obtain ⟨hquotes, h⟩ := ok_of_bind h
  obtain ⟨hoptions, hceph⟩ := ok_of_bind h
  constructor
  · intro hmem
    have hfree := (Bool.or_eq_false_iff.mp (of_ite_error hquotes)).1
    rw [contains_iff_mem.mpr hmem] at hfree
    cases hfree
  · exact hostSource_of_checkOptions hoptions
  · intro hnames
    unfold checkCeph validateCephSecret at hceph
    rw [if_pos hnames] at hceph
    split_ifs at hceph with hgives
    exact hgives

theorem checked_of_ok {device : Text} {fsType options : Option Text}
    (h : validateMountArgs device fsType options = .ok ()) : Checked device fsType options := by
  obtain ⟨htypes, h⟩ := ok_of_bind h
  obtain ⟨hhash, h⟩ := ok_of_bind h
  obtain ⟨hnone, h⟩ := ok_of_bind h
  obtain ⟨hat, hnetwork⟩ := ok_of_bind h
  constructor
  · exact mem_of_checkTypes htypes
  · intro hauto hmem
    have hfree := of_ite_error hhash
    rw [hauto, contains_iff_mem.mpr hmem] at hfree
    cases hfree
  · intro hmoves hform hmem
    have hfree := of_ite_error hnone
    have hlisted : (typesOf fsType).any (· == "none") = true :=
      any_eq_true.mpr ⟨_, hmem, beq_self_eq_true _⟩
    rw [hmoves, hform, hlisted] at hfree
    cases hfree
  · intro hmoves hauto hmem
    have hfree := of_ite_error hat
    rw [hmoves, hauto, contains_iff_mem.mpr hmem] at hfree
    cases hfree
  · exact networkChecked_of_ok hnetwork

theorem modifyHead_nil_append (l : List Text) : l.modifyHead ([] ++ ·) = l := by
  cases l with
  | nil => rfl
  | cons a l => rfl

theorem itemsFrom_of_unquoted {s : Text} (h : '"' ∉ s) (item : Text) :
    itemsFrom false item s = (s.splitOn ',').modifyHead (item ++ ·) := by
  induction s generalizing item with
  | nil => rw [itemsFrom, splitOn_nil, modifyHead_cons, append_nil]
  | cons c s ih =>
    obtain ⟨hc, hs⟩ := not_or.mp (mt mem_cons.mpr h)
    rw [itemsFrom, if_neg (Ne.symm hc)]
    by_cases hcomma : c = ','
    · subst hcomma
      have hsplit : (',' :: s).splitOn ',' = [] :: s.splitOn ',' :=
        LineLib.splitOn_append_cons ',' [] s
      rw [if_pos ⟨rfl, rfl⟩, ih hs, hsplit, modifyHead_nil_append, modifyHead_cons,
        append_nil]
    · rw [if_neg fun hand => hcomma hand.1, ih hs, LineLib.splitOn_cons_ne hcomma,
        modifyHead_modifyHead]
      congr 1
      funext rest
      rw [Function.comp_apply, append_assoc, singleton_append]

theorem optionItems_of_unquoted {o : Text} (h : '"' ∉ o) : optionItems (some o) = o.splitOn ',' := by
  rw [optionItems, Option.elim_some, itemsFrom_of_unquoted h, modifyHead_nil_append]

theorem mem_split_of_mem_items {options : Option Text} (h : '"' ∉ options.getD []) {opt : Text}
    (hopt : opt ∈ optionItems options) : opt ∈ (options.getD []).splitOn ',' := by
  cases options with
  | none => cases hopt
  | some o => exact optionItems_of_unquoted h ▸ hopt

theorem listed_any {fsType : Option Text} {t : Text} (h : Listed fsType t) {p : Text → Bool}
    (hp : p t = true) : (typesOf fsType).any p = true := any_eq_true.mpr ⟨t, h.1, hp⟩

section
variable {filesystems : List Text} {device : Text} {fsType options : Option Text} {t : Text}

/-- The guard sees no bind or move mount that `mount` does not see. -/
def BindsAgree (options : Option Text) : Prop :=
  moves options = true → ∃ item ∈ optionItems options, isMove item = true

/-- A device of a network form whose type is left to `mount`. The guard drops its rules on `@` and on
`none` for a bind or move mount, so these have to be needless, or `mount` has to see that mount too. -/
def LeftToMount (device : Text) (fsType options : Option Text) : Prop :=
  networkForm device = true ∧
    ("none".toList ∉ typesOf fsType ∧ (':' ∈ device ∨ isShare device = true) ∨ BindsAgree options)

theorem moves_of_canRun (hbinds : BindsAgree options) (h : CanRun filesystems device fsType options t) :
    moves options = false := by
  cases hmoves : moves options with
  | false => rfl
  | true =>
    obtain ⟨item, hitem, hmove⟩ := hbinds hmoves
    cases hmove.symm.trans (h.1 item hitem)

theorem autodetects_auto (h : fsType = none ∨ "auto".toList ∈ typesOf fsType) :
    autodetects fsType = true := by
  rcases h with rfl | hmem
  · rfl
  · exact Bool.or_eq_true_iff.mpr (Or.inr (any_eq_true.mpr ⟨_, hmem, rfl⟩))

theorem autodetects_none (h : "none".toList ∈ typesOf fsType) : autodetects fsType = true :=
  Bool.or_eq_true_iff.mpr (Or.inr (any_eq_true.mpr ⟨_, h, rfl⟩))

theorem found_cases (hchecked : Checked device fsType options)
    (h : CanRun filesystems device fsType options t)
    (hform : Listed fsType t ∨ LeftToMount device fsType options) :
    Listed fsType t ∨
      (autodetects fsType = true ∧ ':' ∈ device ∧ t = "nfs") ∨
      (autodetects fsType = true ∧ isShare device = true ∧ t = "cifs") := by
  rcases hform with hlisted | ⟨hform, hbinds⟩
  · exact Or.inl hlisted
  · rcases h.2 with hlisted | ⟨hauto, hguess⟩ | ⟨hnone, -⟩
    · exact Or.inl hlisted
    · have hdetects := autodetects_auto hauto
      split_ifs at hguess with hcolon hshare
      · exact Or.inr (Or.inl ⟨hdetects, hcolon, hguess⟩)
      · exact Or.inr (Or.inr ⟨hdetects, hshare, hguess⟩)
      · have hat : '@' ∈ device := by
          simpa [networkForm, hshare, hcolon] using hform
        have hagree := hbinds.resolve_left fun hneedless => hneedless.2.elim hcolon hshare
        exact absurd hat (hchecked.at' (moves_of_canRun hagree h) hdetects)
    · have hagree := hbinds.resolve_left fun hneedless => hneedless.1 hnone
      exact absurd hnone (hchecked.none (moves_of_canRun hagree h) hform)

theorem all_of_autodetects (hauto : autodetects fsType = true)
    (hform : isShare device = true ∨ ':' ∈ device) :
    of device fsType = ⟨true, true, true⟩ := by
  have hcond : (autodetects fsType && (isShare device || device.contains ':')) = true := by
    rw [hauto, Bool.true_and, Bool.or_eq_true_iff]
    exact hform.imp id contains_iff_mem.mpr
  rw [of, if_pos hcond]

theorem flags_of_found
    (h : Listed fsType t ∨
      (autodetects fsType = true ∧ ':' ∈ device ∧ t = "nfs") ∨
      (autodetects fsType = true ∧ isShare device = true ∧ t = "cifs")) :
    (IsCifs t → (of device fsType).cifs = true) ∧
      (IsNfs t → (of device fsType).nfs = true) ∧
      (t = "ceph" → (of device fsType).ceph = true) := by
  by_cases hall : of device fsType = ⟨true, true, true⟩
  · rw [hall]
    exact ⟨fun _ => rfl, fun _ => rfl, fun _ => rfl⟩
  · rcases h with hlisted | ⟨hauto, hcolon, -⟩ | ⟨hauto, hshare, -⟩
    · have hflags : of device fsType =
          ⟨(typesOf fsType).any fun t => t == "cifs" || t == "smb3",
            (typesOf fsType).any fun t => t == "nfs" || t == "nfs4",
            namesCeph fsType⟩ := by
        rw [of] at hall ⊢
        split_ifs at hall ⊢
        · exact absurd rfl hall
        · rfl
      rw [hflags]
      refine ⟨?_, ?_, ?_⟩
      · intro hcifs
        apply listed_any hlisted
        rcases hcifs with rfl | rfl <;> rfl
      · intro hnfs
        apply listed_any hlisted
        rcases hnfs with rfl | rfl <;> rfl
      · rintro rfl
        exact listed_any hlisted rfl
    · exact absurd (all_of_autodetects hauto (Or.inr hcolon)) hall
    · exact absurd (all_of_autodetects hauto (Or.inl hshare)) hall

theorem not_lends_of_hostSource {net : NetworkFs} {opt : Text} (h : hostSource net opt = none)
    (hcifs : IsCifs t → net.cifs = true) (hnfs : IsNfs t → net.nfs = true)
    (hceph : t = "ceph" → net.ceph = true) : ¬ LendsIdentity t opt := by
  unfold hostSource at h
  split_ifs at h with hkeys hcephKeys hsec hcertificate
  rintro (⟨hc, hkey | hkerberos⟩ | ⟨hn, hkerberos | hmtls⟩ | ⟨hc, hkey⟩)
  · exact hkeys (Bool.and_eq_true_iff.mpr ⟨hcifs hc, contains_iff_mem.mpr hkey⟩)
  · exact hsec (Bool.and_eq_true_iff.mpr ⟨Bool.or_eq_true_iff.mpr (Or.inl (hcifs hc)), hkerberos⟩)
  · exact hsec (Bool.and_eq_true_iff.mpr ⟨Bool.or_eq_true_iff.mpr (Or.inr (hnfs hn)), hkerberos⟩)
  · exact hcertificate (Bool.and_eq_true_iff.mpr ⟨hnfs hn, hmtls⟩)
  · exact hcephKeys (Bool.and_eq_true_iff.mpr ⟨hceph hc, contains_iff_mem.mpr hkey⟩)

theorem not_fuse_of_allowed (h : t ∈ mountFsTypes) : ¬ IsFuse t := by
  have hall : mountFsTypes.all (fun t => !"fuse".toList.isPrefixOf t) = true := rfl
  intro hfuse
  have ht := all_eq_true.mp hall t h
  rw [List.isPrefixOf_iff_prefix.mpr hfuse] at ht
  cases ht

section
variable (hchecked : Checked device fsType options)
include hchecked

theorem hash_of_fuse
    (h : CanRun filesystems device fsType options t) (hfuse : IsFuse t) : '#' ∉ device := by
  rcases h.2 with hlisted | ⟨hauto, -⟩ | ⟨hnone, -⟩
  · exact absurd hfuse (not_fuse_of_allowed (hchecked.types t hlisted.1))
  · exact hchecked.hash (autodetects_auto hauto)
  · exact hchecked.hash (autodetects_none hnone)

theorem lends_nothing (h : CanRun filesystems device fsType options t)
    (hform : Listed fsType t ∨ LeftToMount device fsType options) {opt : Text}
    (hopt : opt ∈ optionItems options) : ¬ LendsIdentity t opt := by
  obtain ⟨hcifs, hnfs, hceph⟩ := flags_of_found (found_cases hchecked h hform)
  intro hlends
  have hany : (of device fsType).any = true := by
    rcases hlends with ⟨hc, -⟩ | ⟨hn, -⟩ | ⟨hc, -⟩
    · rw [NetworkFs.any, hcifs hc]
      rfl
    · rw [NetworkFs.any, hnfs hn, Bool.or_true]
      rfl
    · rw [NetworkFs.any, hceph hc, Bool.or_true]
  have hnetwork := hchecked.network hany
  have hsource := hnetwork.sources opt (mem_split_of_mem_items hnetwork.unquoted hopt)
  exact not_lends_of_hostSource hsource hcifs hnfs hceph hlends

theorem secret_of_ceph (h : CanRun filesystems device fsType options "ceph")
    (hform : Listed fsType "ceph" ∨ LeftToMount device fsType options) :
    Listed fsType "ceph" ∧ givesSecret (optionItems options) = true := by
  have hfound := found_cases hchecked h hform
  have hlisted : Listed fsType "ceph" := by
    rcases hfound with hlisted | ⟨-, -, hnfs⟩ | ⟨-, -, hcifs⟩
    · exact hlisted
    · exact absurd hnfs (by decide)
    · exact absurd hcifs (by decide)
  have hnames : namesCeph fsType = true := listed_any hlisted rfl
  have hany : (of device fsType).any = true := by
    rw [NetworkFs.any, (flags_of_found hfound).2.2 rfl, Bool.or_true]
  have hnetwork := hchecked.network hany
  have hgives := hnetwork.secret hnames
  refine ⟨hlisted, ?_⟩
  cases options with
  | none => cases hgives
  | some o => exact optionItems_of_unquoted hnetwork.unquoted ▸ hgives

theorem reachesMountCifs_of_canRun
    (h : CanRun filesystems device fsType options t)
    (hform : Listed fsType t ∨ LeftToMount device fsType options) (hcifs : IsCifs t) :
    reachesMountCifs device fsType = true := by
  apply Bool.or_eq_true_iff.mpr
  rcases found_cases hchecked h hform with hlisted | ⟨-, -, rfl⟩ | ⟨hauto, hshare, -⟩
  · left
    apply listed_any hlisted
    rcases hcifs with rfl | rfl <;> rfl
  · rcases hcifs with heq | heq
    · exact absurd heq (by decide)
    · exact absurd heq (by decide)
  · right
    rw [hauto, hshare]
    rfl

end

end

section
variable (device mountPoint : Text) (fsType options : Option Text)

def mountPieces : List Piece :=
  [.bare "mount"] ++ fsType.elim [] (fun t => [.bare "-t", .quoted t]) ++
    options.elim [] (fun o => [.bare "-o", .quoted o]) ++
    [.bare "--", .quoted device, .quoted mountPoint]

def mountWords : List Word :=
  [bareWord "mount"] ++ fsType.elim [] (fun t => [bareWord "-t", quotedWord t]) ++
    options.elim [] (fun o => [bareWord "-o", quotedWord o]) ++
    [bareWord "--", quotedWord device, quotedWord mountPoint]

def mountArgv : List Text :=
  ["mount".toList] ++ fsType.elim [] (fun t => ["-t".toList, t]) ++
    options.elim [] (fun o => ["-o".toList, o]) ++ ["--".toList, device, mountPoint]

def unsetPieces : List Piece := ("unset".toList :: unsetVariables).map .bare ++ [.opTwice '&']

def unsetArgv : List Text := "unset" :: unsetVariables

def linePieces : List Piece :=
  (if reachesMountCifs device fsType then unsetPieces else []) ++
    mountPieces device mountPoint fsType options

def lineCommands : List (Joint × Simple) :=
  (if reachesMountCifs device fsType then
      [(.andIf, ⟨("unset".toList :: unsetVariables).map bareWord, []⟩)] else []) ++
    [(.andIf, ⟨mountWords device mountPoint fsType options, []⟩)]

def lineArgvs : List (List Text) :=
  (if reachesMountCifs device fsType then [unsetArgv] else []) ++
    [mountArgv device mountPoint fsType options]

theorem lineOf_unset (rest : Text) :
    lineOf unsetPieces ++ ' ' :: rest = ' ' :: (mountCifsUnset ++ rest) := by
  simp only [unsetPieces, unsetVariables, lineOf, map_cons, map_nil, flatMap_append,
    flatMap_cons, flatMap_nil, Piece.bare, Piece.text, Part.text, append_nil]
  delta mountCifsUnset
  repeat rw [String.toList_ofList]
  simp only [cons_append, nil_append]

theorem lineOf_mountPieces :
    lineOf (mountPieces device mountPoint fsType options) =
      ' ' :: ("mount".toList ++ fsType.elim [] (fun t => " -t ".toList ++ escape t .posix) ++
        options.elim [] (fun o => " -o ".toList ++ escape o .posix) ++
        " -- ".toList ++ escape device .posix ++ ' ' :: escape mountPoint .posix) := by
  cases fsType <;> cases options
  all_goals
    simp only [mountPieces, lineOf, Option.elim_none, Option.elim_some, flatMap_append,
      flatMap_cons, flatMap_nil, Piece.bare, Piece.quoted, Piece.text, Part.text,
      append_nil]
    repeat rw [String.toList_ofList]
    simp only [cons_append, nil_append, append_assoc]

theorem lineOf_mount :
    ' ' :: mountLine device mountPoint fsType options =
      lineOf (linePieces device mountPoint fsType options) := by
  unfold mountLine linePieces
  cases reachesMountCifs device fsType with
  | false =>
    rw [if_neg Bool.false_ne_true, if_neg Bool.false_ne_true, nil_append, nil_append,
      lineOf_mountPieces]
  | true =>
    have happend : ∀ a b, lineOf (a ++ b) = lineOf a ++ lineOf b := fun a b => flatMap_append
    rw [if_pos rfl, if_pos rfl, happend, lineOf_mountPieces, lineOf_unset]
    simp only [append_assoc]

theorem wellFormed_mount :
    (linePieces device mountPoint fsType options).all Piece.wellFormed = true := by
  unfold linePieces
  cases reachesMountCifs device fsType <;> cases fsType <;> cases options <;> rfl

theorem parse_mount :
    parse ((linePieces device mountPoint fsType options).flatMap Piece.tokens) =
      some (lineCommands device mountPoint fsType options) := by
  unfold linePieces lineCommands
  cases reachesMountCifs device fsType <;> cases fsType <;> cases options <;> rfl

variable (home : Text) (value : Text → Text) (capture : Text → Text × Bool)

theorem expandWords_mount :
    expandWords home value capture (mountWords device mountPoint fsType options) =
      some (mountArgv device mountPoint fsType options) := by
  have hlast : expandWords home value capture [bareWord "--", quotedWord device,
      quotedWord mountPoint] = some ["--".toList, device, mountPoint] :=
    expandWords_cons (expandWord_bareWord _) (expandWords_cons (expandWord_quotedWord _)
      (expandWords_cons (expandWord_quotedWord _) expandWords_nil))
  have hflag : ∀ flag argument words texts, expandWords home value capture words = some texts →
      expandWords home value capture (bareWord flag :: quotedWord argument :: words) =
        some (flag :: argument :: texts) := by
    intro flag argument words texts hwords
    exact expandWords_cons (expandWord_bareWord _) (expandWords_cons (expandWord_quotedWord _) hwords)
  apply expandWords_cons (expandWord_bareWord _)
  cases fsType with
  | none =>
    cases options with
    | none => exact hlast
    | some o => exact hflag _ o _ _ hlast
  | some t =>
    cases options with
    | none => exact hflag _ t _ _ hlast
    | some o => exact hflag _ t _ _ (hflag _ o _ _ hlast)

theorem expandWords_bare (texts : List Text) :
    expandWords home value capture (texts.map bareWord) = some texts := by
  induction texts with
  | nil => rfl
  | cons text texts ih => exact expandWords_cons (expandWord_bareWord text) ih

theorem run_mount (status : List Text → Bool) :
    ∃ ok, runLine (tracing home value capture status) (mountLine device mountPoint fsType options) [] =
      some (ok, untilFailure status (lineArgvs device mountPoint fsType options)) := by
  have hmount : Expands home value capture (.andIf, ⟨mountWords device mountPoint fsType options, []⟩)
      (mountArgv device mountPoint fsType options) :=
    ⟨rfl, rfl, expandWords_mount .., _, expandTargets_nil⟩
  have hcommands : List.Forall₂ (Expands home value capture)
      (lineCommands device mountPoint fsType options) (lineArgvs device mountPoint fsType options) := by
    unfold lineCommands lineArgvs
    cases reachesMountCifs device fsType with
    | false => exact .cons hmount .nil
    | true => exact .cons ⟨rfl, rfl, expandWords_bare .., _, expandTargets_nil⟩ (.cons hmount .nil)
  rw [runLine_of_pieces (lineOf_mount ..) (wellFormed_mount ..) (parse_mount ..)]
  exact runCommands_trace value status hcommands []

end

/-- For an accepted mount: no FUSE helper gets a device with `#`; a network helper that is listed, or
found for a device of a network form, gets no option that lends the host's identity; a device with `@`
reaches `mount.ceph` only by name and with one usable secret; and where `mount.cifs` is such a helper,
its variables were unset before. -/
theorem accepted_mount (filesystems : List Text) (device mountPoint : Text)
    (fsType options : Option Text) (line : Text)
    (h : buildMountCommand device mountPoint fsType options = .ok line) :
    (∀ t, CanRun filesystems device fsType options t → IsFuse t → '#' ∉ device) ∧
    (∀ t, CanRun filesystems device fsType options t →
      Listed fsType t ∨ LeftToMount device fsType options →
      ∀ opt ∈ optionItems options, ¬ LendsIdentity t opt) ∧
    ('@' ∈ device → CanRun filesystems device fsType options "ceph".toList →
      Listed fsType "ceph".toList ∨ LeftToMount device fsType options →
      Listed fsType "ceph".toList ∧ givesSecret (optionItems options) = true) ∧
    (∀ t, IsCifs t → CanRun filesystems device fsType options t →
      Listed fsType t ∨ LeftToMount device fsType options →
      ∀ home value capture status, ∃ ok,
        runLine (tracing home value capture status) line [] =
          some (ok, untilFailure status [unsetArgv, mountArgv device mountPoint fsType options])) := by
  obtain ⟨hvalid, hline⟩ := ok_of_bind h
  obtain rfl := Except.ok.inj hline
  have hchecked := checked_of_ok hvalid
  refine ⟨?_, ?_, ?_, ?_⟩
  · intro t hrun hfuse
    exact hash_of_fuse hchecked hrun hfuse
  · intro t hrun hform opt hopt
    exact lends_nothing hchecked hrun hform hopt
  · intro _ hrun hform
    exact secret_of_ceph hchecked hrun hform
  · intro t hcifs hrun hform home value capture status
    have hreaches := reachesMountCifs_of_canRun hchecked hrun hform hcifs
    obtain ⟨ok, hok⟩ := run_mount device mountPoint fsType options home value capture status
    refine ⟨ok, hok.trans ?_⟩
    rw [lineArgvs, if_pos hreaches]
    rfl

theorem accepted_mount_share :
    CanRun [] "//srv/a" none (some "ro") "cifs" ∧
      ∃ line, buildMountCommand "//srv/a" "/mnt" none (some "ro") = .ok line ∧
        ∃ ok, runLine (tracing [] (fun _ => []) (fun _ => ([], true)) (fun _ => true)) line [] =
          some (ok, [unsetArgv,
            mountArgv "//srv/a".toList "/mnt".toList none (some "ro".toList)]) := by
  have hrun : CanRun [] "//srv/a" none (some "ro") "cifs" :=
    ⟨by decide, Or.inr (Or.inl ⟨Or.inl rfl, rfl⟩)⟩
  have hbuilt : buildMountCommand "//srv/a" "/mnt" none (some "ro") =
      .ok (mountLine "//srv/a".toList "/mnt".toList none (some "ro".toList)) := rfl
  obtain ⟨-, -, -, hunset⟩ := accepted_mount [] _ _ _ _ _ hbuilt
  exact ⟨hrun, _, hbuilt, hunset _ (Or.inl rfl) hrun (Or.inr ⟨rfl, Or.inr nofun⟩) _ _ _ _⟩

/-- On a host whose `/etc/filesystems` lists the type: a plain device is left to `mount` with any
option, and a blank before `bind` lets the guard see a bind mount where `mount` sees none. -/
theorem plain_device_unchecked :
    (∃ line, buildMountCommand "/dev/sdb1" "/mnt" none (some "cred=/c") =
        .ok line ∧
      CanRun ["cifs"] "/dev/sdb1" none (some "cred=/c") "cifs" ∧
      "cred=/c".toList ∈ optionItems (some "cred=/c".toList) ∧
      LendsIdentity "cifs" "cred=/c") ∧
    ∃ line, buildMountCommand "a@b.c=/" "/mnt" none (some " bind") = .ok line ∧
      CanRun ["ceph"] "a@b.c=/" none (some " bind") "ceph" ∧
      ¬ Listed none "ceph" := by
  refine ⟨⟨_, rfl, ⟨by decide, ?_⟩, ?_, ?_⟩, _, rfl, ⟨by decide, ?_⟩, nofun⟩
  · exact Or.inr (Or.inl ⟨Or.inl rfl, mem_singleton_self _⟩)
  · exact mem_singleton_self _
  · exact Or.inl ⟨Or.inl rfl, Or.inl (mem_cons_of_mem _ mem_cons_self)⟩
  · exact Or.inr (Or.inl ⟨Or.inl rfl, mem_singleton_self _⟩)

end BridgeMcp.Storage
