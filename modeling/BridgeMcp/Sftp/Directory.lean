import BridgeMcp.Lib.OsPath
import BridgeMcp.Lib.TextScan
import BridgeMcp.Lib.Transition
import BridgeMcp.Sftp.Transfer

/-!
The walk of a directory download (`ssh/sftp.rs`). The server names the entries of every listing; the
walk joins each name to a local directory and creates a directory or opens a file there.
-/
namespace BridgeMcp.Sftp
open TextLib OsPath TransitionLib List

def isControl (c : Char) : Bool := c.toNat < 0x20 || (0x7F ≤ c.toNat && c.toNat ≤ 0x9F)

def safeLocalJoin (rules : Rules) (localDir name : Text) : Option Text :=
  if (trim name).isEmpty || name = ['.'] || name = ['.', '.'] || name.contains '/' ||
      name.contains '\\' || name.any isControl then none
  else some (push rules localDir name)

/-- Why an entry was not made, and whether the local file was open by then. -/
structure Failure where
  reason : Text
  opened : Bool

/-- An entry as the server sends it, and what comes of it if it is accepted: the directory is created
or not, the file arrives with so many bytes or not. -/
structure Listed where
  name : Text
  isDir : Bool
  outcome : Except Failure ℕ

def Listed.touches (listed : Listed) : Bool :=
  match listed.outcome with
  | .ok _ => true
  | .error failure => !listed.isDir && failure.opened

structure RemoteDirEntry where
  name : Text
  path : Text
  isDir : Bool

def Listed.entry (remoteDir : Text) (listed : Listed) : RemoteDirEntry :=
  ⟨listed.name, remoteDir ++ '/' :: listed.name, listed.isDir⟩

/-- The variables of the loop. `touched` are the paths it created as directories or opened for
writing, the latest first; the stack has its top first. -/
structure Download where
  stack : List (Text × Text)
  touched : List Text
  filesTransferred : ℕ
  bytesTransferred : ℕ
  directoriesCreated : ℕ
  errors : List Text

open Download

/-- Up to the loop. `create_dir_all` makes the ancestors of the target too, where they are missing. -/
def Download.begin (remotePath localPath : Text) (created : Except Text Unit) :
    Except SftpError Download := do
  validateRemotePath remotePath
  match created with
  | .error reason => .error (.fileTransfer reason)
  | .ok _ => .ok ⟨[(remotePath, localPath)], [localPath], 0, 0, 1, []⟩

section
variable (rules : Rules) (exclude : List Text) (debug : Text → Text)

def excluded (entry : RemoteDirEntry) : Bool := exclude.any fun pat => contains entry.path pat

/-- The body of the inner loop. `debug` is how Rust prints a name for debugging. -/
def Download.take (remoteDir localDir : Text) (st : Download) (listed : Listed) : Download :=
  let entry := listed.entry remoteDir
  if excluded exclude entry then st
  else match safeLocalJoin rules localDir entry.name with
    | none =>
      { st with errors := st.errors ++
        ["Refused directory entry with an unsafe name from " ++ remoteDir ++ ": " ++
          debug entry.name ++ " (a listing entry must be a single path component)"] }
    | some localEntryPath =>
      if entry.isDir then
        match listed.outcome with
        | .error failure => { st with errors := st.errors ++ [failure.reason] }
        | .ok _ =>
          { st with
            touched := localEntryPath :: st.touched
            directoriesCreated := saturate (st.directoriesCreated + 1)
            stack := (entry.path, localEntryPath) :: st.stack }
      else
        match listed.outcome with
        | .error failure =>
          { st with
            touched := if failure.opened then localEntryPath :: st.touched else st.touched
            errors := st.errors ++
              ["Failed to download " ++ entry.path ++ ": " ++ failure.reason] }
        | .ok bytes =>
          { st with
            touched := localEntryPath :: st.touched
            filesTransferred := saturate (st.filesTransferred + 1)
            bytesTransferred := saturate (st.bytesTransferred + bytes) }

/-- One pass of the outer loop: the directory on top of the stack, with the listing the server gives
for it now. There is no next state after the last directory or after a listing that fails. -/
def Download.step (st : Download) (listing : Except Text (List Listed)) : Option Download :=
  match st.stack, listing with
  | (remoteDir, localDir) :: stack, .ok entries =>
    if (validateRemotePath remoteDir).isOk then
      some (entries.foldl (take rules exclude debug remoteDir localDir)
        { st with stack })
    else none
  | _, _ => none

def taken (remoteDir : Text) (listed : Listed) : Bool :=
  !excluded exclude (listed.entry remoteDir) && (safeLocalJoin rules [] listed.name).isSome &&
    listed.touches

end

section
variable {rules : Rules} {exclude : List Text} {debug : Text → Text}

theorem safeLocalJoin_eq_some {localDir name path : Text} :
    safeLocalJoin rules localDir name = some path ↔
      (safeLocalJoin rules [] name).isSome = true ∧ path = push rules localDir name := by
  rw [safeLocalJoin, safeLocalJoin]
  split_ifs
  · simp
  · simp [eq_comm]

theorem accepted_name {name : Text} (h : (safeLocalJoin rules [] name).isSome = true) :
    Unseparated rules name ∧ name ≠ [] ∧ name ≠ ['.'] ∧ name ≠ ['.', '.'] := by
  rw [safeLocalJoin] at h
  split_ifs at h with hrefused
  · cases h
  · simp only [Bool.or_eq_true, not_or, decide_eq_true_eq, contains_eq_mem] at hrefused
    obtain ⟨⟨⟨⟨⟨hblank, hdot⟩, hdots⟩, hslash⟩, hbackslash⟩, -⟩ := hrefused
    refine ⟨?_, ?_, hdot, hdots⟩
    · intro c hc
      have hne : c ≠ '/' ∧ c ≠ '\\' := by
        constructor <;> rintro rfl <;> contradiction
      cases rules with
      | unix => simp [isSeparator, hne.1]
      | windows => simp [isSeparator, hne.1, hne.2]
    · rintro rfl
      exact hblank rfl

/-- A name that cannot lead out of the target. Under Windows rules, a name that carries a drive
replaces the local directory it is joined to. -/
def Harmless (rules : Rules) (target name : Text) : Prop :=
  match rules with
  | .unix => True
  | .windows => (parseDrive name).isSome = true → Restarts target name

theorem inside_push_iff {target localDir name : Text} (hdir : Inside rules target localDir)
    (h : (safeLocalJoin rules [] name).isSome = true) :
    Inside rules target (push rules localDir name) ↔ Harmless rules target name := by
  obtain ⟨hsep, hne, hdot, hdots⟩ := accepted_name h
  have hplain : parseStart rules name = none → Inside rules target (push rules localDir name) := by
    intro hstart
    have hname := hsep.ordinary hstart hne hdot hdots
    rw [push_eq_extend hsep hname]
    exact hdir.extend hname
  have hstart := hsep.parseStart_eq
  cases rules with
  | unix => exact iff_of_true (hplain hstart) trivial
  | windows =>
    rw [if_pos rfl] at hstart
    cases hdrive : parseDrive name with
    | none =>
      rw [hdrive] at hstart
      apply iff_of_true (hplain hstart)
      intro hsome
      rw [hdrive] at hsome
      cases hsome
    | some letter =>
      have hsome : (parseStart .windows name).isSome = true := by rw [hstart, hdrive]; rfl
      rw [push_of_start hsome, inside_iff_restarts hsep hsome, Harmless, hdrive]
      exact ⟨fun h _ => h, fun h => h rfl⟩

section Take
variable {remoteDir : Text} {listed : Listed}

theorem taken_iff : taken rules exclude remoteDir listed = true ↔
    excluded exclude (listed.entry remoteDir) = false ∧
      (safeLocalJoin rules [] listed.name).isSome = true ∧ listed.touches = true := by
  rw [taken, Bool.and_eq_true, Bool.and_eq_true, Bool.not_eq_true', and_assoc]

theorem take_of_not_taken (debug : Text → Text) (localDir : Text) (st : Download)
    (h : taken rules exclude remoteDir listed = false) :
    (st.take rules exclude debug remoteDir localDir listed).touched = st.touched ∧
      (st.take rules exclude debug remoteDir localDir listed).stack = st.stack := by
  rw [Download.take]
  by_cases hexcluded : excluded exclude (listed.entry remoteDir) = true
  · rw [if_pos hexcluded]
    exact ⟨rfl, rfl⟩
  · rw [if_neg hexcluded]
    cases hjoin : safeLocalJoin rules localDir (listed.entry remoteDir).name with
    | none => exact ⟨rfl, rfl⟩
    | some path =>
      have huntouched : ¬ listed.touches = true := fun htouches =>
        Bool.false_ne_true (h.symm.trans (taken_iff.mpr
          ⟨Bool.eq_false_iff.mpr hexcluded, (safeLocalJoin_eq_some.mp hjoin).1, htouches⟩))
      obtain ⟨name, isDir, _ | bytes⟩ := listed
      · cases isDir with
        | true => exact ⟨rfl, rfl⟩
        | false => exact ⟨if_neg huntouched, rfl⟩
      · exact absurd rfl huntouched

theorem take_of_taken (debug : Text → Text) (localDir : Text) (st : Download)
    (h : taken rules exclude remoteDir listed = true) :
    (st.take rules exclude debug remoteDir localDir listed).touched =
        push rules localDir listed.name :: st.touched ∧
      ∀ dir ∈ (st.take rules exclude debug remoteDir localDir listed).stack,
        dir ∈ st.stack ∨ dir.2 = push rules localDir listed.name := by
  obtain ⟨hexcluded, haccepted, htouches⟩ := taken_iff.mp h
  have hjoin : safeLocalJoin rules localDir (listed.entry remoteDir).name =
      some (push rules localDir listed.name) := safeLocalJoin_eq_some.mpr ⟨haccepted, rfl⟩
  rw [Download.take, hexcluded, if_neg Bool.false_ne_true, hjoin]
  obtain ⟨name, isDir, failure | bytes⟩ := listed
  · cases isDir with
    | true => cases htouches
    | false => exact ⟨if_pos htouches, fun dir hdir => .inl hdir⟩
  · cases isDir with
    | true =>
      refine ⟨rfl, fun dir hdir => ?_⟩
      cases mem_cons.mp hdir with
      | inl heq => exact .inr (by rw [heq])
      | inr hmem => exact .inl hmem
    | false => exact ⟨rfl, fun dir hdir => .inl hdir⟩

end Take

/-- Everything touched and everything still to be listed is inside the target. -/
structure Kept (rules : Rules) (target : Text) (st : Download) : Prop where
  stack : ∀ dir ∈ st.stack, Inside rules target dir.2
  touched : ∀ path ∈ st.touched, Inside rules target path

section Fold
variable {target remoteDir localDir : Text}

theorem Kept.take {st : Download} (h : Kept rules target st) (hdir : Inside rules target localDir)
    {listed : Listed}
    (hname : taken rules exclude remoteDir listed = true → Harmless rules target listed.name) :
    Kept rules target (st.take rules exclude debug remoteDir localDir listed) := by
  by_cases htaken : taken rules exclude remoteDir listed = true
  · obtain ⟨htouched, hstack⟩ := take_of_taken debug localDir st htaken
    have hinside : Inside rules target (push rules localDir listed.name) :=
      (inside_push_iff hdir (taken_iff.mp htaken).2.1).mpr (hname htaken)
    constructor
    · intro dir hmem
      cases hstack dir hmem with
      | inl hold => exact h.stack dir hold
      | inr hnew => exact hnew ▸ hinside
    · rw [htouched]
      exact forall_mem_cons.mpr ⟨hinside, h.touched⟩
  · obtain ⟨htouched, hstack⟩ :=
      take_of_not_taken debug localDir st (Bool.eq_false_iff.mpr htaken)
    exact ⟨hstack ▸ h.stack, htouched ▸ h.touched⟩

theorem Kept.foldl {st : Download} (h : Kept rules target st) (hdir : Inside rules target localDir)
    {entries : List Listed} (hnames : ∀ listed ∈ entries,
      taken rules exclude remoteDir listed = true → Harmless rules target listed.name) :
    Kept rules target (entries.foldl (Download.take rules exclude debug remoteDir localDir) st) := by
  induction entries generalizing st with
  | nil => exact h
  | cons listed entries ih =>
    obtain ⟨hhead, htail⟩ := forall_mem_cons.mp hnames
    exact ih (h.take hdir hhead) htail

theorem touched_subset_take (st : Download) (listed : Listed) :
    st.touched ⊆ (st.take rules exclude debug remoteDir localDir listed).touched := by
  by_cases htaken : taken rules exclude remoteDir listed = true
  · rw [(take_of_taken _ _ _ htaken).1]
    exact subset_cons_self _ _
  · rw [(take_of_not_taken _ _ _ (Bool.eq_false_iff.mpr htaken)).1]
    exact List.Subset.refl _

theorem touched_subset_foldl (st : Download) (entries : List Listed) : st.touched ⊆
    (entries.foldl (take rules exclude debug remoteDir localDir) st).touched := by
  induction entries generalizing st with
  | nil => exact List.Subset.refl _
  | cons listed entries ih => exact List.Subset.trans (touched_subset_take st listed) (ih _)

theorem push_mem_foldl {listed : Listed} {entries : List Listed} (hlisted : listed ∈ entries)
    (htaken : taken rules exclude remoteDir listed = true) (st : Download) :
    push rules localDir listed.name ∈
      (entries.foldl (take rules exclude debug remoteDir localDir) st).touched := by
  induction entries generalizing st with
  | nil => cases hlisted
  | cons first entries ih =>
    cases mem_cons.mp hlisted with
    | inr hrest => exact ih hrest _
    | inl heq =>
      apply touched_subset_foldl _ entries
      rw [← heq, (take_of_taken _ _ _ htaken).1]
      exact mem_cons_self

end Fold

def Meets (rules : Rules) (exclude : List Text) (target : Text) (st : Download) :
    Except Text (List Listed) → Prop
  | .error _ => True
  | .ok entries => ∀ dir ∈ st.stack.head?, ∀ listed ∈ entries,
      taken rules exclude dir.1 listed = true → Harmless rules target listed.name

theorem step_eq_some {st st' : Download} {listing : Except Text (List Listed)}
    (h : st.step rules exclude debug listing = some st') :
    ∃ dir stack entries, st.stack = dir :: stack ∧ listing = .ok entries ∧
      st' = entries.foldl (take rules exclude debug dir.1 dir.2) { st with stack } := by
  unfold step at h
  split at h
  · rename_i remoteDir localDir stack entries hstack
    split_ifs at h
    cases h
    exact ⟨(remoteDir, localDir), stack, entries, hstack, rfl, rfl⟩
  · cases h

section Step
variable {target : Text} {st st' : Download} {listing : Except Text (List Listed)}

theorem Kept.step (h : Kept rules target st) (hmeets : Meets rules exclude target st listing)
    (hstep : st.step rules exclude debug listing = some st') : Kept rules target st' := by
  obtain ⟨dir, stack, entries, hstack, rfl, rfl⟩ := step_eq_some hstep
  have hdirs := hstack ▸ h.stack
  apply Kept.foldl
  · exact ⟨fun dir hdir => hdirs dir (mem_cons_of_mem _ hdir), h.touched⟩
  · exact hdirs dir mem_cons_self
  · exact hmeets dir (by rw [hstack]; rfl)

theorem meets_of_touched (h : Kept rules target st)
    (hstep : st.step rules exclude debug listing = some st')
    (hinside : ∀ path ∈ st'.touched, Inside rules target path) :
    Meets rules exclude target st listing := by
  obtain ⟨dir, stack, entries, hstack, rfl, rfl⟩ := step_eq_some hstep
  intro dir' hdir' listed hlisted htaken
  have heq : dir = dir' := by
    rw [hstack] at hdir'
    exact Option.some.inj hdir'
  rw [← heq] at htaken
  have hdir : Inside rules target dir.2 := h.stack dir (hstack ▸ mem_cons_self)
  exact (inside_push_iff hdir (taken_iff.mp htaken).2.1).mp
    (hinside _ (push_mem_foldl hlisted htaken _))

end Step

theorem kept_begin {remotePath target : Text} {created : Except Text Unit} {st : Download}
    (h : begin remotePath target created = .ok st) : Kept rules target st := by
  unfold begin at h
  cases hvalid : validateRemotePath remotePath with
  | error e =>
    rw [hvalid] at h
    cases h
  | ok _ =>
    rw [hvalid] at h
    cases created with
    | error reason => cases h
    | ok _ =>
      cases h
      constructor
      · intro dir hdir
        rw [mem_singleton.mp hdir]
        exact .refl
      · intro path hpath
        rw [mem_singleton.mp hpath]
        exact .refl

theorem meets_unix (exclude : List Text) (target : Text) (st : Download)
    (listing : Except Text (List Listed)) : Meets .unix exclude target st listing := by
  cases listing with
  | error e => trivial
  | ok entries => exact fun _ _ _ _ _ => trivial

/-- A download writes inside its target as long as every name it joins is harmless, and no longer.
Where the target starts with no more than a drive, the components of the paths say so too. Under
Unix rules all names are harmless and all targets are such. -/
theorem download_stays_inside (target : Text) (exclude : List Text) (debug : Text → Text) :
    (∀ rules remotePath created start st,
      begin remotePath target created = .ok start →
      Reaches (step rules exclude debug) (Meets rules exclude target) start st →
        ∀ path ∈ st.touched, Inside rules target path ∧
          (PlainStart rules target → ∃ names : List Text,
            components rules path = components rules target ++ names.map .normal)) ∧
    (∀ rules st listing st', Kept rules target st →
      st.step rules exclude debug listing = some st' →
        ((∀ path ∈ st'.touched, Inside rules target path) ↔
          Meets rules exclude target st listing)) ∧
    PlainStart .unix target ∧ ∀ st listing, Meets .unix exclude target st listing := by
  refine ⟨?_, ?_, plainStart_unix target, meets_unix exclude target⟩
  · intro rules remotePath created start st hbegin hreaches path hpath
    have hkept : Kept rules target st :=
      hreaches.invariant (kept_begin hbegin) fun _ _ _ hkept hmeets => hkept.step hmeets
    have hinside := hkept.touched path hpath
    refine ⟨hinside, fun hplain => ?_⟩
    obtain ⟨names, hnames, rfl⟩ := hinside
    exact ⟨names, hplain.components_inside hnames⟩
  · intro rules st listing st' hkept hstep
    exact ⟨meets_of_touched hkept hstep, fun hmeets => (hkept.step hmeets hstep).touched⟩

end

section Runs

def quoted (name : Text) : Text := '"' :: name ++ ['"']

def onDrive : Download := ⟨[("/srv", "C:\\in")], ["C:\\in"], 0, 0, 1, []⟩

theorem download_stays_inside_drive :
    begin "/srv".toList "C:\\in".toList (.ok ()) = .ok onDrive ∧
    ∃ st : Download, Reaches (step .windows [] quoted) (Meets .windows [] "C:\\in".toList)
        onDrive st ∧
      st.touched = ["C:\\in\\d\\f".toList, "C:\\in\\d".toList, "C:\\in".toList] ∧
      st.errors.length = 1 ∧ ∀ path ∈ st.touched, ∃ names : List Text,
        components .windows path = components .windows "C:\\in".toList ++ names.map .normal := by
  have hnames : ∀ dir name isDir outcome, (parseDrive name).isSome = false →
      taken .windows [] dir ⟨name, isDir, outcome⟩ = true →
        Harmless .windows "C:\\in".toList name := by
    intro dir name isDir outcome hdrive _ hsome
    rw [hdrive] at hsome
    cases hsome
  have hfirst : Reaches (step .windows [] quoted) (Meets .windows [] "C:\\in".toList)
      onDrive _ := Reaches.refl.tail
    (show Meets _ _ _ _ (.ok [⟨"d".toList, true, .ok 0⟩]) from
      fun dir _ => forall_mem_singleton.mpr (hnames dir.1 _ _ _ rfl)) rfl
  have hsecond := hfirst.tail
    (show Meets _ _ _ _ (.ok [⟨"..".toList, true, .ok 0⟩, ⟨"f".toList, false, .ok 1⟩]) from
      fun dir _ => forall_mem_cons.mpr ⟨hnames dir.1 _ _ _ rfl,
        forall_mem_singleton.mpr (hnames dir.1 _ _ _ rfl)⟩) rfl
  have hinside := (download_stays_inside "C:\\in".toList [] quoted).1 .windows "/srv".toList (.ok ())
    onDrive _ rfl hsecond
  exact ⟨rfl, _, hsecond, rfl, rfl, fun path hpath =>
    (hinside path hpath).2 (plainStart_drive rfl _)⟩

/-- A server that answers with an entry `D:evil` has it written there. -/
theorem drive_leads_out :
    begin "/srv".toList "C:\\in".toList (.ok ()) = .ok onDrive ∧
    ∃ st : Download, Reaches (step .windows [] quoted) (fun _ _ => True) onDrive st ∧
      st.touched = ["D:evil".toList, "C:\\in".toList] ∧
      ¬ Inside .windows "C:\\in".toList "D:evil".toList := by
  have hstep : onDrive.step .windows [] quoted (.ok [⟨"D:evil".toList, false, .ok 1⟩]) =
      some ⟨[], ["D:evil".toList, "C:\\in".toList], 1, 1, 1, []⟩ := rfl
  have hall : ("D:evil".toList.all fun c => !isSeparator .windows c) = true := rfl
  have hsep : Unseparated .windows "D:evil".toList := fun c hc => by
    simpa using all_eq_true.mp hall c hc
  refine ⟨rfl, _, Reaches.refl.tail trivial hstep, rfl, ?_⟩
  rw [inside_iff_restarts hsep rfl]
  decide

end Runs

end BridgeMcp.Sftp
