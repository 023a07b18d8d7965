import BridgeMcp.Lib.KeyTree
import BridgeMcp.Shell.Hosts
import BridgeMcp.Shell.PowerShellScript

/-!
`ssh_reg_set` (`domain/use_cases/windows_registry.rs`): the line that sets a registry value, and what
PowerShell makes of it.
-/
namespace BridgeMcp.Windows
open TextLib KeyTree CheckLib BridgeMcp.Shell List

def psEscape (s : Text) : Text := escape s .powerShell

def startsWithIgnoreCase (path start : Text) : Bool :=
  lower (path.take start.length) == lower start

def hasRegistryProviderStart (path : Text) : Bool :=
  ["HKLM:", "HKCU:", "HKCR:", "HKU:", "HKCC:", "Registry::HK"].any fun start =>
    startsWithIgnoreCase path start.toList

section
variable (isAlphanumeric : Char → Bool)

def validateRegistryPath (path : Text) : Except CommandDenied Unit :=
  if path = [] then .error ⟨"Registry path cannot be empty"⟩
  else if !hasRegistryProviderStart path then
    .error ⟨"Invalid registry path '" ++ path ++
      ("'. It must start with a registry drive " ++
        "(HKLM:, HKCU:, HKCR:, HKU:, HKCC:) or Registry::HK.").toList⟩
  else if path.all fun c => isAlphanumeric c || ['\\', ':', '-', '_', ' ', '.'].contains c then .ok ()
  else
    .error ⟨"Invalid registry path '" ++ path ++
      ("'. Only alphanumeric, backslash, colon, hyphen, underscore, space, and dot " ++
        "allowed.").toList⟩

def validateRegistryName (name : Text) : Except CommandDenied Unit :=
  if name = [] then .error ⟨"Registry name cannot be empty"⟩
  else if name.all fun c => isAlphanumeric c || ['-', '_', ' ', '.'].contains c then .ok ()
  else
    .error ⟨"Invalid registry name '" ++ name ++
      "'. Only alphanumeric, hyphen, underscore, space, and dot allowed."⟩

structure RegSetArgs where
  path : Text
  name : Text
  value : Text
  valueType : Option Text
  deriving DecidableEq

def typeArgument : Option Text → Text
  | some valueType => " -Type " ++ psEscape valueType
  | none => []

def setValue (path name value : Text) (valueType : Option Text) : Text :=
  "New-Item -Path " ++ (psEscape path ++
    (" -Force | Out-Null; Set-ItemProperty -Path " ++ (psEscape path ++
      (" -Name " ++ (psEscape name ++
        (" -Value " ++ (psEscape value ++ typeArgument valueType)))))))

def regSet (args : RegSetArgs) : Except CommandDenied Text := do
  validateRegistryPath isAlphanumeric args.path
  validateRegistryName isAlphanumeric args.name
  .ok (setValue args.path args.name args.value args.valueType)

end

structure RegistryValue where
  text : Text
  type : Option Text
  deriving DecidableEq

/-- Names up to the case that Windows ignores. -/
abbrev Registry (N : Type) := Tree N RegistryValue

inductive Cmdlet where
  /-- with `-Force` -/
  | newItem (path : Text)
  | setItemProperty (path name value : Text) (type : Option Text)
  | outNull
  deriving DecidableEq

/-- The parameters after a command's name. A word in quotes is never a parameter. -/
def psParameters : List PsToken → Option (List (Text × Option Text))
  | [] => some []
  | .word parameter true :: .word argument bare :: rest =>
    if parameter.head? ≠ some '-' then none
    else if bare ∧ argument.head? = some '-' then
      (psParameters (.word argument bare :: rest)).map ((parameter, none) :: ·)
    else (psParameters rest).map ((parameter, some argument) :: ·)
  | [.word parameter true] => if parameter.head? ≠ some '-' then none else some [(parameter, none)]
  | _ => none

def parseCmdlet : List PsToken → Option Cmdlet
  | .word command true :: arguments =>
    (psParameters arguments).bind fun parameters =>
      let given := fun parameter : String => parameters.lookup parameter.toList
      if command = "New-Item" then
        match given "-Path", given "-Force" with
        | some (some path), some none => some (.newItem path)
        | _, _ => none
      else if command = "Set-ItemProperty" then
        match given "-Path", given "-Name", given "-Value" with
        | some (some path), some (some name), some (some value) =>
          some (.setItemProperty path name value ((given "-Type").getD none))
        | _, _, _ => none
      else if command = "Out-Null" ∧ parameters = [] then some .outNull
      else none
  | _ => none

def psCommands : List PsToken → List (List PsToken)
  | [] => [[]]
  | .pipe :: tokens => [] :: psCommands tokens
  | .semicolon :: tokens => [] :: psCommands tokens
  | .word text bare :: tokens =>
    match psCommands tokens with
    | [] => [[.word text bare]]
    | command :: commands => (.word text bare :: command) :: commands

section
variable {N : Type} [DecidableEq N]

/-- `New-Item -Force`: a missing key is created with those above it, an existing one is removed and
created again. -/
def newItemForce (registry : Registry N) (path : List N) : Registry N :=
  if h : (registry.key path).isSome then registry.clear path h else registry.create path

variable (resolve : Text → List N) (fold : Text → N)

/-- `resolve` is the key that a path names, `fold` the name of a value. -/
def Cmdlet.run (registry : Registry N) : Cmdlet → Registry N
  | .newItem path => newItemForce registry (resolve path)
  | .setItemProperty path name value type => registry.put (resolve path) (fold name) ⟨value, type⟩
  | .outNull => registry

def runPs (line : Text) (registry : Registry N) : Option (Registry N) :=
  (readPs .start line).bind fun tokens =>
    ((psCommands tokens).mapM parseCmdlet).map fun cmdlets =>
      cmdlets.foldl (Cmdlet.run resolve fold) registry

def setValuePieces (path name value : Text) (valueType : Option Text) : List PsPiece :=
  [.bare "New-Item", .bare "-Path", .quoted path, .bare "-Force", .pipe,
    .bare "Out-Null", .semicolon, .bare "Set-ItemProperty", .bare "-Path",
    .quoted path, .bare "-Name", .quoted name, .bare "-Value", .quoted value] ++
    match valueType with
    | some valueType => [.bare "-Type", .quoted valueType]
    | none => []

variable (path name value : Text)

theorem setValue_eq (valueType : Option Text) :
    ' ' :: setValue path name value valueType = psLine (setValuePieces path name value valueType) := by
  cases valueType with
  | none => rfl
  | some valueType =>
    have htype : typeArgument (some valueType) = " -Type ".toList ++ (psEscape valueType ++ []) := by
      rw [append_nil]
      rfl
    exact congrArg (fun tail => ' ' :: ("New-Item -Path ".toList ++ (psEscape path ++
      (" -Force | Out-Null; Set-ItemProperty -Path ".toList ++ (psEscape path ++
        (" -Name ".toList ++ (psEscape name ++
          (" -Value ".toList ++ (psEscape value ++ tail))))))))) htype

theorem setValuePieces_wellFormed (valueType : Option Text) :
    ∀ piece ∈ setValuePieces path name value valueType, piece.WellFormed := by
  cases valueType with
  | none =>
    simp [setValuePieces, PsPiece.WellFormed]
    decide
  | some valueType =>
    simp [setValuePieces, PsPiece.WellFormed]
    decide

theorem parseCmdlet_newItem (path : Text) :
    parseCmdlet [.word "New-Item" true, .word "-Path" true, .word path false,
      .word "-Force" true] = some (.newItem path) := rfl

theorem parseCmdlet_setItemProperty :
    parseCmdlet [.word "Set-ItemProperty" true, .word "-Path" true, .word path false,
      .word "-Name" true, .word name false, .word "-Value" true,
      .word value false] = some (.setItemProperty path name value none) := rfl

theorem parseCmdlet_setItemProperty_type (path name value type : Text) :
    parseCmdlet [.word "Set-ItemProperty" true, .word "-Path" true, .word path false,
      .word "-Name" true, .word name false, .word "-Value" true, .word value false,
      .word "-Type" true, .word type false] =
        some (.setItemProperty path name value (some type)) := rfl

theorem parseCmdlet_outNull : parseCmdlet [.word "Out-Null" true] = some .outNull := rfl

theorem runPs_setValue (valueType : Option Text) (registry : Registry N) :
    runPs resolve fold (setValue path name value valueType) registry =
      some ((newItemForce registry (resolve path)).put (resolve path) (fold name)
        ⟨value, valueType⟩) := by
  have hread : readPs .start (setValue path name value valueType) =
      some ((setValuePieces path name value valueType).map PsPiece.token) := by
    have hline := readPs_psLine (setValuePieces_wellFormed path name value valueType) .start
    rw [← setValue_eq, readPs_blank] at hline
    exact hline
  have hcmdlets : (psCommands ((setValuePieces path name value valueType).map PsPiece.token)).mapM
      parseCmdlet = some [.newItem path, .outNull, .setItemProperty path name value valueType] := by
    cases valueType with
    | none =>
      simp only [setValuePieces, append_nil, map_cons, map_nil, PsPiece.token,
        psCommands, mapM_cons, mapM_nil, parseCmdlet_newItem, parseCmdlet_outNull,
        parseCmdlet_setItemProperty]
      rfl
    | some type =>
      simp only [setValuePieces, cons_append, nil_append, map_cons, map_nil,
        PsPiece.token, psCommands, mapM_cons, mapM_nil, parseCmdlet_newItem,
        parseCmdlet_outNull, parseCmdlet_setItemProperty_type]
      rfl
  rw [runPs, hread, Option.bind_some, hcmdlets]
  rfl

/-- The key has no value but the named one and no subkey; so it is with a missing key. -/
def Alone (registry : Registry N) (path : List N) (name : N) : Prop :=
  (∀ other, other ≠ name → (registry.key path).bind (· other) = none) ∧
    ∀ place, path <+: place → place ≠ path → registry.key place = none

omit [DecidableEq N] in
theorem alone_of_missing {registry : Registry N} {path : List N} (name : N)
    (h : registry.key path = none) : Alone registry path name := by
  constructor
  · intro other _
    rw [h, Option.bind_none]
  · intro place hplace _
    by_contra hsome
    have habove := registry.isSome_of_isPrefix hplace (Option.isSome_iff_ne_none.mpr hsome)
    rw [h] at habove
    cases habove

variable {resolve fold}

/-- Setting a value changes nothing else just where there was nothing else in the key. -/
theorem set_only_iff {isAlphanumeric : Char → Bool} {args : RegSetArgs} {line : Text}
    (h : regSet isAlphanumeric args = .ok line) (registry : Registry N) :
    (∃ after, runPs resolve fold line registry = some after ∧
      OnlySets registry after (resolve args.path) (fold args.name) ⟨args.value, args.valueType⟩) ↔
    Alone registry (resolve args.path) (fold args.name) := by
  obtain ⟨-, hchecked⟩ := ok_of_bind h
  obtain ⟨-, hline⟩ := ok_of_bind hchecked
  rw [← Except.ok.inj hline, runPs_setValue]
  simp only [Option.some.injEq, exists_eq_left']
  unfold newItemForce
  split_ifs with hkey
  · exact onlySets_clear_iff hkey
  · have hmissing : registry.key (resolve args.path) = none := by simpa using hkey
    exact iff_of_true (onlySets_create hmissing) (alone_of_missing _ hmissing)

end

def emptyRegistry : Registry Text where
  key path := if path = [] then some fun _ => none else none
  root := rfl
  closed := by
    intro path name h
    rw [if_neg (by simp)] at h
    cases h

def keyNames (path : Text) : List Text := (lower path).splitOn '\\'

def sampleArgs : RegSetArgs :=
  ⟨"HKLM:\\SOFTWARE\\MyApp", "Version", "1.0", none⟩

theorem regSet_sampleArgs : regSet Char.isAlphanum sampleArgs =
    .ok (setValue sampleArgs.path sampleArgs.name sampleArgs.value sampleArgs.valueType) := rfl

theorem set_only_iff_missing :
    ∃ after, runPs keyNames lower
        (setValue sampleArgs.path sampleArgs.name sampleArgs.value sampleArgs.valueType)
        emptyRegistry = some after ∧
      OnlySets emptyRegistry after (keyNames sampleArgs.path) (lower sampleArgs.name)
        ⟨sampleArgs.value, sampleArgs.valueType⟩ :=
  (set_only_iff regSet_sampleArgs emptyRegistry).mpr (alone_of_missing _ rfl)

/-- The key has a value `path` and a subkey `Plugins`; both are gone when its value `Version` is
set. -/
def inUse : Registry Text :=
  (emptyRegistry.create (keyNames "HKLM:\\SOFTWARE\\MyApp\\Plugins")).put
    (keyNames sampleArgs.path) "path" ⟨"C:", none⟩

theorem set_loses_key :
    ∃ after, runPs keyNames lower
        (setValue sampleArgs.path sampleArgs.name sampleArgs.value sampleArgs.valueType) inUse =
          some after ∧
      (inUse.key (keyNames sampleArgs.path)).bind (· "path") = some ⟨"C:", none⟩ ∧
      (after.key (keyNames sampleArgs.path)).bind (· "path") = none ∧
      (inUse.key (keyNames "HKLM:\\SOFTWARE\\MyApp\\Plugins")).isSome = true ∧
      after.key (keyNames "HKLM:\\SOFTWARE\\MyApp\\Plugins") = none :=
  ⟨_, runPs_setValue _ _ _ _ _ _ _, rfl, rfl, rfl, rfl⟩

end BridgeMcp.Windows
