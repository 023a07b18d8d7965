import BridgeMcp.Lib.Utf8
import BridgeMcp.Shell.Hosts
import BridgeMcp.Shell.Words

/-!
The tool `ssh_k8s_delete` (`domain/use_cases/kubernetes.rs`): its two checks and the command line it
builds. The checks look at the resource and at the name one by one; what they mean together is up
to kubectl, whose reading of the command line is the second half.
-/
namespace BridgeMcp.Kubernetes
open TextLib Shell

def kubectlNames : List Text := ["kubectl", "microk8s.kubectl", "oc"].map String.toList

def kubectlDetect : Text :=
  "$(if command -v kubectl >/dev/null 2>&1; then echo kubectl; elif command -v k3s " ++
    ">/dev/null 2>&1; then echo 'k3s kubectl'; elif command -v microk8s >/dev/null 2>&1; " ++
    "then echo 'microk8s kubectl'; else echo 'kubectl/k3s/microk8s not installed on host' " ++
    ">&2; echo false; fi) "

def kubectlDetectPrefix (kubectlBin : Option Text) : Text :=
  match kubectlBin with
  | some bin => if isNamedBinary bin kubectlNames then bin ++ [' '] else kubectlDetect
  | none => kubectlDetect

def isNamespaceKind (kind : Text) : Bool :=
  (((lower kind).splitOn '.').head?.any fun base =>
    ["namespace".toList, "namespaces".toList, "ns".toList].contains base)

def protectedNamespaces : List Text :=
  ["kube-system", "kube-public", "default", "kube-node-lease"].map String.toList

/-- `str::to_lowercase`, of which only its effect on ASCII texts matters here. -/
structure Lowercase where
  apply : Text → Text
  ascii : ∀ s, (∀ c ∈ s, c.toNat < 128) → apply s = lower s

def deniedNamespace (candidate : Text) : CommandDenied :=
  ⟨"Deletion of namespace '" ++ candidate ++
    "' is blocked. Protected namespaces: [\"kube-system\", \"kube-public\", \"default\", " ++
    "\"kube-node-lease\"]"⟩

/-- The names of namespaces that `validate_delete` finds, in its order: those written into the
resource, then the name if some kind of the resource means namespaces. -/
def namespaceCandidates (resource name : Text) : List Text :=
  let embedded := (((resource.splitOn ',').filterMap (splitFirst ['/'])).filter
    fun item => isNamespaceKind item.1).map Prod.snd
  embedded ++ if (resource.splitOn ',').any isNamespaceKind then [name] else []

def validateDelete (lowercase : Lowercase) (resource name : Text) : Except CommandDenied Unit :=
  match (namespaceCandidates resource name).find? fun candidate =>
      protectedNamespaces.contains (lowercase.apply candidate) with
  | some candidate => .error (deniedNamespace candidate)
  | none => .ok ()

def refuseOptionLikeAll : List (Text × Option Text) → Except CommandDenied Unit
  | [] => .ok ()
  | (arg, value) :: rest => do
      ifGiven value (refuseOptionLike arg)
      refuseOptionLikeAll rest

def validateDeleteTarget (resource : Text) (name labelSelector fieldSelector : Option Text)
    (all : Bool) : Except CommandDenied Unit := do
  refuseOptionLikeAll [("resource", some resource), ("name", name),
    ("label_selector", labelSelector), ("field_selector", fieldSelector)]
  let hasSelector := labelSelector.isSome || fieldSelector.isSome
  if name.isSome && all then .error ⟨"Cannot use both name and --all"⟩
  else if !name.isSome && !hasSelector && !all then
    .error ⟨"Must specify at least one of: name, label_selector, field_selector, or all=true"⟩
  else if (resource.splitOn ',').any isNamespaceKind then
    if all then
      .error ⟨"Cannot use --all with namespace resource (blast-radius guard)"⟩
    else if hasSelector then
      .error ⟨"Cannot delete namespaces by label_selector or field_selector " ++
        "(blast-radius guard); name the namespace"⟩
    else .ok ()
  else .ok ()

def isLabelChar (c : Char) : Bool := c.isLower || c.isDigit

def validateNamespace (ns : Text) : Except CommandDenied Unit :=
  if ns.isEmpty then .error ⟨"Namespace cannot be empty"⟩
  else if utf8Len ns > 63 then
    .error ⟨"Namespace '" ++ ns ++ "' exceeds 63 chars (DNS-1123 label limit)"⟩
  else if ns.head?.any isLabelChar && ns.getLast?.any isLabelChar &&
      ns.all fun c => isLabelChar c || c == '-' then .ok ()
  else
    .error ⟨"Namespace '" ++ ns ++ "' is not a valid DNS-1123 label " ++
      "(lowercase alphanumeric and hyphens only, must start and end with alphanumeric)"⟩

structure SshK8sDeleteArgs where
  resource : Text
  name : Option Text
  ns : Option Text
  gracePeriod : Option ℕ
  force : Option Bool
  dryRun : Option Text
  labelSelector : Option Text
  all : Option Bool
  fieldSelector : Option Text
  kubectlBin : Option Text

namespace SshK8sDeleteArgs

variable (args : SshK8sDeleteArgs)

def isAll : Bool := args.all.getD false

def given (option : Text) (value : Option Text) : Text :=
  value.elim [] fun v => option ++ escape v .posix

def buildDeleteCommand : Text :=
  kubectlDetectPrefix args.kubectlBin ++ "delete ".toList ++ escape args.resource .posix ++
    given " " args.name ++
    given " -l " args.labelSelector ++
    given " --field-selector " args.fieldSelector ++
    (if args.isAll then " --all".toList else []) ++
    given " -n " args.ns ++
    (args.gracePeriod.elim [] fun period =>
      " --grace-period=".toList ++ Nat.toDigits 10 period) ++
    (if args.force.getD false then " --force".toList else []) ++
    given " --dry-run=" args.dryRun

def buildCommand : Except CommandDenied Text := do
  validateDeleteTarget args.resource args.name args.labelSelector args.fieldSelector args.isAll
  ifGiven args.ns validateNamespace
  return args.buildDeleteCommand

def validate (lowercase : Lowercase) : Except CommandDenied Unit :=
  validateDelete lowercase args.resource (args.name.getD [])

end SshK8sDeleteArgs

/-- The words after the program. The detection expression stands for the words of a program. -/
def kubectlWords (cmd : Text) : Option (List Text) :=
  match stripPrefix kubectlDetect cmd with
  | some rest => shellWords rest
  | none => (shellWords cmd).map List.tail

def takesValue (word : Text) : Bool :=
  ["-l".toList, "-n".toList, "--field-selector".toList].contains word

def isOption (word : Text) : Bool := word.head? == some '-' && word != ['-']

def readWords (valueDue : Bool) : List Text → List Text × List Text
  | [] => ([], [])
  | word :: rest =>
    if valueDue then readWords false rest
    else if word = "--" then (rest, [])
    else if isOption word then
      let (positionals, options) := readWords (takesValue word) rest
      (positionals, word :: options)
    else
      let (positionals, options) := readWords false rest
      (word :: positionals, options)

inductive Deletion where
  | named (kind name : Text)
  | selected (kind : Text)
  deriving DecidableEq

def selectsMany (word : Text) : Bool :=
  ["-l".toList, "--field-selector".toList, "--all".toList].contains word

/-- What `kubectl delete` deletes: `kind/name` words, or the kinds of a comma list by name or
selector. A mixture of the two is refused. -/
def deletions (words : List Text) : List Deletion :=
  let (positionals, options) := readWords false words
  if positionals.all (·.contains '/') then
    (positionals.filterMap (splitFirst ['/'])).map fun object => .named object.1 object.2
  else if positionals.any (·.contains '/') then []
  else
    match positionals with
    | [] => []
    | kinds :: names =>
      (kinds.splitOn ',').flatMap fun kind =>
        names.map (.named kind) ++ if options.any selectsMany then [.selected kind] else []

def DenotesNamespaces (kind : Text) : Prop :=
  lower (kind.takeWhile (· ≠ '.')) ∈ ["namespace".toList, "namespaces".toList, "ns".toList]

/-- No protected namespace by name, and no namespace by selector. -/
def Deletion.Spares : Deletion → Prop
  | .named kind name => DenotesNamespaces kind → name ∉ protectedNamespaces
  | .selected kind => ¬ DenotesNamespaces kind

end BridgeMcp.Kubernetes
