import BridgeMcp.Lib.JsonText
import BridgeMcp.Security.AuditText
import BridgeMcp.Security.Patterns

/-!
The line of the confirmation gate (`security/audit.rs`): a tool and its arguments, with the values of
secret-named members replaced, oversized values elided and the whole cut to a bound.
-/
namespace BridgeMcp.Security
open TextLib JsonLib

def redactionExemptKeys : List Text := ["kubeconfig", "vault_password_file"]

def keyNamesASecret (key : Text) : Bool :=
  let lowered := lower key
  if lowered ∈ redactionExemptKeys then false
  else secretKeywords.any fun keyword => contains lowered (lower keyword)

def redacted : Json := .string "[REDACTED]"

mutual

def redactSecretValues : Json → Json
  | .object members => .object (redactMembers members)
  | .array items => .array (redactItems items)
  | other => other

def redactItems : List Json → List Json
  | [] => []
  | item :: items => redactSecretValues item :: redactItems items

def redactMembers : List (Text × Json) → List (Text × Json)
  | [] => []
  | (key, inner) :: members =>
    (key, if keyNamesASecret key then redacted else redactSecretValues inner) ::
      redactMembers members

end

section
-- how a number is printed
variable (numeral : Number → Text)

mutual

def jsonText : Json → Text
  | .null => "null"
  | .bool b => if b then "true" else "false"
  | .number n => numeral n
  | .string s => encodeString s
  | .array items => arrayText (itemTexts items)
  | .object members => objectText (memberTexts members)

def itemTexts : List Json → List Text
  | [] => []
  | item :: items => jsonText item :: itemTexts items

def memberTexts : List (Text × Json) → List (Text × Text)
  | [] => []
  | (key, value) :: members => (key, jsonText value) :: memberTexts members

end

/-- A string counts its characters, any other value those of its JSON. -/
def valueChars : Json → ℕ
  | .string s => s.length
  | other => (jsonText numeral other).length

def elideOversized (value : Json) : Json :=
  let len := valueChars numeral value
  if len ≤ gateAuditMaxValueChars then value else .string (elidedText len)

def boundArguments : Option Json → Json
  | none => .object []
  | some (.object members) =>
    .object (members.map fun member => (member.1, elideOversized numeral member.2))
  | some other => elideOversized numeral other

def auditedOperation (toolName : Text) (args : Option Json) : Text :=
  let safe := args.map redactSecretValues
  let rendered := jsonText numeral (boundArguments numeral safe)
  boundOperation (auditedText toolName ++ ' ' :: rendered)

end

/-- The name holds a keyword and is not exempt, in any letter case. -/
def SecretName (key : Text) : Prop :=
  (∃ keyword ∈ secretKeywords, lower keyword <:+: lower key) ∧ lower key ∉ redactionExemptKeys

theorem keyNamesASecret_iff (key : Text) : keyNamesASecret key = true ↔ SecretName key := by
  unfold keyNamesASecret SecretName
  simp only
  split
  · next hexempt => exact iff_of_false Bool.false_ne_true fun h => h.2 hexempt
  · next hexempt =>
      rw [List.any_eq_true, and_iff_left hexempt]
      simp only [contains_iff]

mutual

/-- The same value but for what stands under secret names. -/
inductive Alike : Json → Json → Prop
  | refl (value : Json) : Alike value value
  | array {xs ys : List Json} (h : AlikeItems xs ys) : Alike (.array xs) (.array ys)
  | object {ms ns : List (Text × Json)} (h : AlikeMembers ms ns) : Alike (.object ms) (.object ns)

inductive AlikeItems : List Json → List Json → Prop
  | nil : AlikeItems [] []
  | cons {x y : Json} {xs ys : List Json} (h : Alike x y) (hrest : AlikeItems xs ys) :
      AlikeItems (x :: xs) (y :: ys)

inductive AlikeMembers : List (Text × Json) → List (Text × Json) → Prop
  | nil : AlikeMembers [] []
  | secret {key : Text} (v w : Json) {ms ns : List (Text × Json)} (h : SecretName key)
      (hrest : AlikeMembers ms ns) : AlikeMembers ((key, v) :: ms) ((key, w) :: ns)
  | shown {key : Text} {v w : Json} {ms ns : List (Text × Json)} (h : Alike v w)
      (hrest : AlikeMembers ms ns) : AlikeMembers ((key, v) :: ms) ((key, w) :: ns)

end

mutual

theorem redact_alike {a b : Json} (h : Alike a b) : redactSecretValues a = redactSecretValues b := by
  cases h with
  | refl => rfl
  | array h => rw [redactSecretValues, redactSecretValues, redactItems_alike h]
  | object h => rw [redactSecretValues, redactSecretValues, redactMembers_alike h]

theorem redactItems_alike {xs ys : List Json} (h : AlikeItems xs ys) :
    redactItems xs = redactItems ys := by
  cases h with
  | nil => rfl
  | cons h hrest => rw [redactItems, redactItems, redact_alike h, redactItems_alike hrest]

theorem redactMembers_alike {ms ns : List (Text × Json)} (h : AlikeMembers ms ns) :
    redactMembers ms = redactMembers ns := by
  cases h with
  | nil => rfl
  | secret v w h hrest =>
    have hsecret := (keyNamesASecret_iff _).mpr h
    rw [redactMembers, redactMembers, if_pos hsecret, if_pos hsecret, redactMembers_alike hrest]
  | shown h hrest => rw [redactMembers, redactMembers, redact_alike h, redactMembers_alike hrest]

end

mutual

def allNames : Json → List Text
  | .object members => namesOfMembers members
  | .array items => namesOfItems items
  | _ => []

def namesOfItems : List Json → List Text
  | [] => []
  | item :: items => allNames item ++ namesOfItems items

def namesOfMembers : List (Text × Json) → List Text
  | [] => []
  | (key, value) :: members => key :: (allNames value ++ namesOfMembers members)

end

mutual

theorem redact_eq_self (value : Json) (h : ∀ name ∈ allNames value, ¬ SecretName name) :
    redactSecretValues value = value := by
  cases value with
  | object members =>
    rw [redactSecretValues, redactMembers_eq_self members h]
  | array items => rw [redactSecretValues, redactItems_eq_self items h]
  | null | bool | number | string => rfl

theorem redactItems_eq_self (items : List Json) (h : ∀ name ∈ namesOfItems items, ¬ SecretName name) :
    redactItems items = items := by
  cases items with
  | nil => rfl
  | cons item items =>
    obtain ⟨hitem, hitems⟩ := List.forall_mem_append.mp h
    rw [redactItems, redact_eq_self item hitem, redactItems_eq_self items hitems]

theorem redactMembers_eq_self (members : List (Text × Json))
    (h : ∀ name ∈ namesOfMembers members, ¬ SecretName name) : redactMembers members = members := by
  cases members with
  | nil => rfl
  | cons member members =>
    obtain ⟨key, value⟩ := member
    obtain ⟨hkey, hrest⟩ := List.forall_mem_cons.mp h
    obtain ⟨hvalue, hmembers⟩ := List.forall_mem_append.mp hrest
    rw [redactMembers, if_neg (mt (keyNamesASecret_iff key).mp hkey), redact_eq_self value hvalue,
      redactMembers_eq_self members hmembers]

end

section
variable (numeral : Number → Text)

/-- No member of an object is oversized; arguments of any other kind are not oversized. -/
def WithinBound : Json → Prop
  | .object members => ∀ member ∈ members, valueChars numeral member.2 ≤ gateAuditMaxValueChars
  | other => valueChars numeral other ≤ gateAuditMaxValueChars

theorem elideOversized_eq_self {value : Json} (h : valueChars numeral value ≤ gateAuditMaxValueChars) :
    elideOversized numeral value = value :=
  if_pos h

theorem boundArguments_eq_self {value : Json} (h : WithinBound numeral value) :
    boundArguments numeral (some value) = value := by
  cases value with
  | object members =>
    rw [boundArguments]
    congr 1
    refine (List.map_congr_left fun member hmember => ?_).trans (List.map_id members)
    rw [elideOversized_eq_self numeral (h member hmember)]
    rfl
  | null | bool | number | string | array => exact elideOversized_eq_self numeral h

/-- What stands under secret names does not show; where nothing is secret or oversized the arguments
are shown as they are. -/
theorem operation_hides_secrets (toolName : Text) :
    (∀ a b, Alike a b →
      auditedOperation numeral toolName (some a) = auditedOperation numeral toolName (some b)) ∧
    ∀ value, (∀ name ∈ allNames value, ¬ SecretName name) → WithinBound numeral value →
      auditedOperation numeral toolName (some value) =
        boundOperation (auditedText toolName ++ ' ' :: jsonText numeral value) := by
  constructor
  · intro a b h
    simp only [auditedOperation, Option.map_some, redact_alike h]
  · intro value hnames hbound
    simp only [auditedOperation, Option.map_some, redact_eq_self value hnames,
      boundArguments_eq_self numeral hbound]

end

def integerText : Number → Text
  | .posInt n => Nat.toDigits 10 n
  | .negInt n => '-' :: Nat.toDigits 10 n
  | .float _ => []

theorem operation_hides_secrets_password :
    Alike (.object [("DB_Password", .string "x"), ("host", .string "h")])
        (.object [("DB_Password", .number (.posInt 12)), ("host", .string "h")]) ∧
      auditedOperation integerText "t"
          (some (.object [("DB_Password", .string "x"),
            ("host", .string "h")])) =
        auditedOperation integerText "t"
          (some (.object [("DB_Password", .number (.posInt 12)),
            ("host", .string "h")])) := by
  have hsecret : SecretName "DB_Password" := (keyNamesASecret_iff _).mp rfl
  have halike : Alike
      (.object [("DB_Password", .string "x"), ("host", .string "h")])
      (.object [("DB_Password", .number (.posInt 12)), ("host", .string "h")]) :=
    .object (.secret _ _ hsecret (.shown (.refl _) .nil))
  exact ⟨halike, (operation_hides_secrets integerText "t").1 _ _ halike⟩

/-- An exempt name is exempt in every letter case; arguments that are not an object are elided as one
value. -/
theorem exempt_in_any_case_and_elided_whole :
    (∃ keyword ∈ secretKeywords, lower keyword <:+: lower "KUBECONFIG") ∧
      "KUBECONFIG".toList ∉ redactionExemptKeys ∧
      auditedOperation integerText "t"
          (some (.object [("KUBECONFIG", .string "a")])) ≠
        auditedOperation integerText "t"
          (some (.object [("KUBECONFIG", .string "b")])) ∧
      allNames (.string (List.replicate 257 'a')) = [] ∧
      auditedOperation integerText "t" (some (.string (List.replicate 257 'a'))) =
        "t \"<elided: 257 chars>\"" := by
  refine ⟨⟨"kubeconfig", by decide, by decide⟩, by decide, by decide, rfl, ?_⟩
  have hlong : ∀ s : Text, gateAuditMaxValueChars < s.length →
      auditedOperation integerText "t" (some (.string s)) =
        boundOperation ("t" ++ ' ' :: encodeString (elidedText s.length)) := by
    intro s hs
    have helided : elideOversized integerText (.string s) = .string (elidedText s.length) :=
      if_neg (Nat.not_le.mpr hs)
    rw [auditedOperation, Option.map_some]
    change boundOperation (_ ++ ' ' :: jsonText integerText (elideOversized integerText (.string s))) = _
    rw [helided]
    rfl
  rw [hlong _ (by rw [List.length_replicate]; decide), List.length_replicate]
  decide

end BridgeMcp.Security
