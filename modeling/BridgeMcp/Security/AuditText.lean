import BridgeMcp.Lib.Codes
import BridgeMcp.Lib.Json
import BridgeMcp.Lib.Lines
import BridgeMcp.Sftp.Directory

/-!
What an audit line shows of a caller's words (`security/audit.rs`): the escape that keeps the writer's
own characters to the writer, the names of a call's arguments, and its host.
-/
namespace BridgeMcp.Security
open TextLib JsonLib CodeLib List
open Sftp (isControl)

/-- The code points of the Unicode categories `Cf`, `Zl` and `Zp`, first and last of each range. -/
def formatRanges : List (ℕ × ℕ) :=
  [(0xAD, 0xAD), (0x600, 0x605), (0x61C, 0x61C), (0x6DD, 0x6DD), (0x70F, 0x70F), (0x890, 0x891),
    (0x8E2, 0x8E2), (0x180E, 0x180E), (0x200B, 0x200F), (0x2028, 0x202E), (0x2060, 0x2064),
    (0x2066, 0x206F), (0xFEFF, 0xFEFF), (0xFFF9, 0xFFFB), (0x110BD, 0x110BD), (0x110CD, 0x110CD),
    (0x13430, 0x1343F), (0x1BCA0, 0x1BCA3), (0x1D173, 0x1D17A), (0xE0001, 0xE0001),
    (0xE0020, 0xE007F)]

def reordersOrHides (c : Char) : Bool :=
  formatRanges.any fun range => range.1 ≤ c.toNat && c.toNat ≤ range.2

def codePointText (c : Char) : Text :=
  '\\' :: 'u' :: '\x7b' :: (Nat.toDigits 16 c.toNat ++ ['\x7d'])

def separators : List Char := ['<', '>', ' ', '=', ',', '\x7b', '\x7d']

def auditedChar (c : Char) : Text :=
  if c = '\\' then ['\\', '\\']
  else if c ∈ separators then codePointText c
  else if isControl c || reordersOrHides c then codePointText c
  else [c]

def auditedText (raw : Text) : Text := raw.flatMap auditedChar

def gateAuditMaxValueChars : ℕ := 256

def gateAuditMaxOperationChars : ℕ := 2048

def noHost : Text := "<no-host>"

def elidedText (chars : ℕ) : Text := "<elided: " ++ Nat.toDigits 10 chars ++ " chars>"

def auditedHost (raw : Text) : Text :=
  let escaped := auditedText raw
  if gateAuditMaxValueChars < escaped.length then elidedText raw.length else escaped

def auditedHostFromArgs (args : Option Json) : Text :=
  match (args.bind fun a => a.get "host").bind Json.asStr with
  | some raw => auditedHost raw
  | none => noHost

def boundOperation (operation : Text) : Text :=
  let total := operation.length
  if total ≤ gateAuditMaxOperationChars then operation
  else operation.take gateAuditMaxOperationChars ++ " <truncated: " ++
    Nat.toDigits 10 total ++ " chars total>"

def emptyName : Text := "<empty-name>"

def auditedName (key : Text) : Text := if key = [] then emptyName else auditedText key

def itemCountText (items : ℕ) : Text := "<array: " ++ Nat.toDigits 10 items ++ " items>"

def scalarText : Text := "<scalar>"

/-- The shape of the arguments: the names of an object's members, and no values. -/
def argumentShape : Option Json → Text
  | none => ['\x7b', '\x7d']
  | some (.object members) =>
    let names := (members.map fun member => auditedName member.1).insertionSort (· ≤ ·)
    '\x7b' :: ([','].intercalate names ++ ['\x7d'])
  | some (.array items) => itemCountText items.length
  | some _ => scalarText

def auditedArgumentNames (toolName : Text) (args : Option Json) : Text :=
  boundOperation (auditedText toolName ++ ' ' :: argumentShape args)

/-- A character that may stand in a rendering. -/
def Rendered (c : Char) : Prop :=
  c ∉ ['<', '>', ' ', '=', ','] ∧ isControl c = false ∧ reordersOrHides c = false

instance (c : Char) : Decidable (Rendered c) := inferInstanceAs (Decidable (_ ∧ _))

theorem auditedChar_cases (c : Char) :
    (c = '\\' ∧ auditedChar c = ['\\', '\\']) ∨ auditedChar c = codePointText c ∨
      (auditedChar c = [c] ∧ c ≠ '\\' ∧ c ∉ separators ∧ isControl c = false ∧
        reordersOrHides c = false) := by
  unfold auditedChar
  split_ifs with hbackslash hseparator hhidden
  · exact .inl ⟨hbackslash, rfl⟩
  · exact .inr (.inl rfl)
  · exact .inr (.inl rfl)
  · rw [Bool.or_eq_true, not_or, Bool.not_eq_true, Bool.not_eq_true] at hhidden
    exact .inr (.inr ⟨rfl, hbackslash, hseparator, hhidden.1, hhidden.2⟩)

theorem rendered_digitChar {d : ℕ} (h : d < 16) :
    Rendered (Nat.digitChar d) ∧ Nat.digitChar d ≠ '\x7d' := by
  have hall : ∀ d : Fin 16, Rendered (Nat.digitChar d) ∧ Nat.digitChar d ≠ '\x7d' := by decide
  exact hall ⟨d, h⟩

theorem rendered_auditedChar {c d : Char} (h : d ∈ auditedChar c) : Rendered d := by
  rcases auditedChar_cases c with ⟨-, hcode⟩ | hcode | ⟨hcode, -, hseparator, hcontrol, hformat⟩
  · rw [hcode, mem_pair] at h
    rcases h with rfl | rfl <;> decide
  · rw [hcode, codePointText] at h
    simp only [mem_cons, mem_append, not_mem_nil, or_false] at h
    rcases h with rfl | rfl | rfl | hdigit | rfl
    · decide
    · decide
    · decide
    · obtain ⟨n, hn, rfl⟩ := mem_toDigits (by decide) (by decide) hdigit
      exact (rendered_digitChar hn).1
    · decide
  · rw [hcode, mem_singleton] at h
    subst h
    refine ⟨fun hmem => hseparator ?_, hcontrol, hformat⟩
    exact mem_append_left ['\x7b', '\x7d'] hmem

theorem rendered_auditedText {raw : Text} {c : Char} (h : c ∈ auditedText raw) : Rendered c := by
  obtain ⟨d, -, hd⟩ := mem_flatMap.mp h
  exact rendered_auditedChar hd

theorem brace_notMem_toDigits (n : ℕ) : '\x7d' ∉ Nat.toDigits 16 n := by
  intro h
  obtain ⟨d, hd, hc⟩ := mem_toDigits (by decide) (by decide) h
  exact (rendered_digitChar hd).2 hc.symm

theorem codePointText_decodable : Decodable codePointText := by
  intro c d s t h
  simp only [codePointText, cons_append, append_assoc, nil_append, cons.injEq,
    true_and] at h
  obtain ⟨hdigits, hrest⟩ :=
    (append_cons_inj (brace_notMem_toDigits _) (brace_notMem_toDigits _)).mp h
  exact ⟨Char.toNat_inj.mp (toDigits_injective (by decide) (by decide) hdigits), hrest⟩

theorem auditedChar_decodable : Decodable auditedChar := by
  intro c d s t h
  rcases auditedChar_cases c with ⟨hbackslash, hc⟩ | hc | ⟨hc, hplain, -⟩ <;>
    rcases auditedChar_cases d with ⟨hbackslash', hd⟩ | hd | ⟨hd, hplain', -⟩ <;> rw [hc, hd] at h
  · exact ⟨hbackslash.trans hbackslash'.symm, (append_right_inj _).mp h⟩
  · cases (cons.inj (cons.inj h).2).1
  · exact absurd (cons.inj h).1.symm hplain'
  · cases (cons.inj (cons.inj h).2).1
  · exact codePointText_decodable c d s t h
  · exact absurd (cons.inj h).1.symm hplain'
  · exact absurd (cons.inj h).1 hplain
  · exact absurd (cons.inj h).1 hplain
  · exact ⟨(cons.inj h).1, (cons.inj h).2⟩

theorem auditedText_injective : Function.Injective auditedText := by
  apply auditedChar_decodable.flatMap_injective
  intro c
  rcases auditedChar_cases c with ⟨-, hcode⟩ | hcode | ⟨hcode, -⟩ <;> rw [hcode] <;>
    exact cons_ne_nil _ _

theorem auditedText_eq_nil {raw : Text} (h : auditedText raw = []) : raw = [] :=
  auditedText_injective (h.trans flatMap_nil.symm)

theorem auditedName_ne_nil (key : Text) : auditedName key ≠ [] := by
  unfold auditedName
  split
  · exact cons_ne_nil _ _
  · next hkey => exact mt auditedText_eq_nil hkey

theorem comma_notMem_auditedName (key : Text) : ',' ∉ auditedName key := by
  unfold auditedName
  split
  · decide
  · intro h
    exact absurd (rendered_auditedText h).1 (by decide)

theorem auditedName_injective : Function.Injective auditedName := by
  have hwriter : ∀ key, auditedText key ≠ emptyName := by
    intro key h
    have hmem : '<' ∈ auditedText key := h ▸ mem_cons_self
    exact absurd (rendered_auditedText hmem).1 (by decide)
  intro a b h
  unfold auditedName at h
  split_ifs at h with ha hb hb
  · rw [ha, hb]
  · exact absurd h.symm (hwriter b)
  · exact absurd h (hwriter a)
  · exact auditedText_injective h

/-- The member names of arguments that are an object; no arguments are none. -/
def memberNames : Option Json → Option (List Text)
  | none => some []
  | some (.object members) => some (members.map Prod.fst)
  | some _ => none

def IsScalar : Option Json → Prop
  | some (.null) | some (.bool _) | some (.number _) | some (.string _) => True
  | _ => False

/-- Objects with the same names, arrays of one length, or scalars. -/
def SameShape (a b : Option Json) : Prop :=
  (∃ m n, memberNames a = some m ∧ memberNames b = some n ∧ ∀ name, name ∈ m ↔ name ∈ n) ∨
    (∃ xs ys, a = some (.array xs) ∧ b = some (.array ys) ∧ xs.length = ys.length) ∨
    (IsScalar a ∧ IsScalar b)

def namesText (names : List Text) : Text :=
  '\x7b' :: ([','].intercalate ((names.map auditedName).insertionSort (· ≤ ·)) ++ ['\x7d'])

theorem argumentShape_of_memberNames {args : Option Json} {names : List Text}
    (h : memberNames args = some names) : argumentShape args = namesText names := by
  cases args with
  | none =>
    cases h
    rfl
  | some value =>
    cases value with
    | object members =>
      cases h
      simp only [argumentShape, namesText, map_map]
      rfl
    | null | bool | number | string | array => cases h

theorem namesText_inj {m n : List Text} (h : namesText m = namesText n) (name : Text) :
    name ∈ m ↔ name ∈ n := by
  have hparts : ∀ names : List Text, ∀ part ∈ (names.map auditedName).insertionSort (· ≤ ·),
      part ≠ [] ∧ ',' ∉ part := by
    intro names part hpart
    obtain ⟨key, -, rfl⟩ := mem_map.mp (mem_insertionSort _ |>.mp hpart)
    exact ⟨auditedName_ne_nil key, comma_notMem_auditedName key⟩
  simp only [namesText, cons.injEq, true_and, append_left_inj] at h
  have hsorted := intercalate_injective (hparts m) (hparts n) h
  have hmem : ∀ names : List Text,
      name ∈ names ↔ auditedName name ∈ (names.map auditedName).insertionSort (· ≤ ·) := by
    intro names
    rw [mem_insertionSort, mem_map_of_injective auditedName_injective]
  rw [hmem m, hmem n, hsorted]

theorem itemCountText_eq (n : ℕ) : itemCountText n =
    '<' :: 'a' :: ("rray: " ++ (Nat.toDigits 10 n ++ ' ' :: "items>")) := by
  delta itemCountText
  repeat rw [String.toList_ofList]
  simp only [cons_append, nil_append]

theorem scalarText_eq : scalarText = '<' :: 's' :: "calar>" := by
  delta scalarText
  repeat rw [String.toList_ofList]

theorem argumentShape_cases (args : Option Json) :
    (∃ names, memberNames args = some names ∧ argumentShape args = namesText names) ∨
      (∃ items, args = some (.array items) ∧ argumentShape args =
        '<' :: 'a' :: ("rray: " ++ (Nat.toDigits 10 items.length ++ ' ' :: "items>"))) ∨
      (IsScalar args ∧ argumentShape args = '<' :: 's' :: "calar>") := by
  cases args with
  | none => exact .inl ⟨[], rfl, argumentShape_of_memberNames rfl⟩
  | some value =>
    cases value with
    | object members => exact .inl ⟨_, rfl, argumentShape_of_memberNames rfl⟩
    | array items =>
      exact .inr (.inl ⟨items, rfl, itemCountText_eq items.length⟩)
    | null | bool | number | string => exact .inr (.inr ⟨trivial, scalarText_eq⟩)

theorem argumentShape_inj {a b : Option Json} (h : argumentShape a = argumentShape b) :
    SameShape a b := by
  have hdigit : ∀ n, ' ' ∉ Nat.toDigits 10 n := fun n hmem =>
    absurd (isDigit_toDigits n ' ' hmem) (by decide)
  rcases argumentShape_cases a with ⟨m, hm, ha⟩ | ⟨xs, hxs, ha⟩ | ⟨hscalar, ha⟩ <;>
    rcases argumentShape_cases b with ⟨n, hn, hb⟩ | ⟨ys, hys, hb⟩ | ⟨hscalar', hb⟩ <;>
    rw [ha, hb] at h
  · exact .inl ⟨m, n, hm, hn, namesText_inj h⟩
  · cases (cons.inj h).1
  · cases (cons.inj h).1
  · cases (cons.inj h).1
  · refine .inr (.inl ⟨xs, ys, hxs, hys, ?_⟩)
    have htail := (append_right_inj _).mp (cons.inj (cons.inj h).2).2
    obtain ⟨hdigits, -⟩ := (append_cons_inj (hdigit _) (hdigit _)).mp htail
    exact toDigits_injective (by decide) (by decide) hdigits
  · cases (cons.inj (cons.inj h).2).1
  · cases (cons.inj h).1
  · cases (cons.inj (cons.inj h).2).1
  · exact .inr (.inr ⟨hscalar, hscalar'⟩)

theorem boundOperation_eq {operation : Text}
    (h : (boundOperation operation).length ≤ gateAuditMaxOperationChars) :
    boundOperation operation = operation := by
  unfold boundOperation at h ⊢
  simp only at h ⊢
  split_ifs at h ⊢ with hfits
  · rfl
  · have htake : (operation.take gateAuditMaxOperationChars).length = gateAuditMaxOperationChars := by
      rw [length_take]
      omega
    have hmark : 0 < " <truncated: ".toList.length := by decide
    simp only [length_append, htake] at h
    omega

theorem auditedHost_ne_noHost (raw : Text) : auditedHost raw ≠ noHost := by
  unfold auditedHost
  simp only
  split_ifs
  · intro h
    delta elidedText noHost at h
    repeat rw [String.toList_ofList] at h
    cases (cons.inj (cons.inj h).2).1
  · intro h
    have hmem : '<' ∈ auditedText raw := h ▸ mem_cons_self
    exact absurd (rendered_auditedText hmem).1 (by decide)

theorem eq_string_of_asStr {value : Json} {s : Text} (h : value.asStr = some s) : value = .string s := by
  cases value with
  | string t =>
    cases h
    rfl
  | null | bool | number | array | object => cases h

/-- No rendering of a caller's words can be mistaken for the writer's or for that of other words. -/
theorem renderings_unforgeable :
    (∀ raw, ∀ c ∈ auditedText raw, Rendered c) ∧ Function.Injective auditedText ∧
    (∀ tool tool' args args',
      (auditedArgumentNames tool args).length ≤ gateAuditMaxOperationChars →
      auditedArgumentNames tool args = auditedArgumentNames tool' args' →
      tool = tool' ∧ SameShape args args') ∧
    (∀ args, auditedHostFromArgs args = noHost ↔
      ¬ ∃ raw, (args.bind fun a => a.get "host") = some (.string raw)) ∧
    (∀ host host', (auditedText host).length ≤ gateAuditMaxValueChars →
      (auditedText host').length ≤ gateAuditMaxValueChars →
      auditedHost host = auditedHost host' → host = host') := by
  refine ⟨fun raw c hc => rendered_auditedText hc, auditedText_injective, ?_, ?_, ?_⟩
  · intro tool tool' args args' hfits h
    have hfits' : (auditedArgumentNames tool' args').length ≤ gateAuditMaxOperationChars := h ▸ hfits
    unfold auditedArgumentNames at h hfits hfits'
    rw [boundOperation_eq hfits, boundOperation_eq hfits'] at h
    have hblank : ∀ raw, ' ' ∉ auditedText raw := fun raw hmem =>
      absurd (rendered_auditedText hmem).1 (by decide)
    obtain ⟨htool, hshape⟩ := (append_cons_inj (hblank tool) (hblank tool')).mp h
    exact ⟨auditedText_injective htool, argumentShape_inj hshape⟩
  · intro args
    unfold auditedHostFromArgs
    split
    · next raw hraw =>
        obtain ⟨value, hvalue, hstring⟩ := Option.bind_eq_some_iff.mp hraw
        refine iff_of_false (auditedHost_ne_noHost raw) (not_not.mpr ⟨raw, ?_⟩)
        rw [hvalue, eq_string_of_asStr hstring]
    · next hnone =>
        refine iff_of_true rfl ?_
        rintro ⟨raw, hraw⟩
        rw [hraw] at hnone
        cases hnone
  · intro host host' hfits hfits' h
    unfold auditedHost at h
    simp only at h
    rw [if_neg (Nat.not_lt.mpr hfits), if_neg (Nat.not_lt.mpr hfits')] at h
    exact auditedText_injective h

theorem renderings_unforgeable_reordered :
    SameShape (some (.object [("a", .null), ("b", .bool true)]))
      (some (.object [("b", .null), ("a", .string [])])) :=
  (renderings_unforgeable.2.2.1 "ssh_exec" "ssh_exec"
    (some (.object [("a", .null), ("b", .bool true)]))
    (some (.object [("b", .null), ("a", .string [])])) (by decide) rfl).2

end BridgeMcp.Security
