import Mathlib.Algebra.Group.Int.Defs
import Mathlib.Algebra.Group.Nat.Defs
import Mathlib.Data.List.Infix
import Mathlib.Data.List.DropRight

/-!
Text as a finite list of Unicode scalar values, with the standard-library operations on it that the
rest of the development reads: literal replacement, trimming and lengths in UTF-8 bytes.
-/
namespace TextLib

abbrev Text := List Char

instance : LawfulBEq Text := inferInstance

/-- A string literal stands for its characters. -/
instance : Coe String Text := ⟨String.toList⟩

/-- Replacement of one character, as `str::replace` does it for a `char` pattern. -/
def replaceChar (c : Char) (new : Text) (s : Text) : Text :=
  s.flatMap fun x => if x = c then new else [x]

@[simp] theorem replaceChar_nil (c : Char) (new : Text) : replaceChar c new [] = [] := rfl

@[simp] theorem replaceChar_cons_self (c : Char) (new s : Text) :
    replaceChar c new (c :: s) = new ++ replaceChar c new s := by
  simp [replaceChar]

variable {c : Char}

@[simp] theorem replaceChar_cons_ne {x : Char} (new s : Text) (h : x ≠ c) :
    replaceChar c new (x :: s) = x :: replaceChar c new s := by
  simp [replaceChar, h]

theorem replaceChar_of_notMem (new : Text) {s : Text} (h : c ∉ s) :
    replaceChar c new s = s := by
  induction s with
  | nil => rfl
  | cons x s ih =>
    obtain ⟨hx, hs⟩ := not_or.mp (mt List.mem_cons.mpr h)
    rw [replaceChar_cons_ne new s (Ne.symm hx), ih hs]

theorem isUpper_iff : c.isUpper = true ↔ 65 ≤ c.toNat ∧ c.toNat ≤ 90 :=
  decide_eq_true_iff

theorem isLower_iff : c.isLower = true ↔ 97 ≤ c.toNat ∧ c.toNat ≤ 122 := by
  change (decide (97 ≤ c.toNat) && decide (c.toNat ≤ 122)) = true ↔ _
  rw [Bool.and_eq_true, decide_eq_true_eq, decide_eq_true_eq]

theorem isDigit_iff : c.isDigit = true ↔ 48 ≤ c.toNat ∧ c.toNat ≤ 57 :=
  Char.isDigit_iff_toNat

theorem isAlphanum_iff : c.isAlphanum = true ↔ 48 ≤ c.toNat ∧ c.toNat ≤ 57 ∨
    65 ≤ c.toNat ∧ c.toNat ≤ 90 ∨ 97 ≤ c.toNat ∧ c.toNat ≤ 122 := by
  change (c.isUpper || c.isLower || c.isDigit) = true ↔ _
  rw [Bool.or_eq_true, Bool.or_eq_true, isUpper_iff, isLower_iff, isDigit_iff, or_comm]

theorem toLower_of_not_upper (h : ¬ (65 ≤ c.toNat ∧ c.toNat ≤ 90)) : c.toLower = c :=
  dif_neg h

theorem toUpper_of_not_lower (h : ¬ (97 ≤ c.toNat ∧ c.toNat ≤ 122)) : c.toUpper = c :=
  dif_neg h

/-- A fact about the ASCII case mappings is checked on the ASCII characters; on the others they do
nothing. -/
theorem ascii_case {P : Char → Prop} (hascii : ∀ n < 128, P (Char.ofNat n))
    (hother : ∀ c : Char, c.toLower = c → c.toUpper = c → P c) (c : Char) : P c := by
  by_cases hc : c.toNat < 128
  · rw [← Char.ofNat_toNat c]
    exact hascii c.toNat hc
  · exact hother c (toLower_of_not_upper (by omega)) (toUpper_of_not_lower (by omega))

def lower (s : Text) : Text := s.map Char.toLower

/-- `char::is_whitespace`: the Unicode property `White_Space`. -/
def isWhitespace (c : Char) : Bool :=
  (9 ≤ c.toNat && c.toNat ≤ 13) || c.toNat == 0x20 || c.toNat == 0x85 || c.toNat == 0xA0 ||
    c.toNat == 0x1680 || (0x2000 ≤ c.toNat && c.toNat ≤ 0x200A) || c.toNat == 0x2028 ||
    c.toNat == 0x2029 || c.toNat == 0x202F || c.toNat == 0x205F || c.toNat == 0x3000

def trimEnd (s : Text) : Text := s.rdropWhile isWhitespace

def trimStart (s : Text) : Text := s.dropWhile isWhitespace

def trim (s : Text) : Text := trimEnd (s.dropWhile isWhitespace)

end TextLib
