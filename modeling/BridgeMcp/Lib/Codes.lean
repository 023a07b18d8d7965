import BridgeMcp.Lib.TextScan

/-!
Texts that can be read back in one way only: a code for each character, numerals, and parts joined by
a separator.
-/
namespace CodeLib
open TextLib List

/-- No code word starts another, whatever follows them. -/
def Decodable {α β : Type*} (code : α → List β) : Prop :=
  ∀ a b s t, code a ++ s = code b ++ t → a = b ∧ s = t

theorem Decodable.flatMap_injective {α β : Type*} {code : α → List β} (h : Decodable code)
    (hne : ∀ a, code a ≠ []) : Function.Injective (flatMap code) := by
  intro l
  induction l with
  | nil =>
    intro m hm
    cases m with
    | nil => rfl
    | cons b m =>
      have hempty : code b ++ m.flatMap code = [] := hm.symm
      exact absurd (append_eq_nil_iff.mp hempty).1 (hne b)
  | cons a l ih =>
    intro m hm
    cases m with
    | nil =>
      have hempty : code a ++ l.flatMap code = [] := hm
      exact absurd (append_eq_nil_iff.mp hempty).1 (hne a)
    | cons b m =>
      obtain ⟨rfl, hrest⟩ := h a b (l.flatMap code) (m.flatMap code) hm
      rw [ih hrest]

theorem digitChar_injOn {a b : ℕ} (ha : a < 16) (hb : b < 16) (h : Nat.digitChar a = Nat.digitChar b) :
    a = b := by
  have hall : ∀ a b : Fin 16, Nat.digitChar a = Nat.digitChar b → a = b := by decide
  exact Fin.mk.inj_iff.mp (hall ⟨a, ha⟩ ⟨b, hb⟩ h)

section
variable {base : ℕ} (hone : 1 < base) (hsixteen : base ≤ 16)
include hone hsixteen

theorem mem_toDigits {n : ℕ} {c : Char} (h : c ∈ Nat.toDigits base n) :
    ∃ d, d < 16 ∧ c = Nat.digitChar d := by
  induction n using Nat.strong_induction_on with
  | _ n ih =>
    by_cases hn : n < base
    · rw [Nat.toDigits_of_lt_base hn] at h
      exact ⟨n, by omega, mem_singleton.mp h⟩
    · rw [Nat.toDigits_of_base_le hone (Nat.le_of_not_lt hn)] at h
      rcases mem_append.mp h with hfront | hlast
      · exact ih (n / base) (Nat.div_lt_self (by omega) hone) hfront
      · have hmod := Nat.mod_lt n (show 0 < base by omega)
        exact ⟨n % base, by omega, mem_singleton.mp hlast⟩

theorem toDigits_injective : Function.Injective (Nat.toDigits base) := by
  intro n
  induction n using Nat.strong_induction_on with
  | _ n ih =>
    intro m h
    have hpos : 0 < base := by omega
    -- one digit against at least two
    have hlong : ∀ {k : ℕ} {d e : Char}, [d] ≠ Nat.toDigits base k ++ [e] := by
      intro k d e heq
      have hfront := length_pos_of_ne_nil (Nat.toDigits_ne_nil : Nat.toDigits base k ≠ [])
      have hlength := congrArg length heq
      rw [length_append] at hlength
      simp only [length_singleton] at hlength
      omega
    by_cases hn : n < base
    · by_cases hm : m < base
      · rw [Nat.toDigits_of_lt_base hn, Nat.toDigits_of_lt_base hm] at h
        exact digitChar_injOn (by omega) (by omega) (cons.inj h).1
      · rw [Nat.toDigits_of_lt_base hn, Nat.toDigits_of_base_le hone (Nat.le_of_not_lt hm)] at h
        exact absurd h hlong
    · by_cases hm : m < base
      · rw [Nat.toDigits_of_lt_base hm, Nat.toDigits_of_base_le hone (Nat.le_of_not_lt hn)] at h
        exact absurd h.symm hlong
      · rw [Nat.toDigits_of_base_le hone (Nat.le_of_not_lt hn),
          Nat.toDigits_of_base_le hone (Nat.le_of_not_lt hm)] at h
        obtain ⟨hfront, hend⟩ := append_inj' h rfl
        have hdiv := ih (n / base) (Nat.div_lt_self (by omega) hone) hfront
        have hmod := digitChar_injOn ((Nat.mod_lt n hpos).trans_le hsixteen)
          ((Nat.mod_lt m hpos).trans_le hsixteen) (cons.inj hend).1
        rw [← Nat.div_add_mod n base, ← Nat.div_add_mod m base, hdiv, hmod]

end

theorem intercalate_injective {α : Type*} [DecidableEq α] {c : α} {l m : List (List α)}
    (hl : ∀ part ∈ l, part ≠ [] ∧ c ∉ part) (hm : ∀ part ∈ m, part ≠ [] ∧ c ∉ part)
    (h : [c].intercalate l = [c].intercalate m) : l = m := by
  have hsplit : ∀ {parts : List (List α)}, parts ≠ [] → (∀ part ∈ parts, part ≠ [] ∧ c ∉ part) →
      ([c].intercalate parts).splitOn c = parts := fun hne hparts =>
    splitOn_intercalate c (fun part hpart => (hparts part hpart).2) hne
  have hempty : ∀ {parts : List (List α)}, (∀ part ∈ parts, part ≠ [] ∧ c ∉ part) →
      [c].intercalate parts = [] → parts = [] := by
    intro parts hparts hnil
    by_contra hne
    have hread := hsplit hne hparts
    rw [hnil, splitOn_nil] at hread
    exact (hparts [] (hread ▸ mem_cons_self)).1 rfl
  by_cases hnil : l = []
  · subst hnil
    exact (hempty hm (h.symm.trans intercalate_nil)).symm
  · by_cases hnil' : m = []
    · subst hnil'
      exact hempty hl (h.trans intercalate_nil)
    · rw [← hsplit hnil hl, ← hsplit hnil' hm, h]

end CodeLib
