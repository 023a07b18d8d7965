import BridgeMcp.Lib.TextScan
import BridgeMcp.Security.Sanitizer

/-!
Masking of the configured credentials (tier 0 of `Sanitizer::sanitize`): replacing the
leftmost-longest matches leaves no registered secret, however the secrets overlap.
-/
namespace BridgeMcp.Security
open TextLib List

def maskInterior : Text := "KNOWN_SECRET_REDACTED"

def maskMarker : Text := "[KNOWN_SECRET_REDACTED]"

theorem maskMarker_append (s : Text) : maskMarker ++ s = '[' :: (maskInterior ++ ']' :: s) := rfl

theorem foldl_longest_none {text : Text} {lits : List Text} {best : Option Text}
    (h : lits.foldl (fun best k =>
      if k.isPrefixOf text && best.all (fun b => b.length < k.length) then some k else best) best =
        none) :
    best = none ∧ ∀ k ∈ lits, ¬ k <+: text := by
  induction lits generalizing best with
  | nil => exact ⟨h, nofun⟩
  | cons k lits ih =>
    rw [foldl_cons] at h
    obtain ⟨hbest, hrest⟩ := ih h
    split at hbest
    · cases hbest
    · next hmiss =>
        subst hbest
        refine ⟨rfl, ?_⟩
        intro k' hk'
        rcases mem_cons.mp hk' with rfl | hk'
        · intro hprefix
          exact hmiss (by simpa using hprefix)
        · exact hrest k' hk'

theorem longestAt_none {text : Text} {lits : List Text} (h : longestAt lits text = none) :
    ∀ k ∈ lits, ¬ k <+: text :=
  (foldl_longest_none h).2

section Mask

variable {lits : List Text} {k : Text}

theorem prefix_of_prefix_maskFrom {s : Text} (hopen : '[' ∉ k)
    (h : k <+: maskFrom lits maskMarker 0 s) : k <+: s := by
  induction s generalizing k with
  | nil => exact h
  | cons c s ih =>
    cases k with
    | nil => exact nil_prefix
    | cons d k =>
      rw [maskFrom] at h
      cases hmatch : longestAt lits (c :: s) with
      | none =>
        rw [hmatch, cons_prefix_cons] at h
        exact cons_prefix_cons.mpr
          ⟨h.1, ih (fun hmem => hopen (mem_cons_of_mem _ hmem)) h.2⟩
      | some found =>
        rw [hmatch] at h
        simp only [maskMarker_append, cons_prefix_cons] at h
        exact absurd (h.1 ▸ mem_cons_self) hopen

theorem not_infix_maskFrom (hmem : k ∈ lits) (hne : k ≠ []) (hopen : '[' ∉ k) (hclose : ']' ∉ k)
    (hinterior : ¬ k <:+: maskInterior) (skip : ℕ) (s : Text) :
    ¬ k <:+: maskFrom lits maskMarker skip s := by
  induction s generalizing skip with
  | nil =>
    intro h
    exact hne (infix_nil.mp h)
  | cons c s ih =>
    cases skip with
    | succ skip => exact ih skip
    | zero =>
      rw [maskFrom]
      cases hmatch : longestAt lits (c :: s) with
      | none =>
        intro h
        rcases infix_cons_iff.mp h with hprefix | hinfix
        · have hhere : k <+: maskFrom lits maskMarker 0 (c :: s) := by
            rw [maskFrom, hmatch]
            exact hprefix
          exact longestAt_none hmatch k hmem (prefix_of_prefix_maskFrom hopen hhere)
        · exact ih 0 hinfix
      | some found =>
        simp only [maskMarker_append]
        intro h
        rcases infix_of_infix_append_cons hopen (show k <:+: [] ++ '[' :: _ from h) with
          hnil | hrest
        · exact hne (infix_nil.mp hnil)
        · rcases infix_of_infix_append_cons hclose hrest with hmarker | hafter
          · exact hinterior hmarker
          · exact ih _ hafter

end Mask

namespace Sanitizer

/-- After tier 0 no registered secret of at least eight bytes is left. -/
theorem known_secrets_masked (s : Sanitizer) (secrets : List Text) (text : Text)
    (hclean : ∀ k ∈ secrets, 8 ≤ utf8Len k →
      '[' ∉ k ∧ ']' ∉ k ∧ ¬ k <:+: "KNOWN_SECRET_REDACTED") :
    ∀ k ∈ secrets, 8 ≤ utf8Len k →
      ¬ k <:+: (s.withKnownSecrets secrets).maskKnownSecrets text := by
  intro k hk hlong
  obtain ⟨hopen, hclose, hinterior⟩ := hclean k hk hlong
  have hmem : k ∈ secrets.filter fun k => 8 ≤ utf8Len k :=
    mem_filter.mpr ⟨hk, decide_eq_true hlong⟩
  have hne : k ≠ [] := by
    rintro rfl
    exact absurd hlong (by decide)
  have hregistered : (secrets.filter fun k => 8 ≤ utf8Len k).isEmpty = false := by
    rw [isEmpty_eq_false_iff]
    exact ne_nil_of_mem hmem
  rw [maskKnownSecrets, withKnownSecrets]
  simp only [hregistered, Bool.false_eq_true, if_false]
  exact not_infix_maskFrom hmem hne hopen hclose hinterior 0 text

theorem known_secrets_masked_overlapping :
    let secrets := ["swordfish".toList, "swordfish1".toList, "fish1234".toList]
    let s := (Sanitizer.withDefaults none).withKnownSecrets secrets
    s.maskKnownSecrets "login swordfish1234".toList =
      "login [KNOWN_SECRET_REDACTED]234".toList ∧
    ∀ k ∈ secrets, ¬ k <:+: s.maskKnownSecrets "login swordfish1234".toList := by
  have hclean : ∀ k ∈ ["swordfish".toList, "swordfish1".toList, "fish1234".toList],
      8 ≤ utf8Len k ∧ '[' ∉ k ∧ ']' ∉ k ∧ ¬ k <:+: "KNOWN_SECRET_REDACTED".toList := by
    decide +kernel
  refine ⟨by decide +kernel, ?_⟩
  intro k hk
  exact known_secrets_masked _ _ _ (fun k hk _ => (hclean k hk).2) k hk (hclean k hk).1

end Sanitizer

end BridgeMcp.Security
