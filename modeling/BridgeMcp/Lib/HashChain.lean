import Mathlib.Data.List.Infix

/-!
Hash chains. Each value is computed from the one before it and an item.
-/
namespace HashChain
open List

variable {α β : Type*}

def hashes (link : α → β → α) : α → List β → List α
  | _, [] => []
  | h, b :: bs => link h b :: hashes link (link h b) bs

variable (link : α → β → α)

theorem hashes_length (h : α) (items : List β) :
    (hashes link h items).length = items.length := by
  induction items generalizing h with
  | nil => rfl
  | cons b items ih => rw [hashes, length_cons, ih, length_cons]

theorem hashes_append (h : α) (xs ys : List β) :
    hashes link h (xs ++ ys) = hashes link h xs ++ hashes link (xs.foldl link h) ys := by
  induction xs generalizing h with
  | nil => rfl
  | cons b xs ih => rw [cons_append, hashes, ih, hashes, cons_append, foldl_cons]

theorem mem_hashes {link : α → β → α} {h value : α} {items : List β}
    (hvalue : value ∈ hashes link h items) :
    ∃ start, start <+: items ∧ start.foldl link h = value := by
  induction items generalizing h with
  | nil => cases hvalue
  | cons b items ih =>
    rcases mem_cons.mp hvalue with rfl | hvalue
    · exact ⟨[b], ⟨items, rfl⟩, rfl⟩
    · obtain ⟨start, hstart, rfl⟩ := ih hvalue
      exact ⟨b :: start, List.cons_prefix_cons.mpr ⟨rfl, hstart⟩, rfl⟩

theorem foldl_mem_hashes (h : α) {items : List β} (hne : items ≠ []) :
    items.foldl link h ∈ hashes link h items := by
  induction items generalizing h with
  | nil => exact absurd rfl hne
  | cons b items ih =>
    cases items with
    | nil => exact mem_singleton.mpr rfl
    | cons c items => exact mem_cons_of_mem _ (ih (link h b) (by simp))

/-- The link is injective on the values it is applied to, and no item leads back to the seed. -/
structure Binding (link : α → β → α) (seed : α) (Prior : α → Prop) (Item : β → Prop) : Prop where
  prior_seed : Prior seed
  prior_link : ∀ h b, Prior (link h b)
  injective : ∀ h h' b b', Prior h → Prior h' → link h b = link h' b' → h = h' ∧ b = b'
  fresh : ∀ h b, Prior h → Item b → link h b ≠ seed

namespace Binding

variable {link : α → β → α} {seed : α} {Prior : α → Prop} {Item : β → Prop}

theorem prior_foldl (B : Binding link seed Prior Item) (items : List β) :
    Prior (items.foldl link seed) := by
  induction items using reverseRecOn with
  | nil => exact B.prior_seed
  | append_singleton items b _ =>
    rw [foldl_append]
    exact B.prior_link _ b

theorem foldl_injective (B : Binding link seed Prior Item) {xs ys : List β}
    (hx : ∀ b ∈ xs, Item b) (hy : ∀ b ∈ ys, Item b)
    (h : xs.foldl link seed = ys.foldl link seed) : xs = ys := by
  induction xs using reverseRecOn generalizing ys with
  | nil =>
    induction ys using reverseRecOn with
    | nil => rfl
    | append_singleton ys c _ =>
      rw [foldl_append] at h
      exact absurd h.symm (B.fresh _ c (B.prior_foldl ys) (hy c (by simp)))
  | append_singleton xs b ih =>
    induction ys using reverseRecOn with
    | nil =>
      rw [foldl_append] at h
      exact absurd h (B.fresh _ b (B.prior_foldl xs) (hx b (by simp)))
    | append_singleton ys c _ =>
      rw [foldl_append, foldl_append] at h
      obtain ⟨hends, rfl⟩ := B.injective _ _ b c (B.prior_foldl xs) (B.prior_foldl ys) h
      rw [ih (fun b hb => hx b (by simp [hb])) (fun b hb => hy b (by simp [hb])) hends]

theorem isPrefix_of_mem_hashes (B : Binding link seed Prior Item) {xs ys : List β}
    (hx : ∀ b ∈ xs, Item b) (hy : ∀ b ∈ ys, Item b)
    (h : xs.foldl link seed ∈ hashes link seed ys) : xs <+: ys := by
  obtain ⟨start, hstart, hends⟩ := mem_hashes h
  have hitems : ∀ b ∈ start, Item b := fun b hb => hy b (hstart.subset hb)
  rw [B.foldl_injective hx hitems hends.symm]
  exact hstart

end Binding

end HashChain
