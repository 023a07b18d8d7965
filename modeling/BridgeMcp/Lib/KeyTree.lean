import Mathlib.Data.List.Infix

/-!
Trees of keys, each with named values and with keys below it. A key is known by the names on its path.
-/
namespace KeyTree
open Option List

variable {N V : Type*}

/-- The values of each key that exists. The root exists, and so does the key above one that does. -/
structure Tree (N V : Type*) where
  key : List N → Option (N → Option V)
  root : (key []).isSome
  closed : ∀ path name, (key (path ++ [name])).isSome → (key path).isSome

theorem Tree.isSome_of_isPrefix (t : Tree N V) {above path : List N} (h : above <+: path)
    (hpath : (t.key path).isSome) : (t.key above).isSome := by
  obtain ⟨rest, rfl⟩ := h
  induction rest using reverseRecOn with
  | nil => rwa [append_nil] at hpath
  | append_singleton rest name ih =>
    rw [← append_assoc] at hpath
    exact ih (t.closed _ _ hpath)

variable [DecidableEq N]

/-- The key and the missing ones above it, without values. -/
def Tree.create (t : Tree N V) (path : List N) : Tree N V where
  key place := if place <+: path then some ((t.key place).getD fun _ => none) else t.key place
  root := by
    rw [if_pos List.nil_prefix]
    rfl
  closed := by
    intro above name h
    by_cases habove : above <+: path
    · rw [if_pos habove]
      rfl
    · have hname : ¬ above ++ [name] <+: path :=
        fun hpath => habove ((List.prefix_append _ _).trans hpath)
      rw [if_neg hname] at h
      rw [if_neg habove]
      exact t.closed above name h

/-- The key without its values and without the keys below it. -/
def Tree.clear (t : Tree N V) (path : List N) (hpath : (t.key path).isSome) : Tree N V where
  key place :=
    if place = path then some fun _ => none else if path <+: place then none else t.key place
  root := by
    split_ifs with heq hbelow
    · rfl
    · exact absurd (List.prefix_nil.mp hbelow).symm heq
    · exact t.root
  closed := by
    intro above name h
    by_cases heq : above = path
    · rw [if_pos heq]
      rfl
    by_cases hbelow : path <+: above
    · -- a key below the one that is cleared is gone
      have hname : path <+: above ++ [name] := hbelow.trans (List.prefix_append _ _)
      have hne : above ++ [name] ≠ path := by
        rintro rfl
        have hle := hbelow.length_le
        rw [length_append, length_singleton] at hle
        omega
      rw [if_neg hne, if_pos hname] at h
      cases h
    · rw [if_neg heq, if_neg hbelow]
      split_ifs at h with hlast hgone
      · exact t.closed above name (hlast ▸ hpath)
      · cases h
      · exact t.closed above name h

def Tree.put (t : Tree N V) (path : List N) (name : N) (value : V) : Tree N V where
  key place :=
    if place = path then (t.key place).map fun values => Function.update values name (some value)
    else t.key place
  root := by
    split_ifs
    · rw [isSome_map]
      exact t.root
    · exact t.root
  closed := by
    have hsame : ∀ place, (if place = path then
        (t.key place).map fun values => Function.update values name (some value)
        else t.key place).isSome = (t.key place).isSome := by
      intro place
      split_ifs
      · exact isSome_map
      · rfl
    intro above name h
    rw [hsame] at h ⊢
    exact t.closed above name h

/-- Nothing changed but one value; a key that was missing is there with those above it. -/
structure OnlySets (before after : Tree N V) (path : List N) (name : N) (value : V) : Prop where
  set : (after.key path).bind (· name) = some value
  others : ∀ other, other ≠ name → (after.key path).bind (· other) = (before.key path).bind (· other)
  kept : ∀ place, place ≠ path → (before.key place).isSome → after.key place = before.key place
  created : ∀ place, place ≠ path → before.key place = none →
    after.key place = if place <+: path then some fun _ => none else none

variable {t : Tree N V} {path : List N} {name : N} {value : V}

theorem onlySets_create (hmissing : t.key path = none) :
    OnlySets t ((t.create path).put path name value) path name value := by
  have hkey : ((t.create path).put path name value).key path =
      some (Function.update (fun _ => none) name (some value)) := by
    simp [Tree.put, Tree.create, hmissing]
  constructor
  · rw [hkey, bind_some, Function.update_self]
  · intro other hother
    rw [hkey, hmissing, bind_some, Function.update_of_ne hother, bind_none]
  · intro place hplace hsome
    obtain ⟨values, hvalues⟩ := isSome_iff_exists.mp hsome
    simp [Tree.put, Tree.create, hplace, hvalues]
  · intro place hplace hnone
    simp [Tree.put, Tree.create, hplace, hnone]

theorem onlySets_clear_iff (hpath : (t.key path).isSome) :
    OnlySets t ((t.clear path hpath).put path name value) path name value ↔
      (∀ other, other ≠ name → (t.key path).bind (· other) = none) ∧
        ∀ place, path <+: place → place ≠ path → t.key place = none := by
  have hkey : ((t.clear path hpath).put path name value).key path =
      some (Function.update (fun _ => none) name (some value)) := by
    simp [Tree.put, Tree.clear]
  have hbelow : ∀ place, path <+: place → place ≠ path →
      ((t.clear path hpath).put path name value).key place = none := by
    intro place hplace hne
    simp [Tree.put, Tree.clear, hplace, hne]
  have helsewhere : ∀ place, ¬ path <+: place →
      ((t.clear path hpath).put path name value).key place = t.key place := by
    intro place hplace
    have hne : place ≠ path := by
      rintro rfl
      exact hplace (List.prefix_refl _)
    simp [Tree.put, Tree.clear, hplace, hne]
  constructor
  · intro h
    constructor
    · intro other hother
      rw [← h.others other hother, hkey, bind_some, Function.update_of_ne hother]
    · intro place hplace hne
      by_contra hsome
      have hkept := h.kept place hne (isSome_iff_ne_none.mpr hsome)
      rw [hbelow place hplace hne] at hkept
      exact hsome hkept.symm
  · intro h
    constructor
    · rw [hkey, bind_some, Function.update_self]
    · intro other hother
      rw [hkey, h.1 other hother, bind_some, Function.update_of_ne hother]
    · intro place hne hsome
      by_cases hplace : path <+: place
      · rw [h.2 place hplace hne] at hsome
        cases hsome
      · exact helsewhere place hplace
    · intro place hne hnone
      -- nothing above a key that exists is missing
      have habove : ¬ place <+: path := by
        intro habove
        have hsome := t.isSome_of_isPrefix habove hpath
        rw [hnone] at hsome
        cases hsome
      rw [if_neg habove]
      by_cases hplace : path <+: place
      · exact hbelow place hplace hne
      · rw [helsewhere place hplace, hnone]

end KeyTree
