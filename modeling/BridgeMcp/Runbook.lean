import BridgeMcp.Lib.Substitute
import BridgeMcp.Lib.TextScan
import Mathlib.Data.List.Perm.Subperm

/-!
The templates of runbook steps (`domain/runbook.rs`). The variables are a hash map, which is iterated
in no particular order; a template is filled in by one global replacement after the other.
-/
namespace BridgeMcp.Runbook
open TextLib TemplateLib List

/-- A variable in double braces, with or without a blank on each side. -/
structure Placeholder where
  key : Text
  spaced : Bool
  deriving DecidableEq

open Placeholder

def Placeholder.name (placeholder : Placeholder) : Text :=
  if placeholder.spaced then ' ' :: (placeholder.key ++ [' ']) else placeholder.key

def Placeholder.spelling (placeholder : Placeholder) : Text :=
  '{' :: '{' :: (placeholder.name ++ ['}', '}'])

/-- The variables come in the order of the iteration. -/
def applyTemplate (template : Text) (vars : List (Text × Text)) : Text :=
  vars.foldl (fun result entry =>
    let patterns : List Placeholder := [⟨entry.1, true⟩, ⟨entry.1, false⟩]
    patterns.foldl (fun result pattern => replaceAll pattern.spelling entry.2 result) result) template

structure Vars where
  entries : List (Text × Text)
  nodup : (entries.map Prod.fst).Nodup

def placeholders (entries : List (Text × Text)) : List Placeholder :=
  entries.flatMap fun entry => [⟨entry.1, true⟩, ⟨entry.1, false⟩]

def Vars.value (vars : Vars) (placeholder : Placeholder) : Text :=
  (vars.entries.lookup placeholder.key).getD []

def Vars.pieces (vars : Vars) (template : Text) : List (Piece Char Placeholder) :=
  parse spelling (placeholders vars.entries) template

/-- The template with the placeholders of some of the variables filled in. -/
def Vars.filled (vars : Vars) (done : List Placeholder) (template : Text) : Text :=
  fill spelling vars.value done (vars.pieces template)

/-- Each placeholder of the template is replaced once, and the values are left as they are. -/
def substitute (template : Text) (vars : Vars) : Text :=
  vars.filled (placeholders vars.entries) template

/-- With `done` filled in, the placeholders of `key` that the text has are the template's own. -/
structure Clear (template : Text) (vars : Vars) (done : List (Text × Text)) (key : Text) : Prop where
  spaced : Own spelling vars.value (placeholders done) ⟨key, true⟩ (vars.pieces template)
  tight : Own spelling vars.value (placeholders done ++ [⟨key, true⟩]) ⟨key, false⟩
    (vars.pieces template)

/-- Whichever variables have been filled in, no placeholder of another one has come up. -/
def Settled (template : Text) (vars : Vars) : Prop :=
  ∀ done entry, (done ++ [entry]).Subperm vars.entries → Clear template vars done entry.1

/-- The variables up to some point filled in the template's own placeholders; the next one finds
another place. -/
def Expands (template : Text) (vars : Vars) (order : List (Text × Text)) : Prop :=
  ∃ before entry after, order = before ++ entry :: after ∧
    applyTemplate template before = vars.filled (placeholders before) template ∧
    ¬ Clear template vars before entry.1

section
variable {template : Text} {vars : Vars} {order : List (Text × Text)}

theorem spelling_ne_nil (placeholder : Placeholder) : placeholder.spelling ≠ [] :=
  cons_ne_nil _ _

theorem filled_nil : vars.filled [] template = template :=
  fill_parse spelling_ne_nil _ _

variable {entry : Text × Text}

theorem value_of_mem (hentry : entry ∈ vars.entries) (spaced : Bool) :
    vars.value ⟨entry.1, spaced⟩ = entry.2 := by
  obtain ⟨front, back, hsplit⟩ := append_of_mem hentry
  have hnodup := vars.nodup
  rw [hsplit, map_append, map_cons] at hnodup
  have hlookup : vars.entries.lookup entry.1 = some entry.2 := by
    rw [lookup_eq_some_iff]
    refine ⟨front, back, hsplit, fun other hother => ?_⟩
    have hfirst := (nodup_append.mp hnodup).2.2 other.1 (mem_map_of_mem hother) entry.1
      mem_cons_self
    simpa using hfirst.symm
  rw [Vars.value, hlookup, Option.getD_some]

variable {placeholder : Placeholder}

theorem mem_placeholders {entries : List (Text × Text)} :
    placeholder ∈ placeholders entries ↔ placeholder.key ∈ entries.map Prod.fst := by
  obtain ⟨key, spaced⟩ := placeholder
  simp only [placeholders, mem_flatMap, mem_map, mem_cons, mk.injEq,
    not_mem_nil, or_false]
  constructor
  · rintro ⟨entry, hentry, ⟨rfl, -⟩ | ⟨rfl, -⟩⟩ <;> exact ⟨entry, hentry, rfl⟩
  · rintro ⟨entry, hentry, rfl⟩
    cases spaced with
    | true => exact ⟨entry, hentry, .inl ⟨rfl, rfl⟩⟩
    | false => exact ⟨entry, hentry, .inr ⟨rfl, rfl⟩⟩

theorem replace_entry {done : List (Text × Text)} (hentry : entry ∈ vars.entries)
    (hnew : entry.1 ∉ done.map Prod.fst) (hclear : Clear template vars done entry.1) :
    applyTemplate (vars.filled (placeholders done) template) [entry] =
      vars.filled (placeholders (done ++ [entry])) template := by
  have hspaced := replaceAll_fill (spelling_ne_nil _) (fun hmem => hnew (mem_placeholders.mp hmem))
    hclear.spaced
  have hfresh : (⟨entry.1, false⟩ : Placeholder) ∉ placeholders done ++ [⟨entry.1, true⟩] := by
    intro hmem
    cases mem_append.mp hmem with
    | inl hdone => exact hnew (mem_placeholders.mp hdone)
    | inr hsingle => cases mem_singleton.mp hsingle
  have htight := replaceAll_fill (spelling_ne_nil _) hfresh hclear.tight
  rw [value_of_mem hentry] at hspaced htight
  have hdone : placeholders (done ++ [entry]) =
      placeholders done ++ [⟨entry.1, true⟩] ++ [⟨entry.1, false⟩] := by
    rw [placeholders, flatMap_append, flatMap_singleton, append_assoc]
    rfl
  change replaceAll _ _ (replaceAll _ _ _) = _
  rw [hdone, Vars.filled, Vars.filled, hspaced, htight]

theorem applyTemplate_of_clear (hsub : ∀ entry ∈ order, entry ∈ vars.entries)
    (hnodup : (order.map Prod.fst).Nodup)
    (hclear : ∀ before entry after, order = before ++ entry :: after →
      Clear template vars before entry.1) :
    applyTemplate template order = vars.filled (placeholders order) template := by
  induction order using reverseRecOn with
  | nil => exact filled_nil.symm
  | append_singleton order entry ih =>
    obtain ⟨hsub, hentry⟩ := forall_mem_append.mp hsub
    rw [map_append, map_singleton] at hnodup
    obtain ⟨hnodup, -, hnew⟩ := nodup_append.mp hnodup
    have hrest := ih hsub hnodup fun before other after hsplit =>
      hclear before other (after ++ [entry]) (by rw [hsplit, append_assoc, cons_append])
    have happly : applyTemplate template (order ++ [entry]) =
        applyTemplate (applyTemplate template order) [entry] := foldl_append
    rw [happly, hrest]
    refine replace_entry (hentry entry (mem_singleton_self _)) (fun hmem => ?_)
      (hclear order entry [] rfl)
    exact hnew entry.1 hmem entry.1 (mem_singleton_self _) rfl

theorem filled_perm (hperm : order.Perm vars.entries) :
    vars.filled (placeholders order) template = substitute template vars := by
  refine fill_congr fun placeholder => ?_
  rw [mem_placeholders, mem_placeholders, (hperm.map Prod.fst).mem_iff]

theorem nodup_of_subperm (hsub : order.Subperm vars.entries) : (order.map Prod.fst).Nodup := by
  obtain ⟨sorted, hperm, hsublist⟩ := hsub
  exact (hperm.map Prod.fst).nodup_iff.mp (vars.nodup.sublist (hsublist.map Prod.fst))

theorem subperm_of_split {before after : List (Text × Text)}
    (hsplit : order = before ++ entry :: after) (hsub : order.Subperm vars.entries) :
    (before ++ [entry]).Subperm vars.entries := by
  rw [hsplit, append_cons] at hsub
  exact (sublist_append_left _ _).subperm.trans hsub

theorem exists_expands {done : List (Text × Text)} (hsub : (done ++ [entry]).Subperm vars.entries)
    (hclash : ¬ Clear template vars done entry.1) :
    ∃ order, order.Perm vars.entries ∧ Expands template vars order := by
  -- the shortest selection before which there is none
  induction hlength : done.length using Nat.strong_induction_on generalizing done entry with
  | _ n ih =>
    have hdone : done.Subperm vars.entries := (sublist_append_left _ _).subperm.trans hsub
    by_cases hearlier : ∀ before other after, done = before ++ other :: after →
        Clear template vars before other.1
    · have hrun := applyTemplate_of_clear (fun _ hmem => hdone.subset hmem)
        (nodup_of_subperm hdone) hearlier
      obtain ⟨selected, hselected, hsublist⟩ := hsub
      obtain ⟨rest, hrest⟩ := hsublist.exists_perm_append
      have hperm : (done ++ [entry] ++ rest).Perm vars.entries :=
        (hselected.symm.append_right rest).trans hrest.symm
      refine ⟨done ++ [entry] ++ rest, hperm, done, entry, rest, ?_, hrun, hclash⟩
      rw [append_assoc, singleton_append]
    · simp only [not_forall] at hearlier
      obtain ⟨before, other, after, hsplit, hother⟩ := hearlier
      have hshorter : before.length < n := by
        rw [← hlength, hsplit, length_append, length_cons]
        omega
      exact ih _ hshorter (subperm_of_split hsplit hdone) hother rfl

end

/-- Where the variables never bring up a placeholder of one another, every order of the iteration
gives the simultaneous substitution; and no order expands a placeholder that is not the template's own
exactly in that case. -/
theorem applyTemplate_of_settled (template : Text) (vars : Vars) :
    (Settled template vars → ∀ order : List (Text × Text), order.Perm vars.entries →
      applyTemplate template order = substitute template vars) ∧
    (Settled template vars ↔
      ∀ order : List (Text × Text), order.Perm vars.entries → ¬ Expands template vars order) := by
  refine ⟨fun hsettled order hperm => ?_, fun hsettled order hperm => ?_, fun hnone => ?_⟩
  · rw [← filled_perm hperm]
    refine applyTemplate_of_clear (fun _ hmem => hperm.subset hmem)
      (nodup_of_subperm hperm.subperm) fun before entry after hsplit => hsettled before entry ?_
    exact subperm_of_split hsplit hperm.subperm
  · rintro ⟨before, entry, after, hsplit, -, hclash⟩
    exact hclash (hsettled before entry (subperm_of_split hsplit hperm.subperm))
  · intro done entry hsub
    by_contra hclash
    obtain ⟨order, hperm, hexpands⟩ := exists_expands hsub hclash
    exact hnone order hperm hexpands

/-- The value of `a` is the placeholder of `b`: it is expanded if `a` comes first. -/
theorem value_expanded_again :
    let vars : Vars := ⟨[(['a'], "\x7b\x7b b \x7d\x7d"), (['b'], ['x'])], by decide⟩
    applyTemplate "\x7b\x7b a \x7d\x7d" vars.entries = ['x'] ∧
      applyTemplate "\x7b\x7b a \x7d\x7d" vars.entries.reverse =
        "\x7b\x7b b \x7d\x7d" ∧
      substitute "\x7b\x7b a \x7d\x7d" vars = "\x7b\x7b b \x7d\x7d" := by
  decide

end BridgeMcp.Runbook
