import BridgeMcp.Lib.Regex
import BridgeMcp.Lib.TextScan

/-!
Replacement as a scan. A `Scanner` says what is left of a text after a match at its start; `subst`
puts the replacement in the place of each match, from the left. Where the preferred match of a
pattern is that of a scanner, replacing its matches is `subst`.
-/
namespace RegexLib
open TextLib List Option

structure Scanner where
  next : Text → Option Text
  reads : ∀ s rest, next s = some rest → ∃ m, m ≠ [] ∧ s = m ++ rest

namespace Scanner

variable (k : Scanner) (new : Text)

theorem shortens {s rest : Text} (h : k.next s = some rest) : rest.length < s.length := by
  obtain ⟨m, hne, rfl⟩ := k.reads s rest h
  have := length_pos_of_ne_nil hne
  rw [length_append]
  omega

def substFrom : ℕ → Text → Text
  | 0, s => s
  | _ + 1, [] => []
  | n + 1, c :: s =>
    match k.next (c :: s) with
    | none => c :: substFrom n s
    | some rest => new ++ substFrom n rest

def subst (s : Text) : Text := k.substFrom new s.length s

theorem substFrom_eq {n m : ℕ} {s : Text} (hn : s.length ≤ n) (hm : s.length ≤ m) :
    k.substFrom new n s = k.substFrom new m s := by
  induction n generalizing m s with
  | zero =>
    obtain rfl := length_eq_zero_iff.mp (Nat.le_zero.mp hn)
    cases m <;> rfl
  | succ n ih =>
    cases s with
    | nil => cases m <;> rfl
    | cons c s =>
      obtain ⟨m, rfl⟩ : ∃ k, m = k + 1 := ⟨m - 1, by rw [length_cons] at hm; omega⟩
      rw [length_cons] at hn hm
      rw [substFrom, substFrom]
      cases hnext : k.next (c :: s) with
      | none => simp only [ih (Nat.le_of_succ_le_succ hn) (Nat.le_of_succ_le_succ hm)]
      | some rest =>
        have hshort := k.shortens hnext
        rw [length_cons] at hshort
        have hrest := ih (s := rest) (m := m) (by omega) (by omega)
        simp only [hrest]

theorem subst_char {c : Char} {s : Text} (h : k.next (c :: s) = none) :
    k.subst new (c :: s) = c :: k.subst new s := by
  rw [subst, length_cons, substFrom, h]
  rfl

theorem subst_skip {s rest : Text} (h : k.next s = some rest) :
    k.subst new s = new ++ k.subst new rest := by
  have hshort := k.shortens h
  cases s with
  | nil => cases hshort
  | cons c s =>
    rw [subst, length_cons, substFrom, h]
    exact congrArg (new ++ ·) (k.substFrom_eq new (Nat.le_of_lt_succ hshort) le_rfl)

/-- The scan goes from the start of `p` to its end, with `rest` after it, and leaves `v` for it. -/
inductive Reads (rest : Text) : Text → Text → Prop where
  | nil : Reads rest [] []
  | char {c : Char} {p v : Text} : k.next (c :: (p ++ rest)) = none → Reads rest p v →
      Reads rest (c :: p) (c :: v)
  | skip {m p v : Text} : m ≠ [] → k.next (m ++ (p ++ rest)) = some (p ++ rest) →
      Reads rest p v → Reads rest (m ++ p) (new ++ v)

variable {k new} {rest p q v w : Text}

theorem Reads.subst (h : k.Reads new rest p v) :
    k.subst new (p ++ rest) = v ++ k.subst new rest := by
  induction h with
  | nil => rfl
  | char hnone _ ih => rw [cons_append, k.subst_char new hnone, ih, cons_append]
  | skip _ hsome _ ih => rw [append_assoc, k.subst_skip new hsome, ih, append_assoc]

theorem Reads.append (hp : k.Reads new (q ++ rest) p v) (hq : k.Reads new rest q w) :
    k.Reads new rest (p ++ q) (v ++ w) := by
  induction hp with
  | nil => exact hq
  | char hnone _ ih =>
    rw [cons_append, cons_append]
    exact .char (by rwa [append_assoc]) ih
  | skip hne hsome _ ih =>
    rw [append_assoc, append_assoc]
    exact .skip hne (by rwa [append_assoc]) ih

theorem Reads.eq_nil (h : k.Reads new rest p []) (hnew : new ≠ []) : p = [] := by
  generalize hv : ([] : Text) = v at h
  cases h with
  | nil => rfl
  | char => cases hv
  | skip => exact absurd (append_eq_nil_iff.mp hv.symm).1 hnew

theorem Reads.getLast {P : Char → Prop} (h : k.Reads new rest p v) (hnew : new ≠ [])
    (hlast : ∀ c ∈ new.getLast?, P c) (hp : ∀ c ∈ p.getLast?, P c) : ∀ c ∈ v.getLast?, P c := by
  induction h with
  | nil => exact hp
  | @char c p v _ hread ih =>
    cases v with
    | nil =>
      obtain rfl := hread.eq_nil hnew
      exact hp
    | cons d v =>
      rw [getLast?_cons_cons]
      apply ih
      cases p with
      | nil => nofun
      | cons e p => rwa [getLast?_cons_cons] at hp
  | @skip m p v hne _ hread ih =>
    cases v with
    | nil => rwa [append_nil]
    | cons d v =>
      rw [getLast?_append_cons]
      apply ih
      cases p with
      | nil => nofun
      | cons e p => rwa [getLast?_append_cons] at hp

theorem subst_head {P : Char → Prop} (hnew : ∀ c ∈ new.head?, P c) (hne : new ≠ [])
    (hp : ∀ c ∈ p.head?, P c) : ∀ c ∈ (k.subst new p).head?, P c := by
  cases p with
  | nil => nofun
  | cons d p =>
    cases hnext : k.next (d :: p) with
    | none =>
      rw [k.subst_char new hnext]
      exact hp
    | some rest =>
      rw [k.subst_skip new hnext, head?_append_of_ne_nil _ hne]
      exact hnew

/-- The scan goes over `p` and leaves only characters of `P` for it. -/
def Leaves (k : Scanner) (new : Text) (P : Char → Prop) (p rest : Text) : Prop :=
  ∃ v, k.Reads new rest p v ∧ ∀ c ∈ v, P c

end Scanner

section
variable {u : Unicode} {r : Regex} {k : Scanner}

/-- The preferred match of the pattern, at any place, is that of the scanner. -/
def Scans (u : Unicode) (r : Regex) (k : Scanner) : Prop :=
  ∀ before after, (matchAt u r before after).map Thread.after = k.next after

theorem replaceMatchesFrom_eq_subst (h : Scans u r k) (new : Text) (n : ℕ) (before after : Text)
    (hn : after.length ≤ n) :
    replaceMatchesFrom u r (fun _ => new) n before after = k.subst new after := by
  induction n generalizing before after with
  | zero =>
    obtain rfl := length_eq_zero_iff.mp (Nat.le_zero.mp hn)
    rfl
  | succ n ih =>
    cases after with
    | nil => rfl
    | cons c rest =>
      rw [length_cons] at hn
      have hnext := h before (c :: rest)
      rw [replaceMatchesFrom]
      cases hmatch : matchAt u r before (c :: rest) with
      | none =>
        rw [hmatch, map_none] at hnext
        rw [k.subst_char new hnext.symm]
        simp only [ih (c :: before) rest (Nat.le_of_succ_le_succ hn)]
      | some t =>
        rw [hmatch, map_some] at hnext
        have hshort := k.shortens hnext.symm
        rw [length_cons] at hshort
        rw [k.subst_skip new hnext.symm]
        simp only [if_pos hshort, ih t.before t.after (by omega)]

theorem replaceAllWith_eq_subst (h : Scans u r k) (new text : Text) :
    replaceAllWith u r (fun _ => new) text = k.subst new text :=
  replaceMatchesFrom_eq_subst h new text.length [] text le_rfl

end

section
variable (u : Unicode)

def firstRest (r : Regex) (s : Thread) : Option Text := (runs u r s).head?.map Thread.after

variable {u} {a b r : Regex} {s t : Thread}

theorem firstRest_alt : firstRest u (.alt a b) s = (firstRest u a s).or (firstRest u b s) := by
  rw [firstRest, runs, head?_append, map_or]
  rfl

theorem firstRest_cat (ha : (runs u a s).head? = some t) (hb : runs u b t ≠ []) :
    firstRest u (.cat a b) s = firstRest u b t := by
  obtain ⟨ts, hts⟩ : ∃ ts, runs u a s = t :: ts := by
    cases hruns : runs u a s with
    | nil => rw [hruns] at ha; cases ha
    | cons t' ts =>
      rw [hruns, head?_cons, some.injEq] at ha
      exact ⟨ts, by rw [ha]⟩
  rw [firstRest, runs, hts, flatMap_cons, head?_append_of_ne_nil _ hb, firstRest]

theorem runs_cat_eps : runs u (.cat r .eps) s = runs u r s := by
  rw [runs]
  exact flatMap_singleton' _

theorem ClassItem.has_single (c d : Char) : (ClassItem.range c c).has u d = (d == c) := by
  rw [ClassItem.has, ← Bool.decide_and]
  by_cases hd : d = c
  · simp [hd]
  · have hout : ¬ (c.toNat ≤ d.toNat ∧ d.toNat ≤ c.toNat) := by
      intro h
      exact hd (Char.toNat_inj.mp (Nat.le_antisymm h.2 h.1))
    simp [hout, hd]

theorem runs_chr (c : Char) :
    runs u (chr false c) s =
      if [c] <+: s.after then [⟨c :: s.before, s.after.drop 1, s.caps⟩] else [] := by
  rw [chr, oneOf, runs]
  cases s.after with
  | nil => rfl
  | cons d rest =>
    by_cases hd : d = c
    · simp [CharClass.has, ClassItem.has_single, hd]
    · simp [CharClass.has, ClassItem.has_single, hd, Ne.symm hd]

theorem runs_word (cs : Text) (s : Thread) :
    runs u (cs.foldr (fun c r => .cat (chr false c) r) .eps) s =
      if cs <+: s.after then [⟨cs.reverse ++ s.before, s.after.drop cs.length, s.caps⟩] else [] := by
  induction cs generalizing s with
  | nil => simp [runs]
  | cons c cs ih =>
    obtain ⟨before, after, caps⟩ := s
    rw [foldr_cons, runs, runs_chr]
    cases after with
    | nil => simp
    | cons d rest =>
      by_cases hd : c = d
      · subst hd
        simp [ih, cons_prefix_cons]
      · simp [cons_prefix_cons, hd]

theorem runs_lit (w : String) (s : Thread) :
    runs u (lit false w) s =
      if w.toList <+: s.after then
        [⟨w.toList.reverse ++ s.before, s.after.drop w.toList.length, s.caps⟩]
      else [] :=
  runs_word w.toList s

theorem firstRest_lit (w : String) (s : Thread) :
    firstRest u (.cat (lit false w) r) s =
      if w.toList <+: s.after then
        firstRest u r ⟨w.toList.reverse ++ s.before, s.after.drop w.toList.length, s.caps⟩
      else none := by
  rw [firstRest, runs, runs_lit]
  split
  · rw [flatMap_singleton, firstRest]
  · rfl

theorem firstRest_eps : firstRest u (.cat r .eps) s = firstRest u r s := by
  rw [firstRest, runs_cat_eps, firstRest]

theorem firstRest_cat_eps : firstRest u (.cat a (.cat r .eps)) s = firstRest u (.cat a r) s := by
  have heps : runs u (.cat r .eps) = runs u r := by
    funext s
    exact runs_cat_eps
  rw [firstRest, runs, heps, firstRest, runs]

theorem runs_opt :
    runs u (opt r) s = ((runs u r s).filter fun t => t.after.length < s.after.length) ++ [s] := by
  rw [opt, runs, times, flatMap_singleton]
  exact congrArg (· ++ [s]) (flatMap_singleton' _)

theorem upTo_class (c : CharClass) (greedy : Bool) (before after : Text) (caps : List (ℕ × Text)) :
    upTo (runs u (.cls c)) greedy after.length ⟨before, after, caps⟩ =
      match after with
      | [] => [⟨before, [], caps⟩]
      | d :: rest =>
        let more := if c.has u d then
            upTo (runs u (.cls c)) greedy rest.length ⟨d :: before, rest, caps⟩
          else []
        if greedy then more ++ [⟨before, after, caps⟩] else ⟨before, after, caps⟩ :: more := by
  cases after with
  | nil => rfl
  | cons d rest =>
    by_cases hd : c.has u d = true
    · simp [upTo, runs, hd]
    · simp [upTo, runs, hd]

theorem firstRest_until (c : CharClass) (hall : ∀ d, c.has u d = true) (needle : String)
    (before after : Text) (caps : List (ℕ × Text)) :
    firstRest u (.cat (lazyStar (.cls c)) (lit false needle)) ⟨before, after, caps⟩ =
      (splitFirst needle.toList after).map Prod.snd := by
  rw [firstRest, runs, lazyStar, runs, times, flatMap_singleton]
  dsimp only [elim_none]
  induction after generalizing before with
  | nil =>
    rw [upTo_class]
    by_cases hneedle : needle.toList = []
    · simp [runs_lit, splitFirst, hneedle]
    · simp [runs_lit, splitFirst, hneedle]
  | cons d rest ih =>
    rw [upTo_class, splitFirst]
    simp only [hall, if_true, Bool.false_eq_true, if_false, flatMap_cons, runs_lit]
    by_cases hhere : needle.toList <+: d :: rest
    · simp [hhere]
    · rw [if_neg hhere, if_neg hhere, nil_append, ih (d :: before), Option.map_map]
      rfl

theorem firstRest_star (c : CharClass) (before after : Text) (caps : List (ℕ × Text)) :
    firstRest u (star (.cls c)) ⟨before, after, caps⟩ = some (after.dropWhile (c.has u)) := by
  rw [firstRest, star, runs, times, flatMap_singleton]
  dsimp only [elim_none]
  induction after generalizing before with
  | nil =>
    rw [upTo_class]
    rfl
  | cons d rest ih =>
    rw [upTo_class]
    by_cases hd : c.has u d = true
    · simp only [hd, if_true]
      have hhead := ih (d :: before)
      rw [map_eq_some_iff] at hhead
      obtain ⟨t, ht, hrest⟩ := hhead
      rw [head?_append, ht, dropWhile_cons_of_pos hd]
      exact congrArg some hrest
    · simp [hd, dropWhile_cons_of_neg]

end

end RegexLib
