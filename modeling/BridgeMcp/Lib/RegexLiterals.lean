import Mathlib.Data.List.Forall2
import BridgeMcp.Lib.Regex

/-!
Which literals every match of a pattern must contain. `shapes` lists the words of a pattern of
bounded length up to ASCII case, with unknown characters left open; `covers` decides, from the
shapes of its parts, that every match contains one of the given literals.

With `ascii` set, the analysis is for texts without U+017F and U+212A only.
-/
namespace RegexLib
open TextLib List Bool Option

def lowerCode (c : Char) : ℕ :=
  bif Nat.ble 65 c.toNat && Nat.ble c.toNat 90 then c.toNat + 32 else c.toNat

def codes (s : Text) : List ℕ := s.map lowerCode

def startsAt : List ℕ → List ℕ → Bool
  | [], _ => true
  | _ :: _, [] => false
  | k :: ks, c :: cs => Nat.beq k c && startsAt ks cs

def occurs (k : List ℕ) : List ℕ → Bool
  | [] => k.isEmpty
  | c :: cs => startsAt k (c :: cs) || occurs k cs

/-- Search for literals up to ASCII case, as an automaton over them does it. -/
def hasLiteral (lits : List Text) (text : Text) : Bool :=
  lits.any fun k => occurs (codes k) (codes text)

theorem startsAt_iff {k s : List ℕ} : startsAt k s = true ↔ k <+: s := by
  induction k generalizing s with
  | nil => simp [startsAt]
  | cons a k ih =>
    cases s with
    | nil => simp [startsAt]
    | cons c s => simp [startsAt, ih, cons_prefix_cons]

theorem occurs_iff {k s : List ℕ} : occurs k s = true ↔ k <:+: s := by
  induction s with
  | nil => simp [occurs]
  | cons c s ih => rw [occurs, or_eq_true, startsAt_iff, ih, infix_cons_iff]

variable {text w k : Text} {lits : List Text}

theorem hasLiteral_iff :
    hasLiteral lits text = true ↔ ∃ k ∈ lits, codes k <:+: codes text := by
  simp [hasLiteral, occurs_iff]

theorem hasLiteral_mono (h : w <:+: text) (hw : hasLiteral lits w = true) :
    hasLiteral lits text = true := by
  obtain ⟨k, hk, hin⟩ := hasLiteral_iff.mp hw
  exact hasLiteral_iff.mpr ⟨k, hk, hin.trans (h.map lowerCode)⟩

/-- The characters outside ASCII that fold to an ASCII letter. -/
def foldsToAscii (c : Char) : Bool := c == '\u017F' || c == '\u212A'

def FoldFree (s : Text) : Prop := ∀ c ∈ s, foldsToAscii c = false

/-- Stands for an unknown character; no character has this code. -/
def openCode : ℕ := 0x110000

def Fits (w : Text) (shape : List ℕ) : Prop :=
  List.Forall₂ (fun c o => o = openCode ∨ o = lowerCode c) w shape

/-- The code of an item of one character. Unless `ascii` is set, a folded letter with a
representative outside ASCII is left open. -/
def ClassItem.known (ascii fold : Bool) : ClassItem → ℕ
  | .range lo hi =>
    bif Nat.beq lo.toNat hi.toNat &&
        (ascii || !fold || !(Nat.beq (lowerCode lo) 115 || Nat.beq (lowerCode lo) 107)) then
      lowerCode lo
    else openCode
  | _ => openCode

def CharClass.known (ascii : Bool) (k : CharClass) : List ℕ :=
  if k.negated then [openCode] else k.items.map (·.known ascii k.fold)

def products (xs ys : List (List ℕ)) : List (List ℕ) := xs.flatMap fun x => ys.map (x ++ ·)

def shapes (ascii : Bool) : Regex → Option (List (List ℕ))
  | .eps => some [[]]
  | .cls k => some ((k.known ascii).map fun o => [o])
  | .cat a b => (shapes ascii a).bind fun xs => (shapes ascii b).map (products xs)
  | .alt a b => (shapes ascii a).bind fun xs => (shapes ascii b).map (xs ++ ·)
  | .rep min max _ r =>
    if min = 0 ∧ max = some 1 then (shapes ascii r).map ([] :: ·) else none
  | .group _ r => shapes ascii r
  | .lineStart => some [[]]
  | .wordBoundary => some [[]]

/-- Every match contains one of the literals: by the shapes of the whole pattern if it has any, by
one of its parts otherwise. -/
def covers (lits : List Text) (ascii : Bool) (r : Regex) : Bool :=
  match shapes ascii r with
  | some ws => ws.all fun shape => lits.any fun k => occurs (codes k) shape
  | none =>
    match r with
    | .cat a b => covers lits ascii a || covers lits ascii b
    | .alt a b => covers lits ascii a && covers lits ascii b
    | .rep min _ _ r => decide (1 ≤ min) && covers lits ascii r
    | .group _ r => covers lits ascii r
    | _ => false

theorem FoldFree.within (h : FoldFree text) (hw : w <:+: text) : FoldFree w :=
  fun c hc => h c (hw.subset hc)

theorem foldKey_of_not_folds {c : Char} (h : foldsToAscii c = false) : foldKey c = c.toLower := by
  simp only [foldsToAscii, or_eq_false_iff, beq_eq_false_iff_ne, ne_eq] at h
  simp [foldKey, h.1, h.2]

theorem lowerCode_toLower (c : Char) : lowerCode c.toLower = lowerCode c :=
  ascii_case (P := fun c => lowerCode c.toLower = lowerCode c) (by decide)
    (fun c h _ => by rw [h]) c

theorem lowerCode_toUpper (c : Char) : lowerCode c.toUpper = lowerCode c :=
  ascii_case (P := fun c => lowerCode c.toUpper = lowerCode c) (by decide)
    (fun c _ h => by rw [h]) c

theorem lowerCode_ne_openCode (c : Char) : lowerCode c ≠ openCode := by
  have hvalid : c.toNat < 0x110000 := by
    rcases c.valid with h | h
    · exact Nat.lt_trans h (by decide)
    · exact h.2
  unfold lowerCode openCode
  cases hupper : Nat.ble 65 c.toNat && Nat.ble c.toNat 90 with
  | false => exact Nat.ne_of_lt hvalid
  | true =>
    simp only [and_eq_true, Nat.ble_eq] at hupper
    simp only [cond_true]
    omega

variable {u : Unicode} {ascii : Bool}

theorem item_known {fold : Bool} {i : ClassItem} {c d : Char} (hd : i.has u d = true)
    (hcd : d = c ∨ fold = true ∧ (d = foldKey c ∨ d = (foldKey c).toUpper))
    (hfree : ascii = true → foldsToAscii c = false) :
    i.known ascii fold = openCode ∨ i.known ascii fold = lowerCode c := by
  cases i with
  | digit => exact .inl rfl
  | space => exact .inl rfl
  | range lo hi =>
    rw [ClassItem.known]
    cases hsingle : Nat.beq lo.toNat hi.toNat &&
        (ascii || !fold || !(Nat.beq (lowerCode lo) 115 || Nat.beq (lowerCode lo) 107)) with
    | false => exact .inl rfl
    | true =>
      obtain ⟨hbeq, hstrict⟩ := and_eq_true _ _ ▸ hsingle
      have heq : lo.toNat = hi.toNat := Nat.eq_of_beq_eq_true hbeq
      simp only [ClassItem.has, and_eq_true, decide_eq_true_eq] at hd
      obtain rfl : d = lo := Char.toNat_inj.mp (by omega)
      right
      simp only [cond_true]
      rcases hcd with rfl | ⟨rfl, hfold⟩
      · rfl
      · have hkey : lowerCode d = lowerCode (foldKey c) := by
          rcases hfold with rfl | rfl
          · rfl
          · exact lowerCode_toUpper _
        by_cases hc : foldsToAscii c = false
        · rw [hkey, foldKey_of_not_folds hc, lowerCode_toLower]
        · -- A folded `s` or `k` is left open here.
          have hascii : ascii = false := by
            cases ascii with
            | false => rfl
            | true => exact absurd (hfree rfl) hc
          rw [hascii, hkey] at hstrict
          simp only [foldsToAscii, not_eq_false, or_eq_true, beq_iff_eq] at hc
          rcases hc with rfl | rfl
          · exact absurd hstrict (by decide)
          · exact absurd hstrict (by decide)

theorem class_known {k : CharClass} {c : Char} (hc : k.has u c = true)
    (hfree : ascii = true → foldsToAscii c = false) :
    ∃ o ∈ k.known ascii, o = openCode ∨ o = lowerCode c := by
  unfold CharClass.known
  split
  · exact ⟨openCode, by simp, .inl rfl⟩
  · rename_i hplain
    simp only [CharClass.has, hplain, bne_iff_ne, ne_eq, Bool.not_eq_false, Bool.or_eq_true,
      Bool.and_eq_true, List.any_eq_true] at hc
    have hitem : ∃ i ∈ k.items, ∃ d, i.has u d = true ∧
        (d = c ∨ k.fold = true ∧ (d = foldKey c ∨ d = (foldKey c).toUpper)) := by
      rcases hc with ⟨i, hi, hd⟩ | ⟨hf, ⟨i, hi, hd⟩ | ⟨i, hi, hd⟩⟩
      · exact ⟨i, hi, c, hd, .inl rfl⟩
      · exact ⟨i, hi, _, hd, .inr ⟨hf, .inl rfl⟩⟩
      · exact ⟨i, hi, _, hd, .inr ⟨hf, .inr rfl⟩⟩
    obtain ⟨i, hi, d, hd, hcd⟩ := hitem
    exact ⟨_, mem_map_of_mem hi, item_known hd hcd hfree⟩

theorem shapes_sound {r : Regex} {ws : List (List ℕ)} (hr : shapes ascii r = some ws)
    (hw : Lang u r w) (hfree : ascii = true → FoldFree w) :
    ∃ shape ∈ ws, Fits w shape := by
  induction r generalizing ws w with
  | eps =>
    obtain rfl : w = [] := hw
    obtain rfl := some.inj hr
    exact ⟨[], by simp, .nil⟩
  | cls k =>
    obtain ⟨c, hc, rfl⟩ := hw
    obtain rfl := some.inj hr
    obtain ⟨o, ho, hknown⟩ := class_known hc fun h => hfree h c (by simp)
    exact ⟨[o], mem_map.mpr ⟨o, ho, rfl⟩, .cons hknown .nil⟩
  | cat a b iha ihb =>
    obtain ⟨x, y, hx, hy, rfl⟩ := hw
    obtain ⟨xs, hxs, hrest⟩ := bind_eq_some_iff.mp hr
    obtain ⟨ys, hys, rfl⟩ := map_eq_some_iff.mp hrest
    obtain ⟨p, hp, hxp⟩ := iha hxs hx fun h => (hfree h).within ⟨[], y, rfl⟩
    obtain ⟨q, hq, hyq⟩ := ihb hys hy fun h => (hfree h).within ⟨x, [], by simp⟩
    exact ⟨p ++ q, mem_flatMap.mpr ⟨p, hp, mem_map.mpr ⟨q, hq, rfl⟩⟩,
      rel_append hxp hyq⟩
  | alt a b iha ihb =>
    obtain ⟨xs, hxs, hrest⟩ := bind_eq_some_iff.mp hr
    obtain ⟨ys, hys, rfl⟩ := map_eq_some_iff.mp hrest
    rcases hw with hleft | hright
    · obtain ⟨p, hp, hfit⟩ := iha hxs hleft hfree
      exact ⟨p, mem_append_left _ hp, hfit⟩
    · obtain ⟨p, hp, hfit⟩ := ihb hys hright hfree
      exact ⟨p, mem_append_right _ hp, hfit⟩
  | rep min max greedy r ih =>
    obtain ⟨xs, hall, -, hmax, rfl⟩ := hw
    rw [shapes] at hr
    split at hr
    · rename_i honce
      obtain ⟨rfl, rfl⟩ := honce
      obtain ⟨ys, hys, rfl⟩ := map_eq_some_iff.mp hr
      -- At most one iteration.
      match xs, hmax 1 rfl with
      | [], _ => exact ⟨[], by simp, .nil⟩
      | [x], _ =>
        obtain ⟨p, hp, hfit⟩ := ih hys (hall x (by simp)) (by simpa using hfree)
        exact ⟨p, mem_cons_of_mem _ hp, by simpa using hfit⟩
    · cases hr
  | group n r ih => exact ih hr hw hfree
  | lineStart =>
    obtain rfl : w = [] := hw
    obtain rfl := some.inj hr
    exact ⟨[], by simp, .nil⟩
  | wordBoundary =>
    obtain rfl : w = [] := hw
    obtain rfl := some.inj hr
    exact ⟨[], by simp, .nil⟩

theorem Fits.codes_eq (h : Fits w (codes k)) : codes w = codes k := by
  have hpoint : List.Forall₂ (fun c d => lowerCode c = lowerCode d) w k := by
    refine (forall₂_map_right_iff.mp h).imp ?_
    rintro c d (hopen | hknown)
    · exact absurd hopen (lowerCode_ne_openCode d)
    · exact hknown.symm
  rw [codes, codes, ← forall₂_eq_eq_eq]
  exact forall₂_map_left_iff.mpr (forall₂_map_right_iff.mpr hpoint)

theorem Fits.hasLiteral {shape : List ℕ} (h : Fits w shape) (hk : k ∈ lits)
    (hin : codes k <:+: shape) : hasLiteral lits w = true := by
  obtain ⟨a, b, rfl⟩ := hin
  rw [append_assoc] at h
  have hmid := forall₂_take_append _ _ _ (forall₂_drop_append _ _ _ h)
  refine hasLiteral_iff.mpr ⟨k, hk, ?_⟩
  rw [← Fits.codes_eq hmid]
  exact ((List.take_prefix _ _).isInfix.trans (drop_suffix _ _).isInfix).map lowerCode

theorem covers_sound {u : Unicode} {lits : List Text} {ascii : Bool} {r : Regex} {w : Text}
    (hr : covers lits ascii r = true) (hw : Lang u r w) (hfree : ascii = true → FoldFree w) :
    hasLiteral lits w = true := by
  cases hws : shapes ascii r with
  | some ws =>
    rw [covers.eq_def, hws] at hr
    obtain ⟨shape, hmem, hfit⟩ := shapes_sound hws hw hfree
    obtain ⟨k, hk, hin⟩ := any_eq_true.mp (all_eq_true.mp hr shape hmem)
    exact hfit.hasLiteral hk (occurs_iff.mp hin)
  | none =>
    rw [covers.eq_def, hws] at hr
    cases r with
    | cat a b =>
      obtain ⟨x, y, hx, hy, rfl⟩ := hw
      have hxin : x <:+: x ++ y := ⟨[], y, rfl⟩
      have hyin : y <:+: x ++ y := ⟨x, [], by simp⟩
      rcases or_eq_true _ _ ▸ hr with hleft | hright
      · exact hasLiteral_mono hxin (covers_sound hleft hx fun h => (hfree h).within hxin)
      · exact hasLiteral_mono hyin (covers_sound hright hy fun h => (hfree h).within hyin)
    | alt a b =>
      obtain ⟨ha, hb⟩ := and_eq_true _ _ ▸ hr
      rcases hw with hleft | hright
      · exact covers_sound ha hleft hfree
      · exact covers_sound hb hright hfree
    | rep min max greedy r =>
      obtain ⟨xs, hall, hmin, -, rfl⟩ := hw
      obtain ⟨hpos, hbody⟩ := and_eq_true _ _ ▸ hr
      cases xs with
      | nil => exact absurd hmin (Nat.not_le.mpr (of_decide_eq_true hpos))
      | cons x xs =>
        have hxin : x <:+: (x :: xs).flatten := ⟨[], xs.flatten, by simp⟩
        exact hasLiteral_mono hxin
          (covers_sound hbody (hall x (by simp)) fun h => (hfree h).within hxin)
    | group n r => exact covers_sound hr hw hfree
    | eps => cases hr
    | cls k => cases hr
    | lineStart => cases hr
    | wordBoundary => cases hr

theorem isMatch_hasLiteral {r : Regex} (hr : covers lits ascii r = true)
    (h : isMatch u r text = true) (hfree : ascii = true → FoldFree text) :
    hasLiteral lits text = true := by
  obtain ⟨w, hin, hw⟩ := isMatch_lang h
  exact hasLiteral_mono hin (covers_sound hr hw fun ha => (hfree ha).within hin)

end RegexLib
