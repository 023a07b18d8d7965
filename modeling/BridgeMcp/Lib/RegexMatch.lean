import BridgeMcp.Lib.RegexLiterals
import BridgeMcp.Lib.Scanner

/-!
What a pattern can read at a place in a text, and that the matcher finds it. `Matches` says it by
recursion on the pattern, with the text on both sides in view of the assertions; a search succeeds
exactly where something can be read.
-/
namespace RegexLib
open TextLib List

def InTurn (M : Text → Text → Text → Prop) : Text → List Text → Text → Prop
  | _, [], _ => True
  | before, w :: ws, after =>
    M before w (ws.flatten ++ after) ∧ InTurn M (w.reverse ++ before) ws after

/-- The pattern can read `w` between `before`, last character first, and `after`. -/
def Matches (u : Unicode) : Regex → Text → Text → Text → Prop
  | .eps, _, w, _ => w = []
  | .cls k, _, w, _ => ∃ c, k.has u c = true ∧ w = [c]
  | .cat a b, before, w, after => ∃ x y, w = x ++ y ∧ Matches u a before x (y ++ after) ∧
      Matches u b (x.reverse ++ before) y after
  | .alt a b, before, w, after => Matches u a before w after ∨ Matches u b before w after
  | .rep min max _ r, before, w, after => ∃ xs ys : List Text, w = (xs ++ ys).flatten ∧
      xs.length = min ∧ (∀ y ∈ ys, y ≠ []) ∧ (∀ m, max = some m → ys.length ≤ m - min) ∧
      InTurn (Matches u r) before (xs ++ ys) after
  | .group _ r, before, w, after => Matches u r before w after
  | .lineStart, before, w, _ => w = [] ∧ before.head?.all (· == '\n') = true
  | .wordBoundary, before, w, after =>
    w = [] ∧ (before.head?.any u.word != after.head?.any u.word) = true

structure Thread.Reads (s : Thread) (w : Text) (t : Thread) : Prop where
  after : s.after = w ++ t.after
  before : t.before = w.reverse ++ s.before

theorem Thread.Reads.refl (s : Thread) : s.Reads [] s := ⟨rfl, rfl⟩

theorem Thread.Reads.trans {s t v : Thread} {x y : Text} (hx : s.Reads x t) (hy : t.Reads y v) :
    s.Reads (x ++ y) v where
  after := by rw [hx.after, hy.after, append_assoc]
  before := by rw [hy.before, hx.before, reverse_append, append_assoc]

theorem Thread.Reads.rest {s t : Thread} {w after : Text} (h : s.Reads w t)
    (hafter : s.after = w ++ after) : t.after = after :=
  append_cancel_left (h.after.symm.trans hafter)

def Finds (M : Text → Text → Text → Prop) (step : Thread → List Thread) : Prop :=
  ∀ s w after, s.after = w ++ after → M s.before w after → ∃ t ∈ step s, s.Reads w t

section
variable {M : Text → Text → Text → Prop} {step : Thread → List Thread}

theorem inTurn_append {before after : Text} {xs ys : List Text}
    (h : InTurn M before (xs ++ ys) after) :
    InTurn M before xs (ys.flatten ++ after) ∧
      InTurn M (xs.flatten.reverse ++ before) ys after := by
  induction xs generalizing before with
  | nil => exact ⟨trivial, h⟩
  | cons x xs ih =>
    rw [cons_append] at h
    obtain ⟨hx, hrest⟩ := h
    obtain ⟨hxs, hys⟩ := ih hrest
    refine ⟨⟨?_, hxs⟩, ?_⟩
    · rwa [flatten_append, append_assoc] at hx
    · rwa [flatten_cons, reverse_append, append_assoc]

theorem times_finds (h : Finds M step) {ws : List Text} {s : Thread} {after : Text}
    (hafter : s.after = ws.flatten ++ after) (hws : InTurn M s.before ws after) :
    ∃ t ∈ times step ws.length s, s.Reads ws.flatten t := by
  induction ws generalizing s with
  | nil => exact ⟨s, mem_singleton.mpr rfl, .refl s⟩
  | cons w ws ih =>
    obtain ⟨hw, hrest⟩ := hws
    rw [flatten_cons, append_assoc] at hafter
    obtain ⟨m, hm, hread⟩ := h s w _ hafter hw
    have hmid := hread.rest hafter
    obtain ⟨t, ht, hlater⟩ := ih hmid (hread.before ▸ hrest)
    exact ⟨t, mem_flatMap.mpr ⟨m, hm, ht⟩, hread.trans hlater⟩

theorem upTo_finds (h : Finds M step) (greedy : Bool) {ws : List Text} {n : ℕ} {s : Thread}
    {after : Text} (hlength : ws.length ≤ n) (hne : ∀ w ∈ ws, w ≠ [])
    (hafter : s.after = ws.flatten ++ after) (hws : InTurn M s.before ws after) :
    ∃ t ∈ upTo step greedy n s, s.Reads ws.flatten t := by
  induction ws generalizing s n with
  | nil =>
    refine ⟨s, ?_, .refl s⟩
    cases n with
    | zero => exact mem_singleton.mpr rfl
    | succ n => cases greedy <;> simp [upTo]
  | cons w ws ih =>
    obtain ⟨hw, hrest⟩ := hws
    rw [flatten_cons, append_assoc] at hafter
    obtain ⟨m, hm, hread⟩ := h s w _ hafter hw
    have hmid := hread.rest hafter
    obtain ⟨k, rfl⟩ : ∃ k, n = k + 1 := ⟨n - 1, by rw [length_cons] at hlength; omega⟩
    obtain ⟨t, ht, hlater⟩ := ih (Nat.le_of_succ_le_succ hlength)
      (fun w' hw' => hne w' (mem_cons_of_mem w hw')) hmid (hread.before ▸ hrest)
    -- the iteration reads something, so it is tried
    have hshorter : m.after.length < s.after.length := by
      have := length_pos_of_ne_nil (hne w mem_cons_self)
      rw [hread.after, length_append]
      omega
    have hmore : t ∈ ((step s).filter fun t => t.after.length < s.after.length).flatMap
        (upTo step greedy k) :=
      mem_flatMap.mpr ⟨m, mem_filter.mpr ⟨hm, by simpa using hshorter⟩, ht⟩
    refine ⟨t, ?_, hread.trans hlater⟩
    cases greedy with
    | true => exact mem_append_left _ hmore
    | false => exact mem_cons_of_mem _ hmore

end

theorem length_le_flatten {ws : List Text} (hne : ∀ w ∈ ws, w ≠ []) :
    ws.length ≤ ws.flatten.length := by
  induction ws with
  | nil => simp
  | cons w ws ih =>
    have hw := length_pos_of_ne_nil (hne w mem_cons_self)
    have hws := ih fun w' hw' => hne w' (mem_cons_of_mem w hw')
    rw [flatten_cons, length_append, length_cons]
    omega

theorem runs_finds (u : Unicode) (r : Regex) : Finds (Matches u r) (runs u r) := by
  induction r with
  | eps =>
    rintro s w after hafter rfl
    exact ⟨s, mem_singleton.mpr rfl, .refl s⟩
  | cls k =>
    rintro s w after hafter ⟨c, hc, rfl⟩
    refine ⟨⟨c :: s.before, after, s.caps⟩, ?_, hafter, rfl⟩
    rw [runs, hafter]
    simp [hc]
  | cat a b iha ihb =>
    rintro s w after hafter ⟨x, y, rfl, hx, hy⟩
    rw [append_assoc] at hafter
    obtain ⟨m, hm, hread⟩ := iha s x _ hafter hx
    have hmid := hread.rest hafter
    obtain ⟨t, ht, hlater⟩ := ihb m y after hmid (hread.before ▸ hy)
    exact ⟨t, mem_flatMap.mpr ⟨m, hm, ht⟩, hread.trans hlater⟩
  | alt a b iha ihb =>
    rintro s w after hafter (ha | hb)
    · obtain ⟨t, ht, hread⟩ := iha s w after hafter ha
      exact ⟨t, mem_append_left _ ht, hread⟩
    · obtain ⟨t, ht, hread⟩ := ihb s w after hafter hb
      exact ⟨t, mem_append_right _ ht, hread⟩
  | rep min max greedy r ih =>
    rintro s w after hafter ⟨xs, ys, rfl, hmin, hne, hmax, hturn⟩
    obtain ⟨hxs, hys⟩ := inTurn_append hturn
    rw [flatten_append, append_assoc] at hafter
    obtain ⟨m, hm, hread⟩ := times_finds ih hafter hxs
    have hmid := hread.rest hafter
    have hbound : ys.length ≤ max.elim m.after.length (· - min) := by
      cases max with
      | none =>
        have hlength := length_le_flatten hne
        rw [Option.elim_none, hmid, length_append]
        omega
      | some n => exact hmax n rfl
    obtain ⟨t, ht, hlater⟩ := upTo_finds ih greedy hbound hne hmid (hread.before ▸ hys)
    refine ⟨t, mem_flatMap.mpr ⟨m, hmin ▸ hm, ht⟩, ?_⟩
    rw [flatten_append]
    exact hread.trans hlater
  | group n r ih =>
    intro s w after hafter h
    obtain ⟨t, ht, hread⟩ := ih s w after hafter h
    exact ⟨_, mem_map.mpr ⟨t, ht, rfl⟩, hread.after, hread.before⟩
  | lineStart =>
    rintro s w after hafter ⟨rfl, hline⟩
    refine ⟨s, ?_, .refl s⟩
    rw [runs, if_pos hline]
    exact mem_singleton.mpr rfl
  | wordBoundary =>
    rintro s w after hafter ⟨rfl, hboundary⟩
    refine ⟨s, ?_, .refl s⟩
    obtain rfl : s.after = after := hafter
    rw [runs, if_pos hboundary]
    exact mem_singleton.mpr rfl

variable {r : Regex}

theorem isMatchFrom_of_matches {u : Unicode} {left w after before : Text}
    (h : Matches u r (left.reverse ++ before) w after) :
    isMatchFrom u r before (left ++ w ++ after) = true := by
  induction left generalizing before with
  | nil =>
    obtain ⟨t, ht, _⟩ := runs_finds u r ⟨before, w ++ after, []⟩ w after rfl h
    have hsome : (matchAt u r before (w ++ after)).isSome = true := by
      rw [matchAt, isSome_head?]
      exact ne_nil_of_mem ht
    rw [nil_append]
    cases hwa : w ++ after with
    | nil => rw [isMatchFrom, ← hwa, hsome]
    | cons c rest => rw [isMatchFrom, ← hwa, hsome, Bool.true_or]
  | cons c left ih =>
    rw [cons_append, cons_append, isMatchFrom, Bool.or_eq_true]
    refine .inr (ih ?_)
    rwa [reverse_cons, append_assoc] at h

theorem isMatch_of_matches {u : Unicode} {left w after : Text}
    (h : Matches u r left.reverse w after) : isMatch u r (left ++ w ++ after) = true :=
  isMatchFrom_of_matches (by rwa [append_nil])

section
variable {u : Unicode} {before after : Text}

theorem matches_seq {rs : List Regex} {x y : Text} (hx : Matches u r before x (y ++ after))
    (hy : Matches u (seq rs) (x.reverse ++ before) y after) :
    Matches u (seq (r :: rs)) before (x ++ y) after :=
  ⟨x, y, rfl, hx, hy⟩

theorem matches_seq_nil {rs : List Regex} {y : Text}
    (hr : Matches u r before [] (y ++ after)) (hy : Matches u (seq rs) before y after) :
    Matches u (seq (r :: rs)) before y after :=
  ⟨[], y, rfl, hr, hy⟩

theorem matches_rep_nil (max : Option ℕ) (greedy : Bool) (r : Regex) :
    Matches u (.rep 0 max greedy r) before [] after :=
  ⟨[], [], rfl, rfl, nofun, fun _ _ => Nat.zero_le _, trivial⟩

theorem inTurn_class {k : CharClass} {w : Text} (h : ∀ c ∈ w, k.has u c = true) :
    InTurn (Matches u (.cls k)) before (w.map ([·])) after := by
  induction w generalizing before with
  | nil => trivial
  | cons c w ih =>
    exact ⟨⟨c, h c mem_cons_self, rfl⟩, ih fun d hd => h d (mem_cons_of_mem c hd)⟩

theorem flatten_singletons (w : Text) : (w.map ([·])).flatten = w := by
  rw [← flatMap_def, flatMap_singleton']

theorem matches_class {k : CharClass} {w : Text} {min : ℕ} {greedy : Bool}
    (h : ∀ c ∈ w, k.has u c = true) (hmin : min ≤ w.length) :
    Matches u (.rep min none greedy (.cls k)) before w after := by
  refine ⟨(w.take min).map ([·]), (w.drop min).map ([·]), ?_, ?_, ?_, nofun, ?_⟩
  · rw [← map_append, take_append_drop, flatten_singletons]
  · rw [length_map, length_take, Nat.min_eq_left hmin]
  · intro y hy
    obtain ⟨c, _, rfl⟩ := mem_map.mp hy
    exact cons_ne_nil _ _
  · rw [← map_append, take_append_drop]
    exact inTurn_class h

/-- An upper-case letter of ASCII, or a character without case. -/
def isCapital (c : Char) : Bool := decide (c.toNat < 128) && c.toLower.toUpper == c

theorem isCapital.fold {c d : Char} (hc : isCapital c = true) (h : d.toLower = c.toLower) :
    (foldKey d).toUpper = c := by
  simp only [isCapital, Bool.and_eq_true, decide_eq_true_eq, beq_iff_eq] at hc
  have hlow : c.toLower.toNat < 128 := by
    have hall : ∀ n < 128, (Char.ofNat n).toLower.toNat < 128 := by decide
    rw [← Char.ofNat_toNat c]
    exact hall _ hc.1
  have hplain : foldsToAscii d = false := by
    rw [← h] at hlow
    simp only [foldsToAscii, Bool.or_eq_false_iff, beq_eq_false_iff_ne, ne_eq]
    constructor
    · rintro rfl
      exact absurd hlow (by decide)
    · rintro rfl
      exact absurd hlow (by decide)
  rw [foldKey_of_not_folds hplain, h, hc.2]

theorem has_fold {c d : Char} (hc : isCapital c = true) (h : d.toLower = c.toLower) :
    (CharClass.mk [.range c c] false true).has u d = true := by
  simp [CharClass.has, ClassItem.has_single, isCapital.fold hc h]

theorem matches_lit {k : String} {w : Text} (hk : k.toList.all isCapital = true)
    (h : lower w = lower k.toList) : Matches u (lit true k) before w after := by
  rw [lit]
  generalize k.toList = cs at hk h
  induction cs generalizing w before with
  | nil => exact map_eq_nil_iff.mp h
  | cons c cs ih =>
    obtain ⟨d, w', rfl, hd, hw'⟩ := map_eq_cons_iff.mp h
    obtain ⟨hc, hcs⟩ := Bool.and_eq_true _ _ ▸ (all_cons ▸ hk)
    exact ⟨[d], w', rfl, ⟨d, has_fold hc hd, rfl⟩, ih hcs hw'⟩

end

end RegexLib
