import BridgeMcp.Lib.Replace

/-!
Filling all holes of a text at once, against replacing one literal after the other. Each kind of hole
has a spelling, the literal that stands for it, and a value.
-/
namespace TemplateLib
open TextLib List

inductive Piece (α ι : Type*) where
  | literal (a : α)
  | hole (i : ι)
  deriving DecidableEq

section
variable {α ι : Type*} [DecidableEq ι]

/-- A piece where the holes of `done` are filled and the others are spelled out. -/
def Piece.text (spelling value : ι → List α) (done : List ι) : Piece α ι → List α
  | .literal a => [a]
  | .hole i => if i ∈ done then value i else spelling i

def fill (spelling value : ι → List α) (done : List ι) (pieces : List (Piece α ι)) : List α :=
  pieces.flatMap (Piece.text spelling value done)

/-- Scanning from the left, and going on behind each occurrence, one meets `pat` between `before` and
`after`. Occurrences that overlap one met before are not met. -/
inductive Meets (pat : List α) : List α → List α → List α → Prop
  | here (after : List α) : Meets pat (pat ++ after) [] after
  | hit {s before after : List α} : Meets pat s before after → Meets pat (pat ++ s) (pat ++ before) after
  | miss {a : α} {s before after : List α} : ¬ pat <+: a :: s → Meets pat s before after →
      Meets pat (a :: s) (a :: before) after

/-- In the text, filled so far, the spelling of `i` is met only where there is a hole for `i`. -/
def Own (spelling value : ι → List α) (done : List ι) (i : ι) (pieces : List (Piece α ι)) : Prop :=
  ∀ before after, Meets (spelling i) (fill spelling value done pieces) before after →
    ∃ front back, pieces = front ++ .hole i :: back ∧ fill spelling value done front = before

variable {spelling value : ι → List α} {done : List ι} {pieces : List (Piece α ι)} {i : ι}

theorem fill_cons (piece : Piece α ι) :
    fill spelling value done (piece :: pieces) =
      piece.text spelling value done ++ fill spelling value done pieces :=
  flatMap_cons

theorem fill_congr {done' : List ι} (h : ∀ i, i ∈ done ↔ i ∈ done') :
    fill spelling value done pieces = fill spelling value done' pieces := by
  refine flatMap_congr fun piece _ => ?_
  cases piece with
  | literal a => rfl
  | hole i => simp only [Piece.text, h]

theorem not_prefix_of_no_start {pat front s : List α} {a : α}
    (h : ∀ before after, before.length < (a :: front).length →
      ¬ Meets pat (a :: front ++ s) before after) : ¬ pat <+: a :: (front ++ s) := by
  rintro ⟨after, hafter⟩
  have hmeets : Meets pat (a :: front ++ s) [] after := by
    rw [cons_append, ← hafter]
    exact .here after
  exact h [] after (Nat.zero_lt_succ _) hmeets

theorem Meets.append_of_no_start {pat front s before after : List α} (h : Meets pat s before after)
    (hstart : ∀ before after, before.length < front.length → ¬ Meets pat (front ++ s) before after) :
    Meets pat (front ++ s) (front ++ before) after := by
  induction front with
  | nil => exact h
  | cons a front ih =>
    have hmiss := not_prefix_of_no_start hstart
    exact .miss hmiss (ih fun before after hlt hmeets =>
      hstart (a :: before) after (Nat.succ_lt_succ hlt) (.miss hmiss hmeets))

theorem Own.head {piece : Piece α ι} (hown : Own spelling value done i (piece :: pieces))
    {before after : List α} (hlt : before.length < (piece.text spelling value done).length)
    (hmeets : Meets (spelling i) (fill spelling value done (piece :: pieces)) before after) :
    piece = .hole i := by
  obtain ⟨front, back, hpieces, hfront⟩ := hown before after hmeets
  cases front with
  | nil => exact (cons.inj hpieces).1
  | cons first front =>
    obtain ⟨rfl, -⟩ := cons.inj hpieces
    rw [fill_cons] at hfront
    rw [← hfront, length_append] at hlt
    omega

theorem Own.tail {piece : Piece α ι} (hown : Own spelling value done i (piece :: pieces))
    (hspelling : spelling i ≠ []) (hnew : i ∉ done) : Own spelling value done i pieces := by
  intro before after hmeets
  have hwhole : Meets (spelling i) (fill spelling value done (piece :: pieces))
      (piece.text spelling value done ++ before) after := by
    rw [fill_cons]
    by_cases hpiece : piece = .hole i
    · rw [hpiece, Piece.text, if_neg hnew]
      exact .hit hmeets
    · refine hmeets.append_of_no_start fun before' after' hlt hstart => hpiece ?_
      exact hown.head hlt ((fill_cons piece).symm ▸ hstart)
  obtain ⟨front, back, hpieces, hfront⟩ := hown _ _ hwhole
  cases front with
  | nil =>
    obtain ⟨rfl, -⟩ := cons.inj hpieces
    have hempty := (append_eq_nil_iff.mp hfront.symm).1
    rw [Piece.text, if_neg hnew] at hempty
    exact absurd hempty hspelling
  | cons first front =>
    obtain ⟨rfl, rfl⟩ := cons.inj hpieces
    rw [fill_cons] at hfront
    exact ⟨front, back, rfl, append_cancel_left hfront⟩

end

section
variable {α ι : Type*} [DecidableEq α] [DecidableEq ι]

theorem replaceAll_append_of_no_start {pat : List α} (new : List α) {front rest : List α}
    (h : ∀ before after, before.length < front.length → ¬ Meets pat (front ++ rest) before after) :
    replaceAll pat new (front ++ rest) = front ++ replaceAll pat new rest := by
  induction front with
  | nil => rfl
  | cons a front ih =>
    have hmiss := not_prefix_of_no_start h
    have hrest := ih fun before after hlt hmeets =>
      h (a :: before) after (Nat.succ_lt_succ hlt) (.miss hmiss hmeets)
    rw [cons_append, replaceAll_miss new hmiss, hrest, cons_append]

variable {spelling value : ι → List α} {done : List ι} {pieces : List (Piece α ι)} {i : ι}

theorem replaceAll_fill (hspelling : spelling i ≠ []) (hnew : i ∉ done)
    (hown : Own spelling value done i pieces) :
    replaceAll (spelling i) (value i) (fill spelling value done pieces) =
      fill spelling value (done ++ [i]) pieces := by
  induction pieces with
  | nil => rfl
  | cons piece pieces ih =>
    have hrest := ih (hown.tail hspelling hnew)
    rw [fill_cons, fill_cons]
    by_cases hpiece : piece = .hole i
    · subst hpiece
      have hfilled : i ∈ done ++ [i] := mem_append_right _ (mem_singleton_self i)
      rw [Piece.text, if_neg hnew, replaceAll_hit hspelling, hrest, Piece.text, if_pos hfilled]
    · have hsame : piece.text spelling value (done ++ [i]) = piece.text spelling value done := by
        cases piece with
        | literal a => rfl
        | hole j =>
          have hother : j ≠ i := fun heq => hpiece (heq ▸ rfl)
          simp only [Piece.text, mem_append, mem_singleton, hother, or_false]
      rw [hsame, ← hrest]
      refine replaceAll_append_of_no_start _ fun before after hlt hmeets => hpiece ?_
      exact hown.head hlt ((fill_cons piece).symm ▸ hmeets)

/-- The scan: `skip` elements still belong to the hole just found. -/
def parseFrom (spelling : ι → List α) (kinds : List ι) : ℕ → List α → List (Piece α ι)
  | _, [] => []
  | skip + 1, _ :: s => parseFrom spelling kinds skip s
  | 0, a :: s =>
    match kinds.find? fun i => spelling i <+: a :: s with
    | some i => .hole i :: parseFrom spelling kinds ((spelling i).length - 1) s
    | none => .literal a :: parseFrom spelling kinds 0 s

def parse (spelling : ι → List α) (kinds : List ι) (s : List α) : List (Piece α ι) :=
  parseFrom spelling kinds 0 s

theorem fill_parseFrom (hspelling : ∀ i, spelling i ≠ []) (kinds : List ι) (skip : ℕ) (s : List α) :
    fill spelling value [] (parseFrom spelling kinds skip s) = s.drop skip := by
  induction s generalizing skip with
  | nil =>
    rw [parseFrom, drop_nil]
    rfl
  | cons a s ih =>
    cases skip with
    | succ skip => exact ih skip
    | zero =>
      rw [parseFrom, drop_zero]
      cases hfound : kinds.find? fun i => spelling i <+: a :: s with
      | none => exact congrArg (a :: ·) (ih 0)
      | some i =>
        have hhere : spelling i <+: a :: s := by simpa using find?_some hfound
        obtain ⟨rest, hrest⟩ := hhere
        obtain ⟨b, tail, htail⟩ := exists_cons_of_ne_nil (hspelling i)
        rw [htail, cons_append, cons.injEq] at hrest
        obtain ⟨rfl, rfl⟩ := hrest
        change spelling i ++ fill spelling value [] _ = _
        rw [ih, htail, length_cons, Nat.add_sub_cancel, drop_left, cons_append]

theorem fill_parse (hspelling : ∀ i, spelling i ≠ []) (kinds : List ι) (s : List α) :
    fill spelling value [] (parse spelling kinds s) = s :=
  fill_parseFrom hspelling kinds 0 s

end

end TemplateLib
