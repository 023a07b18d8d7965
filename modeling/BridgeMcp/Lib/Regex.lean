import BridgeMcp.Lib.Text

/-!
Regular expressions with leftmost-first matching: syntax, an ordered backtracking matcher with
capture groups, search, and replacement with a callback or a template. The matcher lists every way
to match at a position in order of preference; a search takes the first.

Every repetition in use has a body that consumes something, so an iteration that consumes nothing
is not tried.
-/
namespace RegexLib
open TextLib List

/-- The Unicode tables behind the decimal digit and word classes. -/
structure Unicode where
  decimal : Char → Bool
  word : Char → Bool

def Unicode.ascii : Unicode := ⟨Char.isDigit, fun c => c.isAlphanum || c == '_'⟩

/-- The representative of a simple case folding class of an ASCII letter. The long s and the Kelvin
sign are the two characters outside ASCII that fold to one. -/
def foldKey (c : Char) : Char :=
  if c = '\u017F' then 's' else if c = '\u212A' then 'k' else c.toLower

inductive ClassItem where
  | range (lo hi : Char)
  | digit
  | space
  deriving DecidableEq

def ClassItem.has (u : Unicode) (c : Char) : ClassItem → Bool
  | .range lo hi => decide (lo.toNat ≤ c.toNat) && decide (c.toNat ≤ hi.toNat)
  | .digit => u.decimal c
  | .space => isWhitespace c

/-- A bracketed class; case folding comes before negation. -/
structure CharClass where
  items : List ClassItem
  negated : Bool
  fold : Bool
  deriving DecidableEq

def CharClass.has (u : Unicode) (k : CharClass) (c : Char) : Bool :=
  let among := fun c => k.items.any (ClassItem.has u c)
  (among c || (k.fold && (among (foldKey c) || among (foldKey c).toUpper))) != k.negated

inductive Regex where
  | eps
  | cls (k : CharClass)
  | cat (a b : Regex)
  | alt (a b : Regex)
  | rep (min : ℕ) (max : Option ℕ) (greedy : Bool) (r : Regex)
  | group (n : ℕ) (r : Regex)
  | lineStart
  | wordBoundary
  deriving DecidableEq

/-- A state of the matcher: the text read, last character first, the text ahead, and the captures,
latest first. -/
structure Thread where
  before : Text
  after : Text
  caps : List (ℕ × Text)
  deriving DecidableEq

def Thread.consumed (s t : Thread) : Text := s.after.take (s.after.length - t.after.length)

def times (step : Thread → List Thread) : ℕ → Thread → List Thread
  | 0, s => [s]
  | n + 1, s => (step s).flatMap (times step n)

def upTo (step : Thread → List Thread) (greedy : Bool) : ℕ → Thread → List Thread
  | 0, s => [s]
  | n + 1, s =>
    let more := ((step s).filter fun t => t.after.length < s.after.length).flatMap
      (upTo step greedy n)
    if greedy then more ++ [s] else s :: more

/-- Every way to match at a state, in order of preference. -/
def runs (u : Unicode) : Regex → Thread → List Thread
  | .eps, s => [s]
  | .cls k, s =>
    match s.after with
    | [] => []
    | c :: rest => if k.has u c then [⟨c :: s.before, rest, s.caps⟩] else []
  | .cat a b, s => (runs u a s).flatMap (runs u b)
  | .alt a b, s => runs u a s ++ runs u b s
  | .rep min max greedy r, s =>
    (times (runs u r) min s).flatMap fun t =>
      upTo (runs u r) greedy (max.elim t.after.length (· - min)) t
  | .group n r, s => (runs u r s).map fun t => { t with caps := (n, s.consumed t) :: t.caps }
  | .lineStart, s => if s.before.head?.all (· == '\n') then [s] else []
  | .wordBoundary, s => if s.before.head?.any u.word != s.after.head?.any u.word then [s] else []

def matchAt (u : Unicode) (r : Regex) (before after : Text) : Option Thread :=
  (runs u r ⟨before, after, []⟩).head?

def isMatchFrom (u : Unicode) (r : Regex) : Text → Text → Bool
  | before, [] => (matchAt u r before []).isSome
  | before, c :: rest =>
    (matchAt u r before (c :: rest)).isSome || isMatchFrom u r (c :: before) rest

def isMatch (u : Unicode) (r : Regex) (text : Text) : Bool := isMatchFrom u r [] text

abbrev Captures := List (ℕ × Text)

def Captures.get (caps : Captures) (n : ℕ) : Text := (caps.lookup n).getD []

/-- Replacement of the successive non-overlapping matches; the fuel is the length of the text
ahead. -/
def replaceMatchesFrom (u : Unicode) (r : Regex) (f : Captures → Text) : ℕ → Text → Text → Text
  | 0, _, after => after
  | _ + 1, _, [] => []
  | n + 1, before, c :: rest =>
    match matchAt u r before (c :: rest) with
    | none => c :: replaceMatchesFrom u r f n (c :: before) rest
    | some t =>
      if t.after.length < rest.length + 1 then
        f ((0, (Thread.mk before (c :: rest) []).consumed t) :: t.caps) ++
          replaceMatchesFrom u r f n t.before t.after
      else c :: replaceMatchesFrom u r f n (c :: before) rest

def replaceAllWith (u : Unicode) (r : Regex) (f : Captures → Text) (text : Text) : Text :=
  replaceMatchesFrom u r f text.length [] text

def isRefChar (c : Char) : Bool := c.isAlphanum || c == '_'

def refGroup (caps : Captures) (name : Text) : Text :=
  if name ≠ [] ∧ name.all Char.isDigit then
    caps.get (name.foldl (fun n d => 10 * n + (d.toNat - 48)) 0)
  else []

/-- Expansion of a replacement template: a dollar sign and the longest name after it, or a name in
braces, stand for the group; two dollar signs for one; any other dollar sign for itself. The fuel is
the length of the template. -/
def expandFrom (caps : Captures) : ℕ → Text → Text
  | 0, _ => []
  | _ + 1, [] => []
  | n + 1, '$' :: '$' :: rest => '$' :: expandFrom caps n rest
  | n + 1, '$' :: '\x7b' :: rest =>
    match rest.dropWhile (· != '\x7d') with
    | [] => '$' :: expandFrom caps n ('\x7b' :: rest)
    | _ :: tail => refGroup caps (rest.takeWhile (· != '\x7d')) ++ expandFrom caps n tail
  | n + 1, '$' :: rest =>
    match rest.takeWhile isRefChar with
    | [] => '$' :: expandFrom caps n rest
    | name => refGroup caps name ++ expandFrom caps n (rest.dropWhile isRefChar)
  | n + 1, c :: rest => c :: expandFrom caps n rest

def expand (template : Text) (caps : Captures) : Text := expandFrom caps template.length template

section
variable (fold : Bool)

def oneOf (s : Text) : Regex := .cls ⟨s.map fun c => .range c c, false, fold⟩

def chr (c : Char) : Regex := oneOf fold [c]

def lit (s : String) : Regex := s.toList.foldr (fun c r => .cat (chr fold c) r) .eps

def inClass (items : List ClassItem) : Regex := .cls ⟨items, false, fold⟩

def notIn (items : List ClassItem) : Regex := .cls ⟨items, true, fold⟩

end

def seq (rs : List Regex) : Regex := rs.foldr .cat .eps

def orElse : List Regex → Regex → Regex
  | [], r => r
  | a :: as, r => .alt a (orElse as r)

def opt (r : Regex) : Regex := .rep 0 (some 1) true r

def star (r : Regex) : Regex := .rep 0 none true r

def plus (r : Regex) : Regex := .rep 1 none true r

def lazyStar (r : Regex) : Regex := .rep 0 none false r

def exactly (n : ℕ) (r : Regex) : Regex := .rep n (some n) true r

def atLeast (n : ℕ) (r : Regex) : Regex := .rep n none true r

def between (m n : ℕ) (r : Regex) : Regex := .rep m (some n) true r

/-- The words a pattern can consume; assertions are taken to hold. -/
def Lang (u : Unicode) : Regex → Text → Prop
  | .eps, w => w = []
  | .cls k, w => ∃ c, k.has u c = true ∧ w = [c]
  | .cat a b, w => ∃ x y, Lang u a x ∧ Lang u b y ∧ w = x ++ y
  | .alt a b, w => Lang u a w ∨ Lang u b w
  | .rep min max _ r, w => ∃ ws : List Text, (∀ x ∈ ws, Lang u r x) ∧ min ≤ ws.length ∧
      (∀ m, max = some m → ws.length ≤ Nat.max min m) ∧ w = ws.flatten
  | .group _ r, w => Lang u r w
  | .lineStart, w => w = []
  | .wordBoundary, w => w = []

/-- Whatever a step reads is a word of `L`. -/
def Reads (L : Text → Prop) (step : Thread → List Thread) : Prop :=
  ∀ s, ∀ t ∈ step s, ∃ w, s.after = w ++ t.after ∧ L w

section
variable {L : Text → Prop} {step : Thread → List Thread}

theorem times_reads (h : Reads L step) (n : ℕ) {s t : Thread} (ht : t ∈ times step n s) :
    ∃ ws : List Text, s.after = ws.flatten ++ t.after ∧ ws.length = n ∧ ∀ x ∈ ws, L x := by
  induction n generalizing s with
  | zero =>
    obtain rfl := mem_singleton.mp ht
    exact ⟨[], rfl, rfl, by simp⟩
  | succ n ih =>
    obtain ⟨m, hm, hrest⟩ := mem_flatMap.mp ht
    obtain ⟨w, hw, hLw⟩ := h s m hm
    obtain ⟨ws, hws, hlen, hall⟩ := ih hrest
    refine ⟨w :: ws, by simp [hw, hws], by simp [hlen], ?_⟩
    intro x hx
    rcases mem_cons.mp hx with rfl | later
    · exact hLw
    · exact hall x later

theorem upTo_reads (h : Reads L step) (greedy : Bool) (n : ℕ) {s t : Thread}
    (ht : t ∈ upTo step greedy n s) :
    ∃ ws : List Text, s.after = ws.flatten ++ t.after ∧ ws.length ≤ n ∧ ∀ x ∈ ws, L x := by
  induction n generalizing s with
  | zero =>
    obtain rfl := mem_singleton.mp ht
    exact ⟨[], rfl, Nat.le_refl 0, by simp⟩
  | succ n ih =>
    -- Greedy or not, the states are the same: stop here or go on.
    have hcases : t = s ∨ ∃ m ∈ step s, t ∈ upTo step greedy n m := by
      simp only [upTo] at ht
      split at ht
      · rcases mem_append.mp ht with hmore | hstop
        · obtain ⟨m, hm, hrest⟩ := mem_flatMap.mp hmore
          exact .inr ⟨m, (mem_filter.mp hm).1, hrest⟩
        · exact .inl (mem_singleton.mp hstop)
      · rcases mem_cons.mp ht with hstop | hmore
        · exact .inl hstop
        · obtain ⟨m, hm, hrest⟩ := mem_flatMap.mp hmore
          exact .inr ⟨m, (mem_filter.mp hm).1, hrest⟩
    rcases hcases with rfl | ⟨m, hm, hrest⟩
    · exact ⟨[], rfl, Nat.zero_le _, by simp⟩
    · obtain ⟨w, hw, hLw⟩ := h s m hm
      obtain ⟨ws, hws, hlen, hall⟩ := ih hrest
      refine ⟨w :: ws, by simp [hw, hws], by simp; omega, ?_⟩
      intro x hx
      rcases mem_cons.mp hx with rfl | later
      · exact hLw
      · exact hall x later

end

theorem runs_reads (u : Unicode) (r : Regex) : Reads (Lang u r) (runs u r) := by
  induction r with
  | eps =>
    intro s t ht
    obtain rfl := mem_singleton.mp ht
    exact ⟨[], rfl, rfl⟩
  | cls k =>
    intro s t ht
    rw [runs] at ht
    split at ht
    · cases ht
    · rename_i c rest hafter
      split at ht
      · rename_i hc
        obtain rfl := mem_singleton.mp ht
        exact ⟨[c], hafter, c, hc, rfl⟩
      · cases ht
  | cat a b iha ihb =>
    intro s t ht
    obtain ⟨m, hm, hrest⟩ := mem_flatMap.mp ht
    obtain ⟨x, hx, hLx⟩ := iha s m hm
    obtain ⟨y, hy, hLy⟩ := ihb m t hrest
    exact ⟨x ++ y, by rw [hx, hy, append_assoc], x, y, hLx, hLy, rfl⟩
  | alt a b iha ihb =>
    intro s t ht
    rcases mem_append.mp ht with hleft | hright
    · obtain ⟨w, hw, hLw⟩ := iha s t hleft
      exact ⟨w, hw, .inl hLw⟩
    · obtain ⟨w, hw, hLw⟩ := ihb s t hright
      exact ⟨w, hw, .inr hLw⟩
  | rep min max greedy r ih =>
    intro s t ht
    obtain ⟨m, hm, hrest⟩ := mem_flatMap.mp ht
    obtain ⟨xs, hxs, hxlen, hxall⟩ := times_reads ih min hm
    obtain ⟨ys, hys, hylen, hyall⟩ := upTo_reads ih greedy _ hrest
    refine ⟨(xs ++ ys).flatten, by simp [hxs, hys], xs ++ ys, ?_, by simp [hxlen], ?_, rfl⟩
    · intro x hx
      rcases mem_append.mp hx with hin | hin
      · exact hxall x hin
      · exact hyall x hin
    · rintro n rfl
      simp only [Option.elim_some] at hylen
      rw [length_append, hxlen]
      have := Nat.le_max_left min n
      have := Nat.le_max_right min n
      change _ ≤ max min n
      omega
  | group n r ih =>
    intro s t ht
    obtain ⟨m, hm, rfl⟩ := mem_map.mp ht
    exact ih s m hm
  | lineStart =>
    intro s t ht
    rw [runs] at ht
    split at ht
    · obtain rfl := mem_singleton.mp ht
      exact ⟨[], rfl, rfl⟩
    · cases ht
  | wordBoundary =>
    intro s t ht
    rw [runs] at ht
    split at ht
    · obtain rfl := mem_singleton.mp ht
      exact ⟨[], rfl, rfl⟩
    · cases ht

variable {u : Unicode} {r : Regex} {before after text : Text}

theorem matchAt_lang {t : Thread} (h : matchAt u r before after = some t) :
    ∃ w, after = w ++ t.after ∧ Lang u r w :=
  runs_reads u r _ t (mem_of_mem_head? h)

theorem isMatchFrom_lang (h : isMatchFrom u r before after = true) :
    ∃ w, w <:+: after ∧ Lang u r w := by
  induction after generalizing before with
  | nil =>
    obtain ⟨t, ht⟩ := Option.isSome_iff_exists.mp h
    obtain ⟨w, hw, hL⟩ := matchAt_lang ht
    exact ⟨w, ⟨[], t.after, hw.symm⟩, hL⟩
  | cons c rest ih =>
    rw [isMatchFrom, Bool.or_eq_true] at h
    rcases h with hhere | hlater
    · obtain ⟨t, ht⟩ := Option.isSome_iff_exists.mp hhere
      obtain ⟨w, hw, hL⟩ := matchAt_lang ht
      exact ⟨w, ⟨[], t.after, hw.symm⟩, hL⟩
    · obtain ⟨w, hw, hL⟩ := ih hlater
      exact ⟨w, hw.trans (suffix_cons c rest).isInfix, hL⟩

theorem isMatch_lang (h : isMatch u r text = true) :
    ∃ w, w <:+: text ∧ Lang u r w :=
  isMatchFrom_lang h

theorem replaceMatchesFrom_of_no_match (f : Captures → Text) (n : ℕ)
    (h : isMatchFrom u r before after = false) :
    replaceMatchesFrom u r f n before after = after := by
  induction n generalizing before after with
  | zero => rfl
  | succ n ih =>
    cases after with
    | nil => rfl
    | cons c rest =>
      rw [isMatchFrom, Bool.or_eq_false_iff, Option.isSome_eq_false_iff,
        Option.isNone_iff_eq_none] at h
      rw [replaceMatchesFrom, h.1]
      simp only
      rw [ih h.2]

theorem replaceAllWith_of_no_match (f : Captures → Text) (h : isMatch u r text = false) :
    replaceAllWith u r f text = text :=
  replaceMatchesFrom_of_no_match f text.length h

end RegexLib
