import BridgeMcp.Lib.Text

/-!
Reading a text: the first occurrence of a needle, its lines, the decimal numbers in it, and what
trimming leaves.
-/
namespace TextLib
open List Option

section Find

variable {α : Type*} [DecidableEq α]

/-- The text before and after the first occurrence of `needle`, as `str::find` locates it. -/
def splitFirst (needle : List α) : List α → Option (List α × List α)
  | [] => if needle = [] then some ([], []) else none
  | c :: s =>
    if needle <+: c :: s then some ([], (c :: s).drop needle.length)
    else (splitFirst needle s).map fun found => (c :: found.1, found.2)

def contains (s needle : List α) : Bool := (splitFirst needle s).isSome

variable {s needle left right : List α}

theorem contains_iff : contains s needle = true ↔ needle <:+: s := by
  induction s with
  | nil => by_cases h : needle = [] <;> simp [contains, splitFirst, h]
  | cons c s ih =>
    rw [List.infix_cons_iff, ← ih]
    by_cases h : needle <+: c :: s <;> simp [contains, splitFirst, h]

theorem splitFirst_of_first
    (hfirst : ∀ t u, left ++ needle ++ right = t ++ needle ++ u → left.length ≤ t.length) :
    splitFirst needle (left ++ needle ++ right) = some (left, right) := by
  induction left with
  | nil =>
    cases hs : needle ++ right with
    | nil =>
      obtain ⟨rfl, rfl⟩ := append_eq_nil_iff.mp hs
      rfl
    | cons c s =>
      have hhit : needle <+: c :: s := hs ▸ List.prefix_append needle right
      rw [nil_append, hs, splitFirst, if_pos hhit, ← hs, drop_left]
  | cons c left ih =>
    have hmiss : ¬ needle <+: c :: (left ++ needle ++ right) := by
      rintro ⟨u, hu⟩
      have := hfirst [] u (by simpa using hu.symm)
      simp at this
    have hrest := ih fun t u h => by
      have := hfirst (c :: t) u (by simpa using h)
      simpa using this
    rw [cons_append, cons_append, splitFirst, if_neg hmiss, hrest]
    rfl

theorem splitFirst_spec (h : splitFirst needle s = some (left, right)) :
    s = left ++ needle ++ right := by
  induction s generalizing left with
  | nil =>
    rw [splitFirst] at h
    split_ifs at h with hneedle
    cases h
    rw [hneedle]
    rfl
  | cons c s ih =>
    rw [splitFirst] at h
    split_ifs at h with hhit
    · obtain ⟨rest, hrest⟩ := hhit
      rw [← hrest, drop_left, some.injEq, Prod.mk.injEq] at h
      rw [← h.1, ← h.2, ← hrest, nil_append]
    · obtain ⟨⟨left', right'⟩, hfound, heq⟩ := map_eq_some_iff.mp h
      cases heq
      rw [ih hfound, cons_append, cons_append]

variable {c : α}

theorem splitFirst_singleton (h : c ∉ left) (right : List α) :
    splitFirst [c] (left ++ c :: right) = some (left, right) := by
  induction left with
  | nil => simp [splitFirst]
  | cons d left ih =>
    obtain ⟨hd, hleft⟩ := not_or.mp (mt mem_cons.mpr h)
    simp [splitFirst, hd, ih hleft]

theorem splitFirst_eq_none (h : c ∉ s) : splitFirst [c] s = none := by
  induction s with
  | nil => rfl
  | cons d s ih =>
    obtain ⟨hd, hs⟩ := not_or.mp (mt mem_cons.mpr h)
    simp [splitFirst, hd, ih hs]

/-- `str::rsplit_once`: the text before and after the last `c`. -/
def splitLast (c : α) (s : List α) : Option (List α × List α) :=
  (splitFirst [c] s.reverse).map fun found => (found.2.reverse, found.1.reverse)

theorem splitLast_append (h : c ∉ right) (left : List α) :
    splitLast c (left ++ c :: right) = some (left, right) := by
  have hreverse : (left ++ c :: right).reverse = right.reverse ++ c :: left.reverse := by
    rw [reverse_append, reverse_cons, append_assoc, singleton_append]
  rw [splitLast, hreverse, splitFirst_singleton (mt mem_reverse.mp h), map_some,
    reverse_reverse, reverse_reverse]

theorem splitLast_spec (h : splitLast c s = some (left, right)) :
    s = left ++ c :: right := by
  obtain ⟨found, hfound, heq⟩ := map_eq_some_iff.mp h
  cases heq
  have hs := congrArg reverse (splitFirst_spec hfound)
  rw [reverse_reverse, reverse_append, reverse_append, reverse_singleton,
    singleton_append] at hs
  exact hs

def stripPrefix (start s : List α) : Option (List α) :=
  if start <+: s then some (s.drop start.length) else none

@[simp] theorem stripPrefix_append (start s : List α) : stripPrefix start (start ++ s) = some s := by
  rw [stripPrefix, if_pos (List.prefix_append start s), drop_left]

theorem stripPrefix_eq_some {start rest : List α} :
    stripPrefix start s = some rest ↔ s = start ++ rest := by
  constructor
  · intro h
    unfold stripPrefix at h
    split_ifs at h with hstart
    obtain ⟨tail, rfl⟩ := hstart
    rw [drop_left] at h
    rw [some.inj h]
  · rintro rfl
    exact stripPrefix_append start rest

omit [DecidableEq α] in
theorem prefix_of_prefix_append_cons (hc : c ∉ needle) (h : needle <+: left ++ c :: right) :
    needle <+: left := by
  rcases List.prefix_or_prefix_of_prefix h (List.prefix_append left (c :: right)) with h' | h'
  · exact h'
  · obtain ⟨rest, rfl⟩ := h'
    cases rest with
    | nil => rw [append_nil]
    | cons d rest =>
      rw [List.prefix_append_right_inj, List.cons_prefix_cons] at h
      exact absurd (h.1 ▸ by simp) hc

omit [DecidableEq α] in
theorem append_cons_inj {x y a b : List α} (hx : c ∉ x) (hy : c ∉ y) :
    x ++ c :: a = y ++ c :: b ↔ x = y ∧ a = b := by
  constructor
  · intro h
    have hxy : x <+: y := prefix_of_prefix_append_cons hx (h ▸ List.prefix_append x (c :: a))
    have hyx : y <+: x := prefix_of_prefix_append_cons hy (h ▸ List.prefix_append y (c :: b))
    obtain rfl := hxy.eq_of_length (le_antisymm hxy.length_le hyx.length_le)
    exact ⟨rfl, (cons.inj (append_cancel_left h)).2⟩
  · rintro ⟨rfl, rfl⟩
    rfl

omit [DecidableEq α] in
theorem infix_of_infix_append_cons (hc : c ∉ needle) (h : needle <:+: left ++ c :: right) :
    needle <:+: left ∨ needle <:+: right := by
  induction left with
  | nil =>
    rw [nil_append, List.infix_cons_iff] at h
    rcases h with h | h
    · exact .inl (prefix_of_prefix_append_cons hc (show needle <+: [] ++ c :: right from h)).isInfix
    · exact .inr h
  | cons d left ih =>
    rw [cons_append, List.infix_cons_iff] at h
    rcases h with h | h
    · exact .inl (prefix_of_prefix_append_cons hc
        (show needle <+: (d :: left) ++ c :: right from h)).isInfix
    · exact (ih h).imp_left fun h => List.infix_cons h

end Find

/-- `str::lines`: a line ends in `\n` or `\r\n`, the last one possibly in neither. -/
def lines : Text → List Text
  | [] => []
  | c :: s =>
    if c = '\n' then [] :: lines s
    else if c = '\r' ∧ s.head? = some '\n' then lines s
    else
      match lines s with
      | [] => [[c]]
      | line :: rest => (c :: line) :: rest

/-- The two line terminators. -/
inductive Eol where
  | lf
  | crlf
  deriving DecidableEq

def Eol.text : Eol → Text
  | lf => ['\n']
  | crlf => ['\r', '\n']

theorem lines_line {line : Text} (hbreak : '\n' ∉ line) (hreturn : line.getLast? ≠ some '\r')
    (eol : Eol) (s : Text) : lines (line ++ eol.text ++ s) = line :: lines s := by
  induction line with
  | nil => cases eol <;> simp [lines, Eol.text]
  | cons c line ih =>
    obtain ⟨hc, hline⟩ := not_or.mp (mt mem_cons.mpr hbreak)
    have hkeep : ¬ (c = '\r' ∧ (line ++ eol.text ++ s).head? = some '\n') := by
      rintro ⟨rfl, hhead⟩
      cases line with
      | nil => exact hreturn rfl
      | cons d line =>
        rw [cons_append, cons_append, head?_cons, some.injEq] at hhead
        exact hline (hhead ▸ mem_cons_self)
    have hlast : line.getLast? ≠ some '\r' := by
      cases line with
      | nil => simp
      | cons d line => simpa using hreturn
    rw [cons_append, cons_append, lines, if_neg (Ne.symm hc), if_neg hkeep,
      ih hline hlast]

def splitWhitespace (s : Text) : List Text :=
  (s.splitOnP isWhitespace).filter fun word => !word.isEmpty

theorem flatten_splitWhitespace (s : Text) :
    (splitWhitespace s).flatten = s.filter (!isWhitespace ·) := by
  rw [splitWhitespace, flatten_filter_not_isEmpty]
  induction s with
  | nil => rfl
  | cons c s ih =>
    obtain ⟨first, rest, hparts⟩ := exists_cons_of_ne_nil (splitOnP_ne_nil isWhitespace s)
    rw [splitOnP_cons_eq_if_modifyHead]
    rw [hparts] at ih ⊢
    by_cases hc : isWhitespace c = true
    · simp [hc, ← ih]
    · simp [hc, ← ih]

variable {c : Char}

theorem splitWhitespace_cons (hc : isWhitespace c = true) (s : Text) :
    splitWhitespace (c :: s) = splitWhitespace s := by
  rw [splitWhitespace, splitOnP_cons_eq_if_modifyHead, if_pos hc]
  rfl

variable {s w : Text}

theorem splitWhitespace_word {word : Text} (hne : word ≠ [])
    (hword : ∀ c ∈ word, isWhitespace c = false) (hs : ∀ c ∈ s.head?, isWhitespace c = true) :
    splitWhitespace (word ++ s) = word :: splitWhitespace s := by
  cases s with
  | nil =>
    rw [append_nil, splitWhitespace, splitOnP_eq_singleton hword]
    simp [hne, splitWhitespace]
  | cons c s =>
    rw [splitWhitespace, splitOnP_append_cons _ _ (hs c rfl), splitOnP_eq_singleton hword,
      splitWhitespace_cons (hs c rfl)]
    simp [hne, splitWhitespace]

theorem trim_pad {left right : Text} (hleft : ∀ c ∈ left, isWhitespace c = true)
    (hright : ∀ c ∈ right, isWhitespace c = true) (hhead : ∀ c ∈ s.head?, isWhitespace c = false)
    (hlast : ∀ c ∈ s.getLast?, isWhitespace c = false) (hne : s ≠ []) :
    trim (left ++ s ++ right) = s := by
  have hdrop : ∀ {t : Text}, (∀ c ∈ t.head?, isWhitespace c = false) →
      t.dropWhile isWhitespace = t := by
    intro t ht
    cases t with
    | nil => rfl
    | cons c t => rw [dropWhile_cons_of_neg (by simp [ht c rfl])]
  have hstart : ∀ c ∈ (s ++ right).head?, isWhitespace c = false := by
    rwa [head?_append_of_ne_nil _ hne]
  have hend : ∀ c ∈ s.reverse.head?, isWhitespace c = false := by rwa [head?_reverse]
  rw [trim, trimEnd, append_assoc, dropWhile_append_of_pos hleft, hdrop hstart,
    rdropWhile, reverse_append,
    dropWhile_append_of_pos (by simpa using hright), hdrop hend, reverse_reverse]

theorem trimEnd_append (s : Text) (hw : ∀ c ∈ w, isWhitespace c = true) :
    trimEnd (s ++ w) = trimEnd s := by
  have hreverse : ∀ c ∈ w.reverse, isWhitespace c = true := fun c hc =>
    hw c (mem_reverse.mp hc)
  rw [trimEnd, rdropWhile, reverse_append, dropWhile_append_of_pos hreverse]
  rfl

theorem trim_append (s : Text) (hw : ∀ c ∈ w, isWhitespace c = true) :
    trim (s ++ w) = trim s := by
  have hrest : w.dropWhile isWhitespace = [] := dropWhile_eq_nil_iff.mpr hw
  rw [trim, dropWhile_append, hrest]
  split_ifs with hnil
  · rw [trim, isEmpty_iff.mp hnil]
  · rw [trim, trimEnd_append _ hw]

theorem trimStart_trim (s : Text) : trimStart (trim s) = trim s := by
  cases htrim : trim s with
  | nil => rfl
  | cons c r =>
    have hstart : c :: r <+: s.dropWhile isWhitespace := htrim ▸ List.rdropWhile_prefix _ _
    obtain ⟨rest, hrest⟩ := hstart
    have hc : ¬ isWhitespace c = true := by
      have hhead := head?_dropWhile_not isWhitespace s
      rw [← hrest] at hhead
      simpa using hhead
    rw [trimStart, dropWhile_cons_of_neg hc]

theorem trim_eq_nil (h : trim s = []) : ∀ c ∈ s, isWhitespace c = true := by
  rw [trim, trimEnd, rdropWhile_eq_nil_iff] at h
  rw [← dropWhile_eq_nil_iff]
  by_contra hne
  have hhead := head_dropWhile_not isWhitespace hne
  rw [h _ (head_mem hne)] at hhead
  cases hhead

theorem dropWhile_sublist_dropWhile {t : Text} (p : Char → Bool) (h : s <+ t) :
    s.dropWhile p <+ t.dropWhile p := by
  induction h with
  | slnil => exact .refl _
  | cons c hsub ih =>
    by_cases hc : p c = true
    · rwa [dropWhile_cons_of_pos hc]
    · rw [dropWhile_cons_of_neg hc]
      exact ((dropWhile_sublist p).trans hsub).cons c
  | cons_cons c hsub ih =>
    by_cases hc : p c = true
    · rwa [dropWhile_cons_of_pos hc, dropWhile_cons_of_pos hc]
    · rw [dropWhile_cons_of_neg hc, dropWhile_cons_of_neg hc]
      exact hsub.cons_cons c

theorem trim_sublist_trim {t : Text} (h : s <+ t) : trim s <+ trim t :=
  (dropWhile_sublist_dropWhile _ (dropWhile_sublist_dropWhile _ h).reverse).reverse

theorem count_dropWhile (s : Text) {p : Char → Bool} (hc : p c = false) :
    (s.dropWhile p).count c = s.count c := by
  induction s with
  | nil => rfl
  | cons d s ih =>
    by_cases hd : p d = true
    · have hne : d ≠ c := by
        rintro rfl
        cases hc.symm.trans hd
      rw [dropWhile_cons_of_pos hd, ih, count_cons_of_ne hne]
    · rw [dropWhile_cons_of_neg hd]

theorem count_trim (s : Text) (hc : isWhitespace c = false) : (trim s).count c = s.count c := by
  rw [trim, trimEnd, rdropWhile, count_reverse, count_dropWhile _ hc, count_reverse,
    count_dropWhile _ hc]

theorem mem_trim {a b : Text} {x y : Char} (hx : x ∈ a) (hxplain : isWhitespace x = false)
    (hy : y ∈ b) (hyplain : isWhitespace y = false) : c ∈ trim (a ++ c :: b) := by
  have hkeep : (a.dropWhile isWhitespace).isEmpty = false := by
    rw [isEmpty_eq_false_iff]
    intro hnil
    have hws := dropWhile_eq_nil_iff.mp hnil x hx
    rw [hxplain] at hws
    cases hws
  rw [trim, trimEnd, dropWhile_append, hkeep, if_neg Bool.false_ne_true, ← singleton_append,
    ← append_assoc]
  have hsplit : ∀ s : Text, s.rdropWhile isWhitespace ++ s.rtakeWhile isWhitespace = s := fun s =>
    rdropWhile_append_rtakeWhile
  rcases append_eq_append_iff.mp (hsplit (a.dropWhile isWhitespace ++ [c] ++ b)) with
    ⟨u, -, hend⟩ | ⟨u, hfront, -⟩
  · have hin := mem_append_right u hy
    rw [← hend] at hin
    have hws := mem_rtakeWhile_imp hin
    rw [hyplain] at hws
    cases hws
  · rw [hfront]
    simp

def hexDigitValue (c : Char) : Option ℕ :=
  if c.isDigit then some (c.toNat - 48)
  else if 'a' ≤ c ∧ c ≤ 'f' then some (c.toNat - 87)
  else if 'A' ≤ c ∧ c ≤ 'F' then some (c.toNat - 55)
  else none

def parseU32 (s : Text) : Option ℕ :=
  let digits := if s.head? = some '+' then s.tail else s
  if digits ≠ [] ∧ digits.all Char.isDigit then
    let n := Nat.ofDigitChars 10 digits 0
    if n < 2 ^ 32 then some n else none
  else none

def decimal (z : ℤ) : Text :=
  if z < 0 then '-' :: Nat.toDigits 10 z.natAbs else Nat.toDigits 10 z.natAbs

theorem isDigit_toDigits (n : ℕ) : ∀ c ∈ Nat.toDigits 10 n, c.isDigit = true :=
  fun _ hc => Nat.isDigit_of_mem_toDigits (by decide) (by decide) hc

theorem parseU32_decimal (z : ℤ) :
    parseU32 (decimal z) = if 0 ≤ z ∧ z < 2 ^ 32 then some z.toNat else none := by
  by_cases hneg : z < 0
  · rw [if_neg (by omega)]
    simp [parseU32, decimal, hneg, show Char.isDigit '-' = false by decide]
  · have hdigits := isDigit_toDigits z.natAbs
    have hplus : (Nat.toDigits 10 z.natAbs).head? ≠ some '+' := by
      intro h
      exact absurd (hdigits '+' (mem_of_mem_head? h)) (by decide)
    have hcond : Nat.toDigits 10 z.natAbs ≠ [] ∧ (Nat.toDigits 10 z.natAbs).all Char.isDigit :=
      ⟨Nat.toDigits_ne_nil, all_eq_true.mpr hdigits⟩
    simp only [parseU32, decimal, if_neg hneg, if_neg hplus, if_pos hcond,
      Nat.ofDigitChars_ten_toDigits]
    by_cases hlt : z < 2 ^ 32
    · rw [if_pos (by omega), if_pos ⟨by omega, hlt⟩, some.injEq]
      omega
    · rw [if_neg (by omega), if_neg (by omega)]

theorem mem_decimal {z : ℤ} (h : c ∈ decimal z) :
    c.toNat = 45 ∨ 48 ≤ c.toNat ∧ c.toNat ≤ 57 := by
  unfold decimal at h
  split at h
  · obtain rfl | h := mem_cons.mp h
    · exact .inl rfl
    · exact .inr (isDigit_iff.mp (isDigit_toDigits _ c h))
  · exact .inr (isDigit_iff.mp (isDigit_toDigits _ c h))

theorem decimal_ne_nil (z : ℤ) : decimal z ≠ [] := by
  unfold decimal
  split <;> simp

theorem decimal_not_whitespace {z : ℤ} (h : c ∈ decimal z) : isWhitespace c = false := by
  have := mem_decimal h
  simp only [isWhitespace, Bool.or_eq_false_iff, Bool.and_eq_false_iff, decide_eq_false_iff_not,
    beq_eq_false_iff_ne]
  omega

theorem trim_decimal (z : ℤ) : trim (decimal z) = decimal z := by
  have hpad : trim ([] ++ decimal z ++ []) = decimal z :=
    trim_pad (by simp) (by simp)
      (fun c hc => decimal_not_whitespace (mem_of_mem_head? hc))
      (fun c hc => decimal_not_whitespace (mem_of_getLast? hc)) (decimal_ne_nil z)
  simpa using hpad

theorem eol_whitespace (eol : Eol) : ∀ c ∈ eol.text, isWhitespace c = true := by
  cases eol <;> simp [Eol.text, isWhitespace]

theorem getLast_not_whitespace (h : trim s = s) (hc : s.getLast? = some c) :
    isWhitespace c = false := by
  rw [← h] at hc
  have hne : trim s ≠ [] := by
    rintro hnil
    rw [hnil] at hc
    cases hc
  have hlast := rdropWhile_last_not isWhitespace (s.dropWhile isWhitespace) hne
  rw [getLast?_eq_some_getLast hne, some.injEq] at hc
  rw [← hc]
  exact Bool.eq_false_iff.mpr hlast

end TextLib
