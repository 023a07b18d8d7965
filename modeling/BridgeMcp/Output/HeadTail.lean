import BridgeMcp.Lib.TextScan
import BridgeMcp.Output.Cache

/-!
Head and tail truncation (`domain/output_truncator.rs`): a fifth of the budget for the first lines of
an output, the rest for its last lines, and a notice in the place of what is left out.
-/
namespace BridgeMcp.Output
open TextLib List

def sliceTo (s : Text) (i : ℕ) : Except SlicePanic Text :=
  match splitAtByte s i with
  | none => .error .notCharBoundary
  | some (front, _) => .ok front

def sliceFrom (s : Text) (i : ℕ) : Except SlicePanic Text :=
  match splitAtByte s i with
  | none => .error .notCharBoundary
  | some (_, rest) => .ok rest

def takeHeadLines (s : Text) (budget : ℕ) : Except SlicePanic Text :=
  if utf8Len s ≤ budget then .ok s
  else do
    let safeBudget := floorCharBoundary s budget
    let window ← sliceTo s safeBudget
    match rfindChar '\n' window with
    | none => sliceTo s safeBudget
    | some pos => sliceTo s pos

def takeTailLines (s : Text) (budget : ℕ) : Except SlicePanic Text :=
  if utf8Len s ≤ budget then .ok s
  else do
    let start := utf8Len s - budget
    let safeStart := ceilCharBoundary s start
    let window ← sliceFrom s safeStart
    match findChar '\n' window with
    | none => sliceFrom s safeStart
    | some pos => sliceFrom s (safeStart + pos + 1)

def lineCounts (output head tail : Text) : Text :=
  let totalLines := (lines output).length
  let omitted := totalLines - ((lines head).length + (lines tail).length)
  Nat.toDigits 10 totalLines ++ " lines total, " ++ Nat.toDigits 10 omitted ++
    " lines omitted"

def charCounts (output head tail : Text) : Text :=
  Nat.toDigits 10 (utf8Len output) ++ " → " ++
    Nat.toDigits 10 (utf8Len head + utf8Len tail) ++ " chars"

def plainNotice (output head tail tip : Text) : Text :=
  "\n\n--- [truncated: " ++ lineCounts output head tail ++ ", " ++
    charCounts output head tail ++ "] ---" ++ tip ++ "\n\n"

def cachedNotice (output head tail outputId tip : Text) : Text :=
  "\n\n⚠️ MORE DATA AVAILABLE — Truncated: " ++ lineCounts output head tail ++ " (" ++
    charCounts output head tail ++ ").\nTo get the complete output, call: " ++
    "ssh_output_fetch(output_id=\"" ++ outputId ++ "\", offset=0, limit=50000)" ++ tip ++
    "\n\n"

def truncateOutput (output : Text) (maxChars : ℕ) : Except SlicePanic Text :=
  if maxChars = 0 ∨ utf8Len output ≤ maxChars then .ok output
  else do
    let headBudget := maxChars / 5
    let tailBudget := maxChars - headBudget
    let head ← takeHeadLines output headBudget
    let tail ← takeTailLines output tailBudget
    return head ++ plainNotice output head tail [] ++ tail

def tipText (reductionTip : Option Text) : Text :=
  reductionTip.elim [] fun t => "\n💡 Better: " ++ t ++ "."

/-- The clock is read at `now` and `created` by the cache. -/
def truncateOutputWithCache (output : Text) (maxChars : ℕ) (cache : Option OutputCache)
    (now created : ℕ) (reductionTip : Option Text) : Except SlicePanic (Text × Option OutputCache) :=
  if maxChars = 0 ∨ utf8Len output ≤ maxChars then .ok (output, cache)
  else do
    let headBudget := maxChars / 5
    let tailBudget := maxChars - headBudget
    let head ← takeHeadLines output headBudget
    let tail ← takeTailLines output tailBudget
    let tip := tipText reductionTip
    match cache with
    | some cache =>
      let (outputId, cache) := cache.store now created output
      return (head ++ cachedNotice output head tail outputId tip ++ tail, some cache)
    | none => return (head ++ plainNotice output head tail tip ++ tail, none)

theorem sliceTo_append (front rest : Text) : sliceTo (front ++ rest) (utf8Len front) = .ok front := by
  rw [sliceTo, splitAtByte_append]

theorem sliceFrom_append (front rest : Text) :
    sliceFrom (front ++ rest) (utf8Len front) = .ok rest := by
  rw [sliceFrom, splitAtByte_append]

theorem exists_last_of_mem {α : Type*} {x : α} {l : List α} (h : x ∈ l) :
    ∃ a b, l = a ++ x :: b ∧ x ∉ b := by
  obtain ⟨b, a, hl, hb⟩ := eq_append_cons_of_mem (mem_reverse.mpr h)
  refine ⟨a.reverse, b.reverse, ?_, mt mem_reverse.mp hb⟩
  rw [← reverse_reverse l, hl]
  simp

variable {window rest front s output tail : Text} {budget maxChars : ℕ}

theorem takeHeadLines_cut (h : budget < utf8Len (window ++ rest))
    (hcut : utf8Len window = floorCharBoundary (window ++ rest) budget) :
    takeHeadLines (window ++ rest) budget =
      match rfindChar '\n' window with
      | none => .ok window
      | some pos => sliceTo (window ++ rest) pos := by
  rw [takeHeadLines, if_neg (Nat.not_le.mpr h)]
  simp only [← hcut, sliceTo_append]
  rfl

theorem takeTailLines_cut {front window : Text} {budget : ℕ} (h : budget < utf8Len (front ++ window))
    (hcut : utf8Len front =
      ceilCharBoundary (front ++ window) (utf8Len (front ++ window) - budget)) :
    takeTailLines (front ++ window) budget =
      match findChar '\n' window with
      | none => .ok window
      | some pos => sliceFrom (front ++ window) (utf8Len front + pos + 1) := by
  rw [takeTailLines, if_neg (Nat.not_le.mpr h)]
  simp only [← hcut, sliceFrom_append]
  rfl

theorem takeHeadLines_cases (h : budget < utf8Len s) :
    ∃ head rest, takeHeadLines s budget = .ok head ∧ s = head ++ rest ∧ utf8Len head ≤ budget ∧
      ('\n' ∉ head ∨ ∃ after, rest = '\n' :: after) := by
  obtain ⟨hboundary, hle⟩ := floorCharBoundary_spec s budget
  obtain ⟨window, rest, rfl, hlen⟩ := isCharBoundary_iff.mp hboundary
  rw [takeHeadLines_cut h hlen]
  rw [← hlen] at hle
  by_cases hmem : '\n' ∈ window
  · obtain ⟨head, line, rfl, hline⟩ := exists_last_of_mem hmem
    rw [rfindChar_append head hline]
    rw [utf8Len_append] at hle
    refine ⟨head, '\n' :: line ++ rest, ?_, append_assoc _ _ _, by omega, .inr ⟨_, rfl⟩⟩
    rw [append_assoc]
    exact sliceTo_append head ('\n' :: line ++ rest)
  · rw [rfindChar_eq_none hmem]
    exact ⟨window, rest, rfl, rfl, hle, .inl hmem⟩

theorem takeTailLines_cases (h : budget < utf8Len s) :
    ∃ front window tail, s = front ++ window ∧
      utf8Len front = ceilCharBoundary s (utf8Len s - budget) ∧ takeTailLines s budget = .ok tail ∧
      (('\n' ∉ window ∧ tail = window) ∨ ∃ line, '\n' ∉ line ∧ window = line ++ '\n' :: tail) := by
  obtain ⟨hboundary, -, -⟩ := ceilCharBoundary_spec (Nat.sub_le (utf8Len s) budget)
  obtain ⟨front, window, rfl, hlen⟩ := isCharBoundary_iff.mp hboundary
  refine ⟨front, window, ?_⟩
  rw [takeTailLines_cut h hlen]
  by_cases hmem : '\n' ∈ window
  · obtain ⟨line, tail, rfl, hline⟩ := eq_append_cons_of_mem hmem
    refine ⟨tail, rfl, hlen, ?_, .inr ⟨line, hline, rfl⟩⟩
    have hsplit : front ++ (line ++ '\n' :: tail) = (front ++ line ++ ['\n']) ++ tail := by
      simp
    have hend : utf8Len front + utf8Len line + 1 = utf8Len (front ++ line ++ ['\n']) := by
      rw [utf8Len_append, utf8Len_append]
      rfl
    rw [findChar_append hline]
    simp only [hsplit, hend]
    exact sliceFrom_append (front ++ line ++ ['\n']) tail
  · rw [findChar_eq_none hmem]
    exact ⟨window, rfl, hlen, rfl, .inl ⟨hmem, rfl⟩⟩

theorem suffix_window_iff {front window a t : Text} {budget : ℕ} (hs : front ++ window = a ++ t)
    (hfront : utf8Len front =
      ceilCharBoundary (front ++ window) (utf8Len (front ++ window) - budget)) :
    t <:+ window ↔ utf8Len t ≤ budget := by
  obtain ⟨-, hge, -⟩ := ceilCharBoundary_spec (Nat.sub_le (utf8Len (front ++ window)) budget)
  have hlen := utf8Len_append front window
  constructor
  · rintro ⟨u, hu⟩
    have hwindow := utf8Len_append u t
    rw [hu] at hwindow
    omega
  · intro hle
    have hstart : utf8Len (front ++ window) - budget ≤ utf8Len a := by
      rw [hs, utf8Len_append]
      omega
    have hcut : isCharBoundary (front ++ window) (utf8Len a) = true :=
      hs ▸ isCharBoundary_append a t
    have hbefore := ceilCharBoundary_le (Nat.sub_le _ _) hstart hcut
    rw [← hfront] at hbefore
    rcases append_eq_append_iff.mp hs with ⟨u, -, hwindow⟩ | ⟨u, hfront', ht⟩
    · exact ⟨u, hwindow.symm⟩
    · have hu : u = [] := by
        have hsum := utf8Len_append a u
        rw [← hfront'] at hsum
        exact utf8Len_eq_zero.mp (by omega)
      rw [ht, hu]
      exact suffix_rfl

structure Kept (output : Text) (maxChars : ℕ) (head tail : Text) : Prop where
  starts : head <+: output
  ends : tail <:+ output
  fits : utf8Len head + utf8Len tail ≤ maxChars
  head_line : '\n' ∉ head ∨ head ++ ['\n'] <+: output
  tail_line : '\n' ∉ tail ∨ '\n' :: tail <:+ output

theorem exists_kept (h : maxChars < utf8Len output) :
    ∃ head tail, takeHeadLines output (maxChars / 5) = .ok head ∧
      takeTailLines output (maxChars - maxChars / 5) = .ok tail ∧ Kept output maxChars head tail := by
  have hheadBudget : maxChars / 5 < utf8Len output := by omega
  have htailBudget : maxChars - maxChars / 5 < utf8Len output := by omega
  obtain ⟨head, rest, hhead, hstart, hheadLen, hheadLine⟩ := takeHeadLines_cases hheadBudget
  obtain ⟨front, window, tail, hend, hfront, htail, hwindow⟩ := takeTailLines_cases htailBudget
  have hsuffix : tail <:+ window := by
    rcases hwindow with ⟨-, rfl⟩ | ⟨line, -, rfl⟩
    · exact suffix_rfl
    · exact ⟨line ++ ['\n'], append_assoc _ _ _⟩
  have hpart : window <:+ output := ⟨front, hend.symm⟩
  refine ⟨head, tail, hhead, htail, ⟨rest, hstart.symm⟩, hsuffix.trans hpart, ?_, ?_, ?_⟩
  · obtain ⟨before, hbefore⟩ := hsuffix.trans hpart
    rw [hend] at hfront
    have htailLen := (suffix_window_iff (hend ▸ hbefore.symm) hfront).mp hsuffix
    omega
  · refine hheadLine.imp_right ?_
    rintro ⟨after, rfl⟩
    exact ⟨after, by rw [hstart, append_assoc, singleton_append]⟩
  · rcases hwindow with ⟨hnone, rfl⟩ | ⟨line, -, rfl⟩
    · exact .inl hnone
    · exact .inr (List.IsSuffix.trans ⟨line, rfl⟩ hpart)

theorem truncateOutput_eq {head : Text} (hpos : 1 ≤ maxChars) (h : maxChars < utf8Len output)
    (hhead : takeHeadLines output (maxChars / 5) = .ok head)
    (htail : takeTailLines output (maxChars - maxChars / 5) = .ok tail) :
    truncateOutput output maxChars = .ok (head ++ plainNotice output head tail [] ++ tail) := by
  rw [truncateOutput, if_neg (by omega)]
  simp only [hhead, htail]
  rfl

/-- An output that fits is returned as it is. Any other one is cut to a true head and a true tail,
the same for both functions, with nothing but the notice between them; a cache stores the whole output
and its notice names the id. -/
theorem truncations_keep (output : Text) (maxChars : ℕ) (cache : Option OutputCache)
    (now created : ℕ) (reductionTip : Option Text) :
    (maxChars = 0 ∨ utf8Len output ≤ maxChars →
      truncateOutput output maxChars = .ok output ∧
      truncateOutputWithCache output maxChars cache now created reductionTip = .ok (output, cache)) ∧
    (1 ≤ maxChars → maxChars < utf8Len output →
      ∃ head tail, Kept output maxChars head tail ∧
        truncateOutput output maxChars = .ok (head ++ plainNotice output head tail [] ++ tail) ∧
        takeHeadLines output (maxChars / 5) = .ok head ∧
        takeTailLines output (maxChars - maxChars / 5) = .ok tail ∧
        truncateOutputWithCache output maxChars cache now created reductionTip =
          match cache with
          | none => .ok (head ++ plainNotice output head tail (tipText reductionTip) ++ tail, none)
          | some cache =>
            let (outputId, cache) := cache.store now created output
            .ok (head ++ cachedNotice output head tail outputId (tipText reductionTip) ++ tail,
              some cache)) := by
  constructor
  · intro h
    exact ⟨if_pos h, if_pos h⟩
  · intro hpos h
    obtain ⟨head, tail, hhead, htail, hkept⟩ := exists_kept h
    refine ⟨head, tail, hkept, truncateOutput_eq hpos h hhead htail, hhead, htail, ?_⟩
    unfold truncateOutputWithCache
    rw [if_neg (by omega)]
    simp only [hhead, htail]
    cases cache with
    | none => rfl
    | some cache => rfl

theorem truncations_keep_lines :
    ∃ head tail, Kept "aaaaaaaa\nbb\n" 5 head tail ∧
      takeHeadLines "aaaaaaaa\nbb\n" 1 = .ok head ∧
      takeTailLines "aaaaaaaa\nbb\n" 4 = .ok tail := by
  obtain ⟨head, tail, hkept, -, hhead, htail, -⟩ :=
    (truncations_keep "aaaaaaaa\nbb\n" 5 none 0 0 none).2 (by decide) (by decide)
  exact ⟨head, tail, hkept, hhead, htail⟩

/-- The last bytes are not all white space: a character with a byte among them is not. -/
def EndsInText (output : Text) (bytes : ℕ) : Prop :=
  ∃ pre c post, output = pre ++ c :: post ∧ isWhitespace c = false ∧ utf8Len post < bytes

/-- Within the last bytes stands a character that is not white space, and a newline before it unless
no newline stands there at all. -/
def EndInReach (output : Text) (bytes : ℕ) : Prop :=
  ∃ pre c post, output = pre ++ c :: post ∧ isWhitespace c = false ∧ utf8Len (c :: post) ≤ bytes ∧
    ((∃ a b, pre = a ++ '\n' :: b ∧ utf8Len ('\n' :: b ++ c :: post) ≤ bytes) ∨
      ∀ a b, output = a ++ '\n' :: b → bytes < utf8Len ('\n' :: b))

theorem mem_of_first_newline {line before : Text} {c : Char} {post : Text} (hline : '\n' ∉ line)
    (h : before ++ ('\n' :: rest ++ c :: post) = line ++ '\n' :: tail) : c ∈ tail := by
  rcases append_eq_append_iff.mp h with ⟨u, hu, hrest⟩ | ⟨u, -, hrest⟩
  · cases u with
    | nil =>
      rw [nil_append, cons_append] at hrest
      rw [← (cons.inj hrest).2]
      simp
    | cons d u =>
      have hd : '\n' = d := (cons.inj hrest).1
      exact absurd (by rw [hu, hd]; simp) hline
  · cases u with
    | nil =>
      rw [nil_append, cons_append] at hrest
      rw [(cons.inj hrest).2]
      simp
    | cons d u =>
      rw [cons_append] at hrest
      rw [(cons.inj hrest).2]
      simp

theorem tail_has_text_iff (h : budget < utf8Len output)
    (htail : takeTailLines output budget = .ok tail) :
    (∃ c ∈ tail, isWhitespace c = false) ↔ EndInReach output budget := by
  obtain ⟨front, window, tail', rfl, hfront, htail', hwindow⟩ := takeTailLines_cases h
  obtain rfl : tail' = tail := Except.ok.inj (htail'.symm.trans htail)
  have hreach : ∀ {a t}, front ++ window = a ++ t → (t <:+ window ↔ utf8Len t ≤ budget) := fun hs =>
    suffix_window_iff hs hfront
  constructor
  · rintro ⟨c, hc, htext⟩
    obtain ⟨before, post, hsplit⟩ := append_of_mem hc
    rcases hwindow with ⟨hnone, rfl⟩ | ⟨line, -, rfl⟩
    · have hs : front ++ tail' = (front ++ before) ++ c :: post := by
        rw [hsplit, append_assoc]
      refine ⟨front ++ before, c, post, hs, htext, (hreach hs).mp ⟨before, hsplit.symm⟩, .inr ?_⟩
      -- a newline within the budget would stand in the window
      intro a b hnewline
      by_contra hle
      have hin := (hreach hnewline).mpr (Nat.le_of_not_lt hle)
      exact hnone (hin.mem mem_cons_self)
    · have hs : front ++ (line ++ '\n' :: tail') =
          (front ++ line ++ '\n' :: before) ++ c :: post := by
        rw [hsplit]
        simp
      have hline : front ++ (line ++ '\n' :: tail') =
          (front ++ line) ++ ('\n' :: before ++ c :: post) := by
        rw [hsplit]
        simp
      refine ⟨front ++ line ++ '\n' :: before, c, post, hs, htext, ?_, .inl ⟨_, _, rfl, ?_⟩⟩
      · exact (hreach hs).mp ⟨line ++ '\n' :: before, by rw [hsplit]; simp⟩
      · exact (hreach hline).mp ⟨line, by rw [hsplit]; simp⟩
  · rintro ⟨pre, c, post, hs, htext, hfits, hbefore⟩
    refine ⟨c, ?_, htext⟩
    rcases hwindow with ⟨-, rfl⟩ | ⟨line, hline, rfl⟩
    · exact ((hreach hs).mpr hfits).mem mem_cons_self
    · have hcut : front ++ (line ++ '\n' :: tail') = (front ++ line) ++ '\n' :: tail' :=
        (append_assoc _ _ _).symm
      rcases hbefore with ⟨a, b, rfl, hle⟩ | hnone
      · rw [append_assoc] at hs
        obtain ⟨before, hwindow⟩ := (hreach hs).mpr hle
        exact mem_of_first_newline hline hwindow
      · have hin := (hreach hcut).mp ⟨line, rfl⟩
        exact absurd hin (Nat.not_le.mpr (hnone _ _ hcut))

/-- The tail of a truncated output has text in it just when the output's end is in reach. -/
theorem end_kept_iff (output : Text) (maxChars : ℕ) (hmax : 5 ≤ maxChars)
    (h : maxChars < utf8Len output) (_hend : EndsInText output (maxChars / 2)) :
    ∃ head tail, truncateOutput output maxChars =
        .ok (head ++ plainNotice output head tail [] ++ tail) ∧
      takeTailLines output (maxChars - maxChars / 5) = .ok tail ∧
      ((∃ c ∈ tail, isWhitespace c = false) ↔ EndInReach output (maxChars - maxChars / 5)) := by
  obtain ⟨head, tail, hhead, htail, -⟩ := exists_kept h
  refine ⟨head, tail, truncateOutput_eq (by omega) h hhead htail, htail, ?_⟩
  exact tail_has_text_iff (by omega) htail

theorem end_kept_iff_lines :
    EndInReach "aaaaaaaa\nbb\n" 4 ∧
      ∃ head tail, truncateOutput "aaaaaaaa\nbb\n" 5 =
          .ok (head ++ plainNotice "aaaaaaaa\nbb\n" head tail [] ++ tail) ∧
        takeTailLines "aaaaaaaa\nbb\n" 4 = .ok tail ∧ ∃ c ∈ tail, isWhitespace c = false := by
  have hreach : EndInReach "aaaaaaaa\nbb\n" 4 :=
    ⟨"aaaaaaaa\nb", 'b', ['\n'], rfl, rfl, by decide,
      .inl ⟨"aaaaaaaa", ['b'], rfl, by decide⟩⟩
  have hend : EndsInText "aaaaaaaa\nbb\n" (5 / 2) :=
    ⟨"aaaaaaaa\nb", 'b', ['\n'], rfl, rfl, by decide⟩
  obtain ⟨head, tail, hall, htail, hiff⟩ :=
    end_kept_iff "aaaaaaaa\nbb\n" 5 (by decide) (by decide) hend
  exact ⟨hreach, head, tail, hall, htail, hiff.mpr hreach⟩

/-- The newline that ends a long last line is the first of the window, and nothing follows it. -/
theorem long_last_line_hidden :
    EndsInText "aaaaaaaaaa\n" (5 / 2) ∧ 5 < utf8Len "aaaaaaaaaa\n" ∧
      takeTailLines "aaaaaaaaaa\n" (5 - 5 / 5) = .ok [] ∧
      truncateOutput "aaaaaaaaaa\n" 5 =
        .ok ("a\n\n--- [truncated: 1 lines total, 0 lines omitted, 11 → 1 chars] ---\n\n") := by
  refine ⟨⟨"aaaaaaaaa", 'a', ['\n'], rfl, rfl, by decide⟩, by decide, rfl, rfl⟩

end BridgeMcp.Output
