import BridgeMcp.Lib.TextScan
import BridgeMcp.Security.Validator

/-!
Line continuations and the blacklist. A POSIX shell deletes a backslash-newline pair that stands
outside quotes before it splits a line into words; the validator puts a blank in its place.
-/
namespace BridgeMcp.Security
open TextLib List

/-- A command with continuations inserted: its own characters and the inserted pairs. -/
inductive Piece where
  | char (c : Char)
  | pair
  deriving DecidableEq

open Piece

def Piece.isBlank : Piece → Bool
  | .char c => isWhitespace c
  | .pair => false

def render (ps : List Piece) : Text :=
  ps.flatMap fun
    | .char c => [c]
    | .pair => ['\\', '\n']

def original (ps : List Piece) : Text :=
  ps.flatMap fun
    | .char c => [c]
    | .pair => []

/-- The command with a blank in place of every pair. -/
def spaced (ps : List Piece) : Text :=
  ps.flatMap fun
    | .char c => [c]
    | .pair => [' ']

section
variable (ps : List Piece)

@[simp] theorem render_char (c : Char) : render (.char c :: ps) = c :: render ps := rfl

@[simp] theorem render_pair : render (.pair :: ps) = '\\' :: '\n' :: render ps := rfl

@[simp] theorem original_char (c : Char) : original (.char c :: ps) = c :: original ps := rfl

@[simp] theorem spaced_char (c : Char) : spaced (.char c :: ps) = c :: spaced ps := rfl

@[simp] theorem spaced_pair : spaced (.pair :: ps) = ' ' :: spaced ps := rfl

end

inductive QuoteState where
  | outside
  | escaped
  | single
  | double
  | doubleEscaped
  deriving DecidableEq

def QuoteState.next (q : QuoteState) (c : Char) : QuoteState :=
  match q with
  | .outside => if c = '\\' then .escaped else if c = '\'' then .single
      else if c = '"' then .double else .outside
  | .escaped => .outside
  | .single => if c = '\'' then .outside else .single
  | .double => if c = '\\' then .doubleEscaped else if c = '"' then .outside else .double
  | .doubleEscaped => .double

/-- A character outside quotes that is no part of a backslash escape. -/
def QuoteState.isPlain (q : QuoteState) (c : Char) : Bool :=
  q == .outside && c != '\\' && c != '\'' && c != '"'

def nextIsPlain (q : QuoteState) : List Piece → Bool
  | [] => false
  | .char c :: _ => q.isPlain c
  | .pair :: ps => nextIsPlain q ps

def betweenPlain : QuoteState → Bool → List Piece → Bool
  | _, _, [] => true
  | q, prev, .pair :: ps => prev && nextIsPlain q ps && betweenPlain q prev ps
  | q, _, .char c :: ps => betweenPlain (q.next c) (q.isPlain c) ps

def continues (ps : List Piece) : Bool := betweenPlain .outside false ps

theorem replaceAll_pair_hit (new s : Text) :
    replaceAll "\\\n" new ('\\' :: '\n' :: s) = new ++ replaceAll "\\\n" new s :=
  replaceAll_hit (by decide) new s

theorem replaceAll_pair_miss (new : Text) {c : Char} {s : Text}
    (h : c = '\\' → s.head? ≠ some '\n') :
    replaceAll "\\\n" new (c :: s) = c :: replaceAll "\\\n" new s := by
  refine replaceAll_miss new ?_
  simp only [String.reduceToList, cons_prefix_cons, not_and]
  intro hc hs
  cases s with
  | nil => simp at hs
  | cons d s =>
    rw [cons_prefix_cons] at hs
    exact h hc.symm (by rw [head?_cons, hs.1])

theorem replaceAll_render (ps : List Piece) :
    replaceAll "\\\n" [' '] (render ps) = replaceAll "\\\n" [' '] (spaced ps) := by
  induction hn : ps.length using Nat.strong_induction_on generalizing ps with
  | _ n ih =>
    match ps with
    | [] => rfl
    | .pair :: ps =>
      rw [render_pair, spaced_pair, replaceAll_pair_hit,
        replaceAll_pair_miss _ (fun h => absurd h (by decide)),
        ih ps.length (by simp [← hn]) ps rfl]
      rfl
    | .char c :: ps =>
      have htail := ih ps.length (by simp [← hn]) ps rfl
      rw [render_char, spaced_char]
      match ps with
      | [] => rfl
      | .pair :: ps =>
        rw [replaceAll_pair_miss _ (by simp), replaceAll_pair_miss _ (by simp), htail]
      | .char d :: ps =>
        by_cases hc : c = '\\' ∧ d = '\n'
        · obtain ⟨rfl, rfl⟩ := hc
          rw [render_char, spaced_char, replaceAll_pair_hit, replaceAll_pair_hit,
            ih ps.length (by simp only [← hn, length_cons]; omega) ps rfl]
        · rw [replaceAll_pair_miss _ (by simpa using hc), replaceAll_pair_miss _
            (by simpa using hc), htail]

theorem normalize_render (ps : List Piece) :
    normalizeForBlacklistMatch (render ps) = normalizeForBlacklistMatch (spaced ps) := by
  unfold normalizeForBlacklistMatch
  have hblank : " " = [' '] := by decide
  rw [hblank, replaceAll_render]

/-- Trimming by pieces. A pair is no blank, but its newline is: a pair that comes to stand last is
left with its backslash. -/
def trimPieces (ps : List Piece) : List Piece :=
  let inner := (ps.dropWhile isBlank).rdropWhile isBlank
  if inner.getLast? = some .pair then inner.dropLast ++ [.char '\\'] else inner

theorem render_append (ps qs : List Piece) : render (ps ++ qs) = render ps ++ render qs :=
  flatMap_append

theorem dropWhile_render (ps : List Piece) :
    (render ps).dropWhile isWhitespace = render (ps.dropWhile isBlank) := by
  induction ps with
  | nil => rfl
  | cons p ps ih =>
    cases p with
    | pair => rfl
    | char c =>
      by_cases hc : isWhitespace c = true
      · simp [hc, isBlank, ih]
      · simp [hc, isBlank]

theorem trimEnd_render (ps : List Piece) :
    trimEnd (render ps) = render (if (ps.rdropWhile isBlank).getLast? = some .pair then
      (ps.rdropWhile isBlank).dropLast ++ [.char '\\'] else ps.rdropWhile isBlank) := by
  induction ps using reverseRecOn with
  | nil => rfl
  | append_singleton ps p ih =>
    rw [render_append]
    cases p with
    | pair =>
      have hlast : (ps ++ [pair]).rdropWhile isBlank = ps ++ [pair] :=
        rdropWhile_concat_neg _ _ _ (by decide)
      have hnewline : trimEnd (render ps ++ ['\\', '\n']) = render ps ++ ['\\'] := by
        rw [trimEnd, show render ps ++ ['\\', '\n'] = (render ps ++ ['\\']) ++ ['\n'] by simp,
          rdropWhile_concat_pos _ _ _ (by decide),
          rdropWhile_concat_neg _ _ _ (by decide)]
      rw [hlast]
      simp only [getLast?_concat, if_true, dropLast_concat, render_append]
      exact hnewline
    | char c =>
      change trimEnd (render ps ++ [c]) = _
      by_cases hc : isWhitespace c = true
      · rw [trimEnd, rdropWhile_concat_pos _ _ _ hc,
          rdropWhile_concat_pos _ _ _ (by simpa [isBlank] using hc)]
        exact ih
      · rw [trimEnd, rdropWhile_concat_neg _ _ _ hc,
          rdropWhile_concat_neg _ _ _ (by simpa [isBlank] using hc)]
        simp [render]

theorem trim_render (ps : List Piece) : trim (render ps) = render (trimPieces ps) := by
  rw [trim, dropWhile_render, trimEnd_render]
  rfl

/-- How many of its characters are a backslash, a blank or an `I`. Every spelling that the normaliser
rewrites has exactly one, like the blank it becomes. -/
def marks (s : Text) : ℕ := s.count '\\' + s.countP fun c => c == ' ' || c == 'I'

theorem marks_normalize (s : Text) : marks (normalizeForBlacklistMatch s) = marks s := by
  rw [normalizeForBlacklistMatch_eq]
  refine replaceEach_additive (f := marks) (fun a b => ?_) (by decide) s
  rw [marks, marks, marks, count_append, countP_append]
  omega

theorem original_sublist (ps : List Piece) : original ps <+ render ps := by
  induction ps with
  | nil => exact .refl _
  | cons p ps ih =>
    cases p with
    | char c => exact ih.cons_cons c
    | pair => exact (ih.cons _).cons _

variable {ps : List Piece}

theorem count_original_lt (h : .pair ∈ ps) : (original ps).count '\\' < (render ps).count '\\' := by
  obtain ⟨front, back, rfl⟩ := append_of_mem h
  have hsub := original_sublist (front ++ back)
  have hcount := hsub.count_le '\\'
  rw [render_append, count_append] at hcount ⊢
  rw [show original (front ++ pair :: back) = original (front ++ back) by simp [original],
    render_pair, count_cons_self]
  have hnewline := (sublist_cons_self '\n' (render back)).count_le '\\'
  omega

/-- An inserted pair always shows in the text the patterns are matched against. -/
theorem normalize_render_ne (h : .pair ∈ ps) :
    normalizeForBlacklistMatch (trim (render ps)) ≠
      normalizeForBlacklistMatch (trim (original ps)) := by
  intro hsame
  have hmarks := congrArg marks hsame
  rw [marks_normalize, marks_normalize, marks, marks, count_trim _ (by decide),
    count_trim _ (by decide)] at hmarks
  have hrest := (trim_sublist_trim (original_sublist ps)).countP_le
    (p := fun c => c == ' ' || c == 'I')
  have hpair := count_original_lt h
  omega

theorem original_eq_render (h : .pair ∉ ps) : original ps = render ps := by
  induction ps with
  | nil => rfl
  | cons p ps ih =>
    cases p with
    | pair => simp at h
    | char c => rw [original_char, render_char, ih (by simpa using h)]

theorem original_of_trim_nil (h : trim (render ps) = []) :
    original ps = render ps := by
  refine original_eq_render fun hmem => ?_
  have hbackslash : '\\' ∈ render ps := mem_flatMap.mpr ⟨.pair, hmem, by simp⟩
  exact absurd (trim_eq_nil h _ hbackslash) (by decide)

theorem both_denied_of_empty {rx : RegexCrate} {config : SecurityConfig} {command : Text}
    (h : trim command = []) :
    Denied ((CommandValidator.new rx config).validate command) ∧
      Denied ((CommandValidator.new rx config).validateBuiltin command) := by
  constructor
  · refine ⟨"Command cannot be empty", ?_⟩
    change ((CommandValidator.new rx config).checkBlacklist (trim command) >>= fun _ => _) = _
    rw [h]
    rfl
  · refine ⟨"Command cannot be empty", ?_⟩
    change (CommandValidator.new rx config).checkBlacklist (trim command) = _
    rw [h]
    rfl

/-- If the command is blacklisted, it is denied in every mode with its continuations too. -/
def StaysDenied (rx : RegexCrate) (config : SecurityConfig) (ps : List Piece) : Prop :=
  Blacklisted rx config (normalizeForBlacklistMatch (trim (original ps))) → ∀ mode,
    Denied ((CommandValidator.new rx { config with mode := mode }).validate (render ps)) ∧
      Denied ((CommandValidator.new rx { config with mode := mode }).validateBuiltin (render ps))

theorem staysDenied_iff {rx : RegexCrate} {config : SecurityConfig} :
    StaysDenied rx config ps ↔
      (Blacklisted rx config (normalizeForBlacklistMatch (trim (original ps))) →
        Blacklisted rx config (normalizeForBlacklistMatch (trim (render ps)))) := by
  refine imp_congr_right fun h => ?_
  by_cases hempty : trim (render ps) = []
  · refine iff_of_true (fun mode => both_denied_of_empty hempty) ?_
    rwa [original_of_trim_nil hempty] at h
  · -- The blacklist is the same in every mode.
    constructor
    · intro hdenied
      exact (both_denied_iff hempty).mp (hdenied config.mode)
    · intro hblack mode
      exact (both_denied_iff hempty).mpr hblack

/-- A text of at most `size` characters can be written as a pattern that matches it alone
(`regex::escape` between `\A` and `\z`). -/
def RegexCrate.CompilesWhole (rx : RegexCrate) (size : ℕ) : Prop :=
  ∀ t : Text, t.length ≤ size → ∃ p re, rx.compile p = some re ∧
    ∀ text, rx.isMatch re text = true ↔ text = t

/-- A blacklisted command stays denied, in every mode, when continuations are inserted into it
exactly if the blacklist also matches it with a blank in place of every one of them; whatever the
blacklist, it stays denied exactly if none is inserted. -/
theorem continuation_denied_iff (rx : RegexCrate) (ps : List Piece) :
    (∀ config, StaysDenied rx config ps ↔
      (Blacklisted rx config (normalizeForBlacklistMatch (trim (original ps))) →
        Blacklisted rx config (normalizeForBlacklistMatch (spaced (trimPieces ps))))) ∧
    ∀ size, rx.CompilesWhole size →
      (normalizeForBlacklistMatch (trim (original ps))).length ≤ size →
      ((∀ config, StaysDenied rx config ps) ↔ .pair ∉ ps) := by
  rw [← normalize_render, ← trim_render]
  refine ⟨fun config => staysDenied_iff, fun size hwhole hsize => ⟨fun hall hpair => ?_, ?_⟩⟩
  · -- the pattern for the command alone
    obtain ⟨p, re, hre, honly⟩ := hwhole _ hsize
    obtain ⟨q, hq, re', hre', hmatch⟩ := staysDenied_iff.mp (hall ⟨.permissive, [], [p]⟩)
      ⟨p, mem_singleton_self p, re, hre, (honly _).mpr rfl⟩
    obtain rfl := mem_singleton.mp hq
    obtain rfl := Option.some.inj (hre'.symm.trans hre)
    exact normalize_render_ne hpair ((honly _).mp hmatch)
  · intro hnone config
    rw [staysDenied_iff, original_eq_render hnone]
    exact id

def wholeCrate : RegexCrate := ⟨Text, some, fun re text => decide (text = re), id⟩

theorem continuation_denied_shutdown :
    Denied ((CommandValidator.new literalCrate ⟨.permissive, [], ["shutdown"]⟩).validate
      (render ("shutdown ".toList.map char ++ pair :: "now".toList.map char))) ∧
    ¬ ∀ config, StaysDenied wholeCrate config ("shutdown ".toList.map char ++ [pair]) := by
  have hcompile : literalCrate.compile "shutdown" =
      some ("shutdown".toList, "shutdown".toList) :=
    congrArg (Option.map fun t => ("shutdown".toList, t))
      (by decide +kernel : literalOf "shutdown" = some "shutdown")
  constructor
  · have hstays := ((continuation_denied_iff literalCrate
      ("shutdown ".toList.map char ++ pair :: "now".toList.map char)).1
      ⟨.permissive, [], ["shutdown"]⟩).mpr fun _ =>
        ⟨"shutdown", by simp, _, hcompile, by decide +kernel⟩
    exact (hstays ⟨"shutdown", by simp, _, hcompile, by decide +kernel⟩ .permissive).1
  · intro hall
    refine ((continuation_denied_iff wholeCrate _).2 _ (fun t _ => ⟨t, t, rfl, fun _ => ?_⟩)
      (le_refl _)).mp hall (mem_append_right _ (mem_singleton_self _))
    exact decide_eq_true_iff

/-- A pair inside the first word: the shell still runs `rm -rf /`, the validator sees `r m -rf /`. -/
theorem continuation_bypasses_blacklist :
    continues (.char 'r' :: .pair :: "m -rf /".toList.map char) = true ∧
    original (.char 'r' :: .pair :: "m -rf /".toList.map char) = "rm -rf /" ∧
    render (.char 'r' :: .pair :: "m -rf /".toList.map char) = "r\\\nm -rf /" ∧
    Denied ((CommandValidator.new literalCrate ⟨.permissive, [], ["rm -rf"]⟩).validate
      "rm -rf /") ∧
    (CommandValidator.new literalCrate ⟨.permissive, [], ["rm -rf"]⟩).validate
      "r\\\nm -rf /" = .ok () ∧
    (CommandValidator.new literalCrate ⟨.permissive, [], ["rm -rf"]⟩).validateBuiltin
      "r\\\nm -rf /" = .ok () := by
  refine ⟨by decide +kernel, by decide +kernel, by decide +kernel, ?_, by decide +kernel,
    by decide +kernel⟩
  exact ⟨"Command matches blacklist pattern: " ++ "rm -rf", by decide +kernel⟩

end BridgeMcp.Security
