import BridgeMcp.Database.QueryFilter
import BridgeMcp.Database.SqlTokens
import BridgeMcp.Lib.RegexMatch

/-!
Which of the dangerous statements of a query the deny list sees.

A statement is seen by a reading that comes to its first word between two of the things it blanks
and leaves only blanks in the gap to the next word.
-/
namespace BridgeMcp.Database
open TextLib RegexLib BridgeMcp.Shell List

/-- The word class of the Unicode tables is the usual one on ASCII. -/
def AsciiWords (u : Unicode) : Prop :=
  ∀ c : Char, c.toNat < 128 → u.word c = (c.isAlphanum || c == '_')

variable {u : Unicode} {c : Char}

theorem AsciiWords.not_word (hu : AsciiWords u) (h : isWordLetter c = false) :
    u.word c = false := by
  simp only [isWordLetter, Bool.or_eq_false_iff, decide_eq_false_iff_not, Nat.not_le] at h
  rw [hu c h.2, h.1.1, h.1.2]
  rfl

theorem letter_of_lower (h : c.toLower.isLower = true) :
    c.isAlphanum = true ∧ c.toNat < 128 := by
  revert h
  refine ascii_case (P := fun c => c.toLower.isLower = true →
    c.isAlphanum = true ∧ c.toNat < 128) (by decide) ?_ c
  intro c hlower _ h
  rw [hlower] at h
  have hcode := isLower_iff.mp h
  exact ⟨isAlphanum_iff.mpr (.inr (.inr hcode)), by omega⟩

theorem lower_of_upper (h : c.isUpper = true) :
    c.toLower.isLower = true ∧ isCapital c = true := by
  have hlt : c.toNat < 128 := Nat.lt_of_le_of_lt (isUpper_iff.mp h).2 (by decide)
  have hall : ∀ n < 128, (Char.ofNat n).isUpper = true →
      (Char.ofNat n).toLower.isLower = true ∧ isCapital (Char.ofNat n) = true := by decide
  rw [← Char.ofNat_toNat c] at h ⊢
  exact hall _ hlt h

variable {w : Text}

theorem Spells.letter {k : String} (hk : k.toList.all Char.isUpper = true)
    (h : Spells k w) (hc : c ∈ w) : c.isAlphanum = true ∧ c.toNat < 128 := by
  have hmem : c.toLower ∈ lower k.toList := h ▸ mem_map_of_mem hc
  obtain ⟨d, hd, hlower⟩ := mem_map.mp hmem
  apply letter_of_lower
  rw [← hlower]
  exact (lower_of_upper (all_eq_true.mp hk d hd)).1

theorem Spells.word (hu : AsciiWords u) {k : String}
    (hk : k.toList.all Char.isUpper = true) (h : Spells k w) : ∀ c ∈ w, u.word c = true := by
  intro c hc
  obtain ⟨halnum, hascii⟩ := h.letter hk hc
  rw [hu c hascii, halnum, Bool.true_or]

theorem Spells.matches {k : String} (hk : k.toList.all Char.isUpper = true)
    (h : Spells k w) (before after : Text) : Matches u (lit true k) before w after := by
  apply matches_lit _ h
  exact all_eq_true.mpr fun c hc => (lower_of_upper (all_eq_true.mp hk c hc)).2

variable {k : Scanner}

theorem readings_word (hk : k ∈ readings) (hc : isWordChar c = true) (s : Text) :
    k.next (c :: s) = none := by
  have hne : ∀ d : Char, isWordChar d = false → ¬ d = c := by
    rintro d hd rfl
    rw [hd] at hc
    cases hc
  have hslash := hne '/' (by decide)
  have hstar := hne '*' (by decide)
  have hdash := hne '-' (by decide)
  have hhash := hne '#' (by decide)
  simp only [readings, mem_cons, not_mem_nil, or_false] at hk
  rcases hk with rfl | rfl | rfl
  · rfl
  · simp [comments, commentEnd, blockEnd, lineEnd, hslash, hdash, hhash]
  · simp [delimiters, delimiterEnd, openerEnd, closerEnd, hslash, hstar]

theorem reads_word (hk : k ∈ readings) (hw : ∀ c ∈ w, isWordChar c = true)
    (rest : Text) : k.Reads [' '] rest w w := by
  induction w with
  | nil => exact .nil
  | cons c w ih =>
    exact .char (readings_word hk (hw c mem_cons_self) _)
      (ih fun d hd => hw d (mem_cons_of_mem c hd))

theorem matches_boundary {before after : Text}
    (h : (before.head?.any u.word = true ∧ ∀ c ∈ after.head?, u.word c = false) ∨
      ((∀ c ∈ before.head?, u.word c = false) ∧ after.head?.any u.word = true)) :
    Matches u .wordBoundary before [] after := by
  have hnone : ∀ o : Option Char, (∀ c ∈ o, u.word c = false) → o.any u.word = false := by
    intro o ho
    cases o with
    | none => rfl
    | some c => exact ho c rfl
  refine ⟨rfl, ?_⟩
  rcases h with ⟨hin, hout⟩ | ⟨hout, hin⟩
  · rw [hin, hnone _ hout]
    rfl
  · rw [hin, hnone _ hout]
    rfl

section
variable (hu : AsciiWords u) {p w rest v : Text} (hword : WordAt p w rest)
  (hletters : ∀ c ∈ w, u.word c = true)
include hu hword hletters

theorem matches_start (hv : k.Reads [' '] (w ++ rest) p v) (after : Text) :
    Matches u .wordBoundary v.reverse [] (w ++ after) := by
  apply matches_boundary
  refine .inr ⟨?_, ?_⟩
  · rw [head?_reverse]
    refine hv.getLast (P := fun c => u.word c = false) (cons_ne_nil _ _) ?_ ?_
    · intro c hc
      obtain rfl : ' ' = c := Option.some.inj hc
      exact hu.not_word (by decide)
    · exact fun c hc => hu.not_word (hword.before c hc)
  · obtain ⟨c, w, rfl⟩ := exists_cons_of_ne_nil hword.nonempty
    exact hletters c mem_cons_self

theorem matches_end (before : Text) :
    Matches u .wordBoundary (w.reverse ++ before) [] (k.subst [' '] rest) := by
  apply matches_boundary
  refine .inl ⟨?_, ?_⟩
  · obtain ⟨init, c, rfl⟩ := (eq_nil_or_concat w).resolve_left hword.nonempty
    rw [concat_eq_append, reverse_append]
    exact hletters c (by rw [concat_eq_append]; exact mem_append_right _ mem_cons_self)
  · refine Scanner.subst_head (P := fun c => u.word c = false) ?_ (cons_ne_nil _ _) ?_
    · intro c hc
      obtain rfl : ' ' = c := Option.some.inj hc
      exact hu.not_word (by decide)
    · intro c hc
      exact hu.not_word (Bool.or_eq_false_iff.mp (hword.after c hc)).1

end

theorem matches_spaces {g : Text} (hne : g ≠ []) (hblank : ∀ c ∈ g, isWhitespace c = true)
    (before after : Text) : Matches u spaces before g after := by
  refine matches_class (fun c hc => ?_) (length_pos_of_ne_nil hne)
  simpa [CharClass.has, ClassItem.has] using hblank c hc

theorem matches_toLineEnd {m : Text} (h : '\n' ∉ m) (before after : Text) :
    Matches u toLineEnd before m after := by
  refine matches_class (fun c hc => ?_) (Nat.zero_le _)
  have hne : c ≠ '\n' := fun heq => h (heq ▸ hc)
  simp [CharClass.has, ClassItem.has_single, hne]

variable {K : String} {rs : List Regex}

theorem matches_lastWord (hK : K.toList.all Char.isUpper = true) {w after : Text}
    (hw : Spells K w) (before : Text)
    (hrs : Matches u (seq rs) (w.reverse ++ before) [] after) :
    Matches u (seq (lit true K :: rs)) before w after := by
  have hseq := matches_seq (hw.matches hK before _) hrs
  rwa [append_nil] at hseq

section
variable (hu : AsciiWords u) {K : String} (hK : K.toList.all Char.isUpper = true)
  {p w rest : Text} (hword : WordAt p w rest) (hw : Spells K w)
include hu hK hword hw

theorem matches_wordEnd (before : Text) :
    Matches u (seq [.wordBoundary]) (w.reverse ++ before) [] (k.subst [' '] rest) :=
  matches_seq_nil (matches_end hu hword (hw.word hu hK) before) rfl

theorem matches_firstWord {v g y after : Text}
    (hv : k.Reads [' '] (w ++ rest) p v) (hne : g ≠ []) (hblank : ∀ c ∈ g, isWhitespace c = true)
    (hrs : Matches u (seq rs) (g.reverse ++ (w.reverse ++ v.reverse)) y after) :
    Matches u (seq (.wordBoundary :: lit true K :: spaces :: rs)) v.reverse (w ++ (g ++ y))
      after := by
  have hstart := matches_start hu hword (hw.word hu hK) hv (g ++ y ++ after)
  refine matches_seq_nil ?_ ?_
  · rwa [append_assoc]
  · exact matches_seq (hw.matches hK _ _) (matches_seq (matches_spaces hne hblank _ _) hrs)

end

theorem subst_word (hk : k ∈ readings) {p w rest v : Text} (hword : WordAt p w rest)
    (hv : k.Reads [' '] (w ++ rest) p v) :
    k.subst [' '] (p ++ (w ++ rest)) = v ++ (w ++ k.subst [' '] rest) := by
  rw [hv.subst, (reads_word hk hword.wordChars rest).subst]

theorem isMatch_keyword (hu : AsciiWords u) (hk : k ∈ readings)
    (hK : K.toList.all Char.isUpper = true) {p w rest v : Text} (hword : WordAt p w rest)
    (hw : Spells K w) (hv : k.Reads [' '] (w ++ rest) p v) :
    isMatch u (keyword K) (k.subst [' '] (p ++ (w ++ rest))) = true := by
  rw [subst_word hk hword hv, ← append_assoc]
  apply isMatch_of_matches
  exact matches_seq_nil (matches_start hu hword (hw.word hu hK) hv _)
    (matches_lastWord hK hw _ (matches_wordEnd hu hK hword hw _))

theorem reads_plain (rest p : Text) : plain.Reads [' '] rest p p := by
  induction p with
  | nil => exact .nil
  | cons c p ih => exact .char rfl ih

theorem exists_pattern_keyword (hu : AsciiWords u) (hK : K ∈ deniedKeywords)
    {p w rest : Text} (hword : WordAt p w rest) (hw : Spells K w) :
    ∃ pattern ∈ dangerousSqlPatterns,
      isMatch u pattern.1 (plain.subst [' '] (p ++ (w ++ rest))) = true := by
  have hmatch : ∀ K : String, K.toList.all Char.isUpper = true → Spells K w →
      isMatch u (keyword K) (plain.subst [' '] (p ++ (w ++ rest))) = true :=
    fun _ hupper hw => isMatch_keyword hu mem_cons_self hupper hword hw (reads_plain _ p)
  simp only [deniedKeywords, mem_cons, not_mem_nil, or_false] at hK
  rcases hK with rfl | rfl | rfl
  · exact ⟨(keyword "TRUNCATE", "TRUNCATE"), by simp [dangerousSqlPatterns],
      hmatch _ (by decide) hw⟩
  · exact ⟨(keyword "GRANT", "GRANT"), by simp [dangerousSqlPatterns], hmatch _ (by decide) hw⟩
  · exact ⟨(keyword "REVOKE", "REVOKE"), by simp [dangerousSqlPatterns], hmatch _ (by decide) hw⟩

structure PairAt (p a g b rest : Text) : Prop where
  first : WordAt p a (g ++ (b ++ rest))
  second : WordAt (p ++ (a ++ g)) b rest

theorem PairAt.gap_ne_nil {p a g b rest : Text} (h : PairAt p a g b rest) : g ≠ [] := by
  rintro rfl
  obtain ⟨c, b', rfl⟩ := exists_cons_of_ne_nil h.second.nonempty
  have hin := h.second.wordChars c mem_cons_self
  rw [h.first.after c rfl] at hin
  cases hin

/-- A pair of words that a reading sees: it comes to the first one, and leaves blanks between. -/
structure SeenBy (k : Scanner) (p a g b rest : Text) : Prop where
  reaches : k.Leaves [' '] (fun _ => True) p (a ++ (g ++ (b ++ rest)))
  blank : k.Leaves [' '] (fun c => isWhitespace c = true) g (b ++ rest)

section
variable (hu : AsciiWords u) (hk : k ∈ readings)
include hu hk

theorem isMatch_pair (hK : K.toList.all Char.isUpper = true) {p a g b rest v vg y after : Text}
    (hpair : PairAt p a g b rest) (ha : Spells K a)
    (hv : k.Reads [' '] (a ++ (g ++ (b ++ rest))) p v) (hvg : k.Reads [' '] (b ++ rest) g vg)
    (hblank : ∀ c ∈ vg, isWhitespace c = true) (hy : b ++ k.subst [' '] rest = y ++ after)
    (hrs : Matches u (seq rs) (vg.reverse ++ (a.reverse ++ v.reverse)) y after) :
    isMatch u (seq (.wordBoundary :: lit true K :: spaces :: rs))
      (k.subst [' '] (p ++ (a ++ (g ++ (b ++ rest))))) = true := by
  have hne : vg ≠ [] := by
    rintro rfl
    exact hpair.gap_ne_nil (hvg.eq_nil (cons_ne_nil _ _))
  rw [subst_word hk hpair.first hv, hvg.subst, (reads_word hk hpair.second.wordChars rest).subst,
    hy, ← append_assoc vg, ← append_assoc a, ← append_assoc v]
  apply isMatch_of_matches
  exact matches_firstWord hu hK hpair.first ha hv hne hblank hrs

theorem exists_pattern_pair {K : String × String}
    (hK : K ∈ deniedPairs) {p a g b rest : Text} (hpair : PairAt p a g b rest)
    (ha : Spells K.1 a) (hb : Spells K.2 b) (hseen : SeenBy k p a g b rest) :
    ∃ pattern ∈ dangerousSqlPatterns,
      isMatch u pattern.1 (k.subst [' '] (p ++ (a ++ (g ++ (b ++ rest))))) = true := by
  obtain ⟨v, hv, _⟩ := hseen.reaches
  obtain ⟨vg, hvg, hblank⟩ := hseen.blank
  simp only [deniedPairs, mem_cons, not_mem_nil, or_false] at hK
  rcases hK with rfl | rfl | rfl | rfl
  · refine ⟨(keywords "DROP" "DATABASE", "DROP DATABASE"), by simp [dangerousSqlPatterns], ?_⟩
    refine isMatch_pair hu hk (by decide) hpair ha hv hvg hblank rfl ?_
    exact matches_lastWord (by decide) hb _ (matches_wordEnd hu (by decide) hpair.second hb _)
  · refine ⟨(keywords "DROP" "SCHEMA", "DROP SCHEMA"), by simp [dangerousSqlPatterns], ?_⟩
    refine isMatch_pair hu hk (by decide) hpair ha hv hvg hblank rfl ?_
    exact matches_lastWord (by decide) hb _ (matches_wordEnd hu (by decide) hpair.second hb _)
  · refine ⟨(dropTable, "DROP TABLE"), by simp [dangerousSqlPatterns], ?_⟩
    refine isMatch_pair hu hk (by decide) hpair ha hv hvg hblank rfl ?_
    refine matches_lastWord (by decide) hb _ (matches_seq_nil (matches_rep_nil _ _ _) ?_)
    exact matches_wordEnd hu (by decide) hpair.second hb _
  · refine ⟨(deleteFrom, "DELETE FROM"), by simp [dangerousSqlPatterns], ?_⟩
    refine isMatch_pair hu hk (by decide) hpair ha hv hvg hblank rfl ?_
    refine matches_seq_nil (matches_rep_nil _ _ _) ?_
    exact matches_lastWord (by decide) hb _ (matches_wordEnd hu (by decide) hpair.second hb _)

theorem isMatch_alterTableDrop {p a g b m c rest : Text} (hpair : PairAt p a g b (m ++ (c ++ rest)))
    (hdrop : WordAt (p ++ (a ++ (g ++ (b ++ m)))) c rest) (ha : Spells "ALTER" a)
    (hb : Spells "TABLE" b) (hc : Spells "DROP" c) (hseen : SeenBy k p a g b (m ++ (c ++ rest)))
    (hline : k.Leaves [' '] (· ≠ '\n') m (c ++ rest)) :
    isMatch u alterTableDrop
      (k.subst [' '] (p ++ (a ++ (g ++ (b ++ (m ++ (c ++ rest))))))) = true := by
  obtain ⟨v, hv, _⟩ := hseen.reaches
  obtain ⟨vg, hvg, hblank⟩ := hseen.blank
  obtain ⟨vm, hvm, hnl⟩ := hline
  have hy : b ++ k.subst [' '] (m ++ (c ++ rest)) = b ++ (vm ++ c) ++ k.subst [' '] rest := by
    rw [hvm.subst, (reads_word hk hdrop.wordChars rest).subst]
    simp only [append_assoc]
  refine isMatch_pair hu hk (by decide) hpair ha hv hvg hblank hy ?_
  refine matches_seq (hb.matches (by decide) _ _) ?_
  refine matches_seq_nil ?_ (matches_seq (matches_toLineEnd (fun h => hnl _ h rfl) _ _) ?_)
  · -- the end of `TABLE`
    have hend := matches_end hu hpair.second (hb.word hu (by decide))
      (vg.reverse ++ (a.reverse ++ v.reverse)) (k := k)
    rwa [hvm.subst, (reads_word hk hdrop.wordChars rest).subst, ← append_assoc vm] at hend
  · -- the start of `DROP`, after all that the reading left before it
    have hall : k.Reads [' '] (c ++ rest) (p ++ (a ++ (g ++ (b ++ m))))
        (v ++ (a ++ (vg ++ (b ++ vm)))) := by
      refine .append ?_ (.append ?_ (.append ?_ (.append ?_ hvm)))
      · simpa only [append_assoc] using hv
      · exact reads_word hk hpair.first.wordChars _
      · simpa only [append_assoc] using hvg
      · exact reads_word hk hpair.second.wordChars _
    have hstart := matches_start hu hdrop (hc.word hu (by decide)) hall (k.subst [' '] rest)
    simp only [reverse_append, append_assoc] at hstart
    exact matches_seq_nil hstart (matches_lastWord (by decide) hc _
      (matches_wordEnd hu (by decide) hdrop hc _))

end

variable {d : Dialect} {query : Text}

theorem texts_append (xs ys : List Piece) : texts (xs ++ ys) = texts xs ++ texts ys :=
  flatMap_append

theorem texts_cons (x : Piece) (xs : List Piece) : texts (x :: xs) = x.text ++ texts xs :=
  flatMap_cons

theorem lex_word {xs ys : List Piece} (h : d.lex query = xs ++ .word w :: ys) :
    query = texts xs ++ (w ++ texts ys) ∧ WordAt (texts xs) w (texts ys) := by
  have hlexed := lexed_lex d query
  rw [h] at hlexed
  obtain ⟨rest, hquery, hrest, hword⟩ := hlexed.wordAt
  rw [hrest.texts, ← append_assoc]
  exact ⟨hquery, hword⟩

theorem lex_pair {xs gap ys : List Piece} {a b : Text}
    (h : d.lex query = xs ++ .word a :: (gap ++ .word b :: ys)) :
    query = texts xs ++ (a ++ (texts gap ++ (b ++ texts ys))) ∧
      PairAt (texts xs) a (texts gap) b (texts ys) := by
  obtain ⟨hquery, hfirst⟩ := lex_word h
  have hcut : d.lex query = (xs ++ .word a :: gap) ++ .word b :: ys := by
    rw [h, append_assoc, cons_append]
  obtain ⟨-, hsecond⟩ := lex_word hcut
  rw [texts_append, texts_cons] at hquery hfirst hsecond
  exact ⟨hquery, hfirst, hsecond⟩

/-- A dangerous statement of the query that the deny list sees: a keyword always, a pair of words
by a reading that sees it, and a `DROP` after `ALTER TABLE` if that reading leaves both in one
line. -/
inductive Visible (d : Dialect) (query : Text) : Prop where
  | keyword {xs ys : List Piece} {K : String} {w : Text} (hK : K ∈ deniedKeywords)
      (hw : Spells K w) (hlex : d.lex query = xs ++ .word w :: ys)
  | pair {xs gap ys : List Piece} {K : String × String} {a b : Text} (hK : K ∈ deniedPairs)
      (ha : Spells K.1 a) (hb : Spells K.2 b) (hgap : ∀ x ∈ gap, x.isSeparator = true)
      (hlex : d.lex query = xs ++ .word a :: (gap ++ .word b :: ys)) {k : Scanner}
      (hk : k ∈ readings) (hseen : SeenBy k (texts xs) a (texts gap) b (texts ys))
  | alterDrop {xs gap mid ys : List Piece} {a b c : Text} (ha : Spells "ALTER" a)
      (hb : Spells "TABLE" b) (hc : Spells "DROP" c) (hgap : ∀ x ∈ gap, x.isSeparator = true)
      (hmid : Piece.symbol ';' ∉ mid)
      (hlex : d.lex query = xs ++ .word a :: (gap ++ .word b :: (mid ++ .word c :: ys)))
      {k : Scanner} (hk : k ∈ readings)
      (hseen : SeenBy k (texts xs) a (texts gap) b (texts mid ++ (c ++ texts ys)))
      (hline : k.Leaves [' '] (· ≠ '\n') (texts mid) (c ++ texts ys))

theorem Visible.exists_match (hu : AsciiWords u) (h : Visible d query) :
    ∃ k ∈ readings, ∃ pattern ∈ dangerousSqlPatterns,
      isMatch u pattern.1 (k.subst [' '] query) = true := by
  cases h with
  | keyword hK hw hlex =>
    obtain ⟨hquery, hword⟩ := lex_word hlex
    rw [hquery]
    exact ⟨plain, mem_cons_self, exists_pattern_keyword hu hK hword hw⟩
  | pair hK ha hb _ hlex hk hseen =>
    obtain ⟨hquery, hpair⟩ := lex_pair hlex
    rw [hquery]
    exact ⟨_, hk, exists_pattern_pair hu hk hK hpair ha hb hseen⟩
  | @alterDrop xs gap mid ys a b c ha hb hc _ _ hlex k hk hseen hline =>
    obtain ⟨hquery, hpair⟩ := lex_pair hlex
    have hcut : d.lex query = (xs ++ .word a :: (gap ++ .word b :: mid)) ++ .word c :: ys := by
      rw [hlex]
      simp only [append_assoc, cons_append]
    obtain ⟨-, hdrop⟩ := lex_word hcut
    simp only [texts_append, texts_cons, Piece.text] at hquery hpair hdrop
    rw [hquery]
    exact ⟨k, hk, (alterTableDrop, "ALTER TABLE ... DROP"), by simp [dangerousSqlPatterns],
      isMatch_alterTableDrop hu hk hpair hdrop ha hb hc hseen hline⟩

theorem Visible.denied (hu : AsciiWords u) (h : Visible d query) :
    ∃ reason, validateQuery u query = .error reason := by
  cases hresult : validateQuery u query with
  | error reason => exact ⟨reason, rfl⟩
  | ok _ =>
    obtain ⟨k, hk, pattern, hpattern, hmatch⟩ := h.exists_match hu
    rw [((validateQuery_ok_iff query).mp hresult).2 k hk pattern hpattern] at hmatch
    cases hmatch

/-- A query with a dangerous statement is denied if the deny list sees one of them. -/
theorem dangerous_statements_denied (hu : AsciiWords u) (d : Dialect) (query : Text)
    (hvisible : Dangerous (d.tokens query) → Visible d query) (h : Dangerous (d.tokens query)) :
    ∃ reason, validateQuery u query = .error reason :=
  (hvisible h).denied hu

theorem dangerous_statements_denied_comment :
    Dangerous (mysql.tokens "DROP/* x */TABLE t") ∧
      ∃ reason, validateQuery .ascii "DROP/* x */TABLE t" = .error reason := by
  have hdangerous : Dangerous (mysql.tokens "DROP/* x */TABLE t") :=
    .pair ("DROP", "TABLE") (by decide) "DROP" "TABLE" rfl rfl (by decide +kernel)
  have hblank : comments.Reads [' '] "TABLE t" "/* x */" [' '] :=
    .skip (m := "/* x */") (cons_ne_nil _ _) (by decide +kernel) .nil
  have hlex : mysql.lex "DROP/* x */TABLE t" =
      [] ++ .word "DROP" :: ([.blockComment "/* x */"] ++
        .word "TABLE" :: [.blank ' ', .word "t"]) := by
    decide +kernel
  have hvisible : Visible mysql "DROP/* x */TABLE t" :=
    .pair (K := ("DROP", "TABLE")) (by decide) rfl rfl (by decide) hlex (k := comments)
      (by simp [readings]) ⟨⟨[], .nil, nofun⟩, [' '], hblank, forall_mem_singleton.mpr rfl⟩
  exact ⟨hdangerous,
    dangerous_statements_denied (fun _ _ => rfl) mysql _ (fun _ => hvisible) hdangerous⟩

def Missed (d : Dialect) (query : Text) : Prop :=
  Dangerous (d.tokens query) ∧ validateQuery .ascii query = .ok ()

/-- A line break before the `DROP` of an `ALTER TABLE`, a comment opener in a string, and a nested
comment. -/
theorem dangerous_statements_missed :
    (Missed mysql "ALTER TABLE t\nDROP COLUMN c" ∧
      Missed postgres "ALTER TABLE t\nDROP COLUMN c") ∧
    (Missed mysql "SELECT '--'; DROP -- x\n TABLE t" ∧
      Missed postgres "SELECT '--'; DROP -- x\n TABLE t") ∧
    Missed postgres "DROP /* /* x */ y */ TABLE t" := by
  have hline : validateQuery .ascii "ALTER TABLE t\nDROP COLUMN c" = .ok () := by
    rw [validateQuery_ok_iff]
    decide +kernel
  have hstring : validateQuery .ascii "SELECT '--'; DROP -- x\n TABLE t" = .ok () := by
    rw [validateQuery_ok_iff]
    decide +kernel
  have hnested : validateQuery .ascii "DROP /* /* x */ y */ TABLE t" = .ok () := by
    rw [validateQuery_ok_iff]
    decide +kernel
  have hdrop : ∀ tokens, [.word "DROP", .word "TABLE"] <:+: tokens →
      Dangerous tokens :=
    fun _ => .pair ("DROP", "TABLE") (by decide) _ _ rfl rfl
  have halter : ∀ tokens, .word "ALTER" :: .word "TABLE" ::
      ([.word "t"] ++ [.word "DROP"]) <:+: tokens → Dangerous tokens :=
    fun _ => .alterDrop _ _ _ _ rfl rfl rfl (by decide)
  refine ⟨⟨⟨halter _ ?_, hline⟩, halter _ ?_, hline⟩, ⟨⟨hdrop _ ?_, hstring⟩, hdrop _ ?_, hstring⟩,
    hdrop _ ?_, hnested⟩ <;> decide +kernel

end BridgeMcp.Database
