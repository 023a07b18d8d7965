import BridgeMcp.Lib.Scanner
import BridgeMcp.Shell.Hosts

/-!
The deny list for queries (`domain/use_cases/database.rs`): the patterns, and the three readings of
a query they are matched against. The query is read as written, with its comments as spaces, and
with only the comment delimiters as spaces.
-/
namespace BridgeMcp.Database
open TextLib RegexLib BridgeMcp.Shell List

/-- `[^\n]*` -/
def toLineEnd : Regex := star (notIn false [.range '\n' '\n'])

/-- `SQL_COMMENTS`: `(?s)/\*.*?\*/|--[^\n]*|#[^\n]*` -/
def sqlComments : Regex :=
  orElse [seq [lit false "/*", lazyStar (notIn false []), lit false "*/"],
    seq [lit false "--", toLineEnd]] (seq [lit false "#", toLineEnd])

/-- `SQL_COMMENT_DELIMITERS`: `/\*(?:M?!|\+)?[0-9]*|\*/` -/
def sqlCommentDelimiters : Regex :=
  orElse [seq [lit false "/*",
    opt (orElse [seq [opt (chr false 'M'), chr false '!']] (chr false '+')),
    star (inClass false [.range '0' '9'])]] (lit false "*/")

/-- `\s+` -/
def spaces : Regex := plus (inClass false [.space])

/-- `(?i)\bWORD\b` -/
def keyword (w : String) : Regex := seq [.wordBoundary, lit true w, .wordBoundary]

/-- `(?i)\bFIRST\s+SECOND\b` -/
def keywords (first second : String) : Regex :=
  seq [.wordBoundary, lit true first, spaces, lit true second, .wordBoundary]

/-- `(?i)\bDROP\s+TABLES?\b` -/
def dropTable : Regex :=
  seq [.wordBoundary, lit true "DROP", spaces, lit true "TABLE", opt (chr true 'S'), .wordBoundary]

/-- `(?i)\bDELETE\s+(?:(?:IGNORE|LOW_PRIORITY|QUICK)\s+)*FROM\b` -/
def deleteFrom : Regex :=
  seq [.wordBoundary, lit true "DELETE", spaces,
    star (seq [orElse [lit true "IGNORE", lit true "LOW_PRIORITY"] (lit true "QUICK"), spaces]),
    lit true "FROM", .wordBoundary]

/-- `(?i)\bALTER\s+TABLE\b.*\bDROP\b` -/
def alterTableDrop : Regex :=
  seq [.wordBoundary, lit true "ALTER", spaces, lit true "TABLE", .wordBoundary, toLineEnd,
    .wordBoundary, lit true "DROP", .wordBoundary]

def dangerousSqlPatterns : List (Regex × String) :=
  [(keywords "DROP" "DATABASE", "DROP DATABASE"), (keywords "DROP" "SCHEMA", "DROP SCHEMA"),
    (dropTable, "DROP TABLE"), (keyword "TRUNCATE", "TRUNCATE"), (deleteFrom, "DELETE FROM"),
    (alterTableDrop, "ALTER TABLE ... DROP"), (keyword "GRANT", "GRANT"),
    (keyword "REVOKE", "REVOKE")]

/-- `/*!` and `/*M!`: MySQL and MariaDB run what is inside. -/
def hasExecutableComment (query : Text) : Bool :=
  contains query "/*!" || contains query "/*M!"

def executableCommentReason : Text :=
  ("'query' must not contain a '/*!' or '/*M!' comment: MySQL and MariaDB execute its content, " ++
    "which the dangerous-statement check cannot see").toList

def dangerousReason (name : String) : Text :=
  "Dangerous SQL operation '" ++ name.toList ++
    ("' is not allowed via ssh_db_query. Use a direct database client for destructive " ++
      "operations.").toList

def validateQuery (u : Unicode) (query : Text) : Except CommandDenied Unit :=
  if hasExecutableComment query then .error ⟨executableCommentReason⟩
  else
    let uncommented := replaceAllWith u sqlComments (fun _ => [' ']) query
    let delimitersOnly := replaceAllWith u sqlCommentDelimiters (fun _ => [' ']) query
    match dangerousSqlPatterns.find? fun p =>
        isMatch u p.1 query || isMatch u p.1 uncommented || isMatch u p.1 delimitersOnly with
    | some p => .error ⟨dangerousReason p.2⟩
    | none => .ok ()

def blockEnd (s : Text) : Option Text :=
  if "/*" <+: s then (splitFirst "*/" (s.drop 2)).map Prod.snd else none

def lineEnd (opener : String) (s : Text) : Option Text :=
  if opener.toList <+: s then some ((s.drop opener.toList.length).dropWhile (· != '\n')) else none

def commentEnd (s : Text) : Option Text :=
  (blockEnd s).or ((lineEnd "--" s).or (lineEnd "#" s))

/-- What may stand between `/*` and a version number. -/
def afterMark (s : Text) : Text :=
  if "M!" <+: s then s.drop 2
  else if "!" <+: s ∨ "+" <+: s then s.drop 1
  else s

def openerEnd (s : Text) : Option Text :=
  if "/*" <+: s then some ((afterMark (s.drop 2)).dropWhile Char.isDigit) else none

def closerEnd (s : Text) : Option Text := if "*/" <+: s then some (s.drop 2) else none

def delimiterEnd (s : Text) : Option Text := (openerEnd s).or (closerEnd s)

theorem blockEnd_reads {s rest : Text} (h : blockEnd s = some rest) :
    ∃ m, m ≠ [] ∧ s = m ++ rest := by
  unfold blockEnd at h
  split_ifs at h with hopen
  obtain ⟨body, rfl⟩ := hopen
  obtain ⟨⟨left, right⟩, hsplit, rfl⟩ := Option.map_eq_some_iff.mp h
  have hbody := splitFirst_spec hsplit
  refine ⟨"/*" ++ left ++ "*/", cons_ne_nil _ _, ?_⟩
  rw [append_assoc, append_assoc, ← append_assoc left, ← hbody]
  rfl

theorem lineEnd_reads {opener : String} (hopener : opener.toList ≠ []) {s rest : Text}
    (h : lineEnd opener s = some rest) : ∃ m, m ≠ [] ∧ s = m ++ rest := by
  unfold lineEnd at h
  split_ifs at h with hopen
  obtain ⟨body, rfl⟩ := hopen
  rw [drop_left, Option.some.injEq] at h
  refine ⟨opener.toList ++ body.takeWhile (· != '\n'), by simp [hopener], ?_⟩
  rw [← h, append_assoc, takeWhile_append_dropWhile]

def comments : Scanner where
  next := commentEnd
  reads s rest h := by
    rcases Option.or_eq_some_iff.mp h with h | ⟨_, h⟩
    · exact blockEnd_reads h
    rcases Option.or_eq_some_iff.mp h with h | ⟨_, h⟩
    · exact lineEnd_reads (by decide) h
    · exact lineEnd_reads (by decide) h

theorem afterMark_suffix (s : Text) : afterMark s <:+ s := by
  unfold afterMark
  split_ifs
  · exact drop_suffix 2 s
  · exact drop_suffix 1 s
  · exact suffix_refl s

def delimiters : Scanner where
  next := delimiterEnd
  reads s rest h := by
    rcases Option.or_eq_some_iff.mp h with h | ⟨_, h⟩
    · unfold openerEnd at h
      split_ifs at h with hopen
      obtain ⟨body, rfl⟩ := hopen
      obtain ⟨m, hm⟩ := (dropWhile_suffix _).trans (afterMark_suffix body)
      rw [← Option.some.inj h]
      exact ⟨"/*" ++ m, cons_ne_nil _ _, by rw [append_assoc]; exact congrArg _ hm.symm⟩
    · unfold closerEnd at h
      split_ifs at h with hclose
      obtain ⟨body, rfl⟩ := hclose
      rw [← Option.some.inj h]
      exact ⟨"*/", cons_ne_nil _ _, rfl⟩

def plain : Scanner where
  next _ := none
  reads := nofun

variable {u : Unicode}

theorem firstRest_lineEnd (opener : String) (s : Thread) :
    firstRest u (seq [lit false opener, toLineEnd]) s = lineEnd opener s.after := by
  have hclass : (CharClass.mk [.range '\n' '\n'] true false).has u = (· != '\n') := by
    funext c
    simp [CharClass.has, ClassItem.has_single, bne]
  rw [seq, foldr_cons, firstRest_lit, lineEnd]
  split
  · rw [foldr_cons, foldr_nil, firstRest_eps, toLineEnd, notIn, firstRest_star, hclass]
  · rfl

theorem firstRest_blockEnd (s : Thread) :
    firstRest u (seq [lit false "/*", lazyStar (notIn false []), lit false "*/"]) s =
      blockEnd s.after := by
  rw [seq, foldr_cons, firstRest_lit, blockEnd]
  split
  · rw [foldr_cons, foldr_cons, foldr_nil, firstRest_cat_eps, notIn,
      firstRest_until _ (fun _ => rfl)]
    rfl
  · rfl

theorem scans_comments : Scans u sqlComments comments := by
  intro before after
  change firstRest u sqlComments ⟨before, after, []⟩ = commentEnd after
  rw [sqlComments, orElse, firstRest_alt, orElse, firstRest_alt, orElse, firstRest_blockEnd,
    firstRest_lineEnd, firstRest_lineEnd, commentEnd]

theorem head_mark (s : Thread) :
    ∃ t, (runs u (opt (orElse [seq [opt (chr false 'M'), chr false '!']] (chr false '+')))
      s).head? = some t ∧ t.after = afterMark s.after := by
  obtain ⟨before, after, caps⟩ := s
  rw [runs_opt, orElse, orElse, runs, seq, foldr_cons, foldr_cons, foldr_nil, runs,
    runs_opt, runs_chr]
  have hbang : runs u (.cat (chr false '!') .eps) = runs u (chr false '!') := by
    funext s
    exact runs_cat_eps
  rw [hbang]
  cases after with
  | nil => exact ⟨_, rfl, rfl⟩
  | cons c rest =>
    by_cases hM : c = 'M'
    · subst hM
      cases rest with
      | nil => exact ⟨_, rfl, rfl⟩
      | cons d rest =>
        by_cases hd : d = '!'
        · simp +arith [runs_chr, afterMark, hd]
        · simp [runs_chr, afterMark, Ne.symm hd]
    · by_cases hbang : c = '!'
      · simp [runs_chr, afterMark, hbang]
      · by_cases hplus : c = '+'
        · simp [runs_chr, afterMark, hplus]
        · simp [runs_chr, afterMark, Ne.symm hM, Ne.symm hbang, Ne.symm hplus]

theorem firstRest_openerEnd (s : Thread) :
    firstRest u (seq [lit false "/*",
      opt (orElse [seq [opt (chr false 'M'), chr false '!']] (chr false '+')),
      star (inClass false [.range '0' '9'])]) s = openerEnd s.after := by
  have hclass : (CharClass.mk [.range '0' '9'] false false).has u = Char.isDigit := by
    funext c
    simp [CharClass.has, ClassItem.has, Char.isDigit, UInt32.le_iff_toNat_le]
  rw [seq, foldr_cons, firstRest_lit, openerEnd]
  split
  · obtain ⟨t, hhead, hafter⟩ := head_mark (u := u)
      ⟨"/*".toList.reverse ++ s.before, s.after.drop "/*".toList.length, s.caps⟩
    have hstar : firstRest u (.cat (star (inClass false [.range '0' '9'])) .eps) t =
        some (t.after.dropWhile Char.isDigit) := by
      rw [firstRest_eps, inClass, ← hclass]
      exact firstRest_star _ _ _ _
    have hne : runs u (.cat (star (inClass false [.range '0' '9'])) .eps) t ≠ [] := by
      intro hnil
      rw [firstRest, hnil] at hstar
      cases hstar
    rw [foldr_cons, foldr_cons, foldr_nil, firstRest_cat hhead hne, hstar, hafter]
    rfl
  · rfl

theorem scans_delimiters : Scans u sqlCommentDelimiters delimiters := by
  intro before after
  change firstRest u sqlCommentDelimiters ⟨before, after, []⟩ = delimiterEnd after
  rw [sqlCommentDelimiters, orElse, firstRest_alt, orElse, firstRest_openerEnd, delimiterEnd,
    ← firstRest_eps, firstRest_lit, closerEnd]
  rfl

theorem subst_plain (new s : Text) : plain.subst new s = s := by
  induction s with
  | nil => rfl
  | cons c s ih => rw [plain.subst_char new rfl, ih]

def readings : List Scanner := [plain, comments, delimiters]

theorem validateQuery_ok_iff (query : Text) :
    validateQuery u query = .ok () ↔ hasExecutableComment query = false ∧
      ∀ k ∈ readings, ∀ p ∈ dangerousSqlPatterns,
        isMatch u p.1 (k.subst [' '] query) = false := by
  unfold validateQuery
  rw [replaceAllWith_eq_subst scans_comments, replaceAllWith_eq_subst scans_delimiters]
  cases hexec : hasExecutableComment query with
  | true => simp
  | false =>
    simp only [Bool.false_eq_true, if_false, true_and]
    cases hfind : dangerousSqlPatterns.find? fun p => isMatch u p.1 query ||
        isMatch u p.1 (comments.subst [' '] query) ||
        isMatch u p.1 (delimiters.subst [' '] query) with
    | some p =>
      have hp := find?_some hfind
      have hmem := mem_of_find?_eq_some hfind
      simp only [reduceCtorEq, false_iff]
      intro hnone
      have h := fun k hk => hnone k hk p hmem
      simp [readings, subst_plain] at h
      simp [h] at hp
    | none =>
      have hp := find?_eq_none.mp hfind
      simp only [true_iff]
      intro k hk p hmem
      have hno := hp p hmem
      simp only [Bool.or_eq_true, not_or, Bool.not_eq_true] at hno
      simp only [readings, mem_cons, not_mem_nil, or_false] at hk
      rcases hk with rfl | rfl | rfl
      · rw [subst_plain]
        exact hno.1.1
      · exact hno.1.2
      · exact hno.2

end BridgeMcp.Database
