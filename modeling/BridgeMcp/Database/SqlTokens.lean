import Mathlib.Tactic.IntervalCases
import BridgeMcp.Lib.TextScan

/-!
How a database server cuts a query into tokens. White space and comments stand between tokens; what
is inside a quoted literal is none. The dialects differ in their comments and literals: MySQL has
`#` comments and wants a blank after `--`, PostgreSQL nests block comments and has dollar quotes.
-/
namespace BridgeMcp.Database
open TextLib List Option

def isSqlBlank (c : Char) : Bool := c == ' ' || (9 ≤ c.toNat && c.toNat ≤ 13)

def isWordLetter (c : Char) : Bool := c.isAlphanum || c == '_' || decide (128 ≤ c.toNat)

def isWordChar (c : Char) : Bool := isWordLetter c || c == '$'

/-- A literal at the start of `s` ends where `rest` starts, and no word goes on there. -/
def Closes (s rest : Text) : Prop :=
  ∃ m, m ≠ [] ∧ s = m ++ rest ∧ (rest = [] ∨ ∀ c ∈ m.getLast?, isWordLetter c = false)

/-- What the servers do not agree on. `literal` gives the text after a literal that starts here; one
that is never closed goes to the end. -/
structure Dialect where
  nestedComments : Bool
  hashComments : Bool
  dashNeedsBlank : Bool
  literal : Text → Option Text
  literal_closes : ∀ s rest, literal s = some rest → Closes s rest

inductive Piece where
  | blank (c : Char)
  | lineComment (text : Text)
  | blockComment (text : Text)
  | literal (text : Text)
  | word (text : Text)
  | symbol (c : Char)
  deriving DecidableEq

open Piece

def Piece.text : Piece → Text
  | .blank c => [c]
  | .lineComment text => text
  | .blockComment text => text
  | .literal text => text
  | .word text => text
  | .symbol c => [c]

def Piece.isSeparator : Piece → Bool
  | .blank _ | .lineComment _ | .blockComment _ => true
  | _ => false

/-- The text after the end of a block comment, inside `depth` more of them. -/
def blockRest (nested : Bool) : ℕ → Text → Option Text
  | _, [] => none
  | depth, c :: s =>
    match s with
    | [] => none
    | d :: t =>
      if c = '*' ∧ d = '/' then
        match depth with
        | 0 => some t
        | n + 1 => blockRest nested n t
      else if nested ∧ c = '/' ∧ d = '*' then blockRest nested (depth + 1) t
      else blockRest nested depth (d :: t)

def Dialect.startsLineComment (d : Dialect) (s : Text) : Bool :=
  ("--".toList.isPrefixOf s &&
      (!d.dashNeedsBlank || (s.drop 2).head?.all fun c => isSqlBlank c || c.toNat < 32)) ||
    (d.hashComments && "#".toList.isPrefixOf s)

def upToRest (s rest : Text) : Text := s.take (s.length - rest.length)

def Dialect.nextPiece (d : Dialect) : Text → Option (Piece × Text)
  | [] => none
  | c :: s =>
    if isSqlBlank c then some (.blank c, s)
    else if d.startsLineComment (c :: s) then
      some (.lineComment ((c :: s).takeWhile (· != '\n')), (c :: s).dropWhile (· != '\n'))
    else if "/*".toList.isPrefixOf (c :: s) then
      match blockRest d.nestedComments 0 ((c :: s).drop 2) with
      | some rest => some (.blockComment (upToRest (c :: s) rest), rest)
      | none => some (.blockComment (c :: s), [])
    else
      match d.literal (c :: s) with
      | some rest => some (.literal (upToRest (c :: s) rest), rest)
      | none =>
        if isWordChar c then
          some (.word ((c :: s).takeWhile isWordChar), (c :: s).dropWhile isWordChar)
        else some (.symbol c, s)

def Dialect.lexFrom (d : Dialect) : ℕ → Text → List Piece
  | 0, _ => []
  | n + 1, s =>
    match d.nextPiece s with
    | none => []
    | some (x, rest) => x :: d.lexFrom n rest

def Dialect.lex (d : Dialect) (query : Text) : List Piece := d.lexFrom query.length query

inductive SqlToken where
  | word (w : Text)
  | literal
  | symbol (c : Char)
  deriving DecidableEq

def Piece.token? : Piece → Option SqlToken
  | .literal _ => some .literal
  | .word w => some (.word w)
  | .symbol c => some (.symbol c)
  | _ => none

def Dialect.tokens (d : Dialect) (query : Text) : List SqlToken :=
  (d.lex query).filterMap token?

def Spells (k : String) (w : Text) : Prop := lower w = lower k.toList

instance (k : String) (w : Text) : Decidable (Spells k w) :=
  inferInstanceAs (Decidable (lower w = lower k.toList))

def deniedKeywords : List String := ["TRUNCATE", "GRANT", "REVOKE"]

def deniedPairs : List (String × String) :=
  [("DROP", "DATABASE"), ("DROP", "SCHEMA"), ("DROP", "TABLE"), ("DELETE", "FROM")]

inductive Dangerous (tokens : List SqlToken) : Prop where
  | keyword (k : String) (hk : k ∈ deniedKeywords) (w : Text) (hw : Spells k w)
      (hmem : .word w ∈ tokens)
  | pair (k : String × String) (hk : k ∈ deniedPairs) (a b : Text) (ha : Spells k.1 a)
      (hb : Spells k.2 b) (hmem : [.word a, .word b] <:+: tokens)
  | alterDrop (a b c : Text) (mid : List SqlToken) (ha : Spells "ALTER" a) (hb : Spells "TABLE" b)
      (hc : Spells "DROP" c) (hmid : .symbol ';' ∉ mid)
      (hmem : .word a :: .word b :: (mid ++ [.word c]) <:+: tokens)

def texts (xs : List Piece) : Text := xs.flatMap text

theorem upToRest_append (m rest : Text) : upToRest (m ++ rest) rest = m := by
  rw [upToRest, length_append, Nat.add_sub_cancel, take_left]

variable {s rest : Text} {c : Char} {d : Dialect}

theorem blockRest_reads {nested : Bool} {depth : ℕ}
    (h : blockRest nested depth s = some rest) : ∃ m, s = m ++ '*' :: '/' :: rest := by
  induction s using twoStepInduction generalizing depth with
  | nil => cases h
  | singleton c => cases h
  | cons_cons c d t ih ih' =>
    rw [blockRest.eq_def] at h
    dsimp only at h
    split_ifs at h with hclose hopen
    · obtain ⟨rfl, rfl⟩ := hclose
      cases depth with
      | zero => exact ⟨[], by rw [← some.inj h]; rfl⟩
      | succ n =>
        obtain ⟨m, rfl⟩ := ih h
        exact ⟨'*' :: '/' :: m, rfl⟩
    · obtain ⟨m, rfl⟩ := ih h
      exact ⟨c :: d :: m, rfl⟩
    · obtain ⟨m, hm⟩ := ih' d h
      exact ⟨c :: m, by rw [hm]; rfl⟩

def Piece.Bounded (x : Piece) (rest : Text) : Prop :=
  ∀ c ∈ rest.head?, isWordChar c = true → ∀ e ∈ x.text.getLast?, isWordLetter e = false

structure Piece.Fits (x : Piece) (rest : Text) : Prop where
  nonempty : x.text ≠ []
  bounded : x.Bounded rest
  word : ∀ w, x = .word w → (∀ c ∈ w, isWordChar c = true) ∧ ∀ c ∈ rest.head?, isWordChar c = false

theorem isSqlBlank_not_letter (h : isSqlBlank c = true) : isWordLetter c = false := by
  simp only [isSqlBlank, Bool.or_eq_true, beq_iff_eq, Bool.and_eq_true, decide_eq_true_eq] at h
  rcases h with rfl | ⟨hlow, hhigh⟩
  · decide
  · rw [← Char.ofNat_toNat c]
    generalize c.toNat = n at hlow hhigh
    interval_cases n <;> decide

theorem fits_blank (h : isSqlBlank c = true) (rest : Text) :
    (blank c).Fits rest where
  nonempty := cons_ne_nil _ _
  bounded := by
    rintro _ _ _ e he
    obtain rfl : c = e := some.inj he
    exact isSqlBlank_not_letter h
  word := nofun

theorem fits_symbol (h : isWordChar c = false) (rest : Text) :
    (symbol c).Fits rest where
  nonempty := cons_ne_nil _ _
  bounded := by
    rintro _ _ _ e he
    obtain rfl : c = e := some.inj he
    exact (Bool.or_eq_false_iff.mp h).1
  word := nofun

theorem fits_lineComment (hc : c ≠ '\n') :
    (lineComment ((c :: s).takeWhile (· != '\n'))).Fits
      ((c :: s).dropWhile (· != '\n')) where
  nonempty := by
    rw [text, takeWhile_cons_of_pos (by simpa using hc)]
    exact cons_ne_nil _ _
  bounded := by
    intro e he hword
    have hnl := head?_dropWhile_not (· != '\n') (c :: s)
    rw [he] at hnl
    obtain rfl : e = '\n' := by simpa using hnl
    exact absurd hword (by decide)
  word := nofun

theorem fits_blockComment {m rest : Text} (h : rest = [] ∨ ∃ m', m = m' ++ ['*', '/'])
    (hne : m ≠ []) : (blockComment m).Fits rest where
  nonempty := hne
  bounded := by
    rcases h with rfl | ⟨m', rfl⟩
    · nofun
    · rintro _ _ _ e he
      rw [text, getLast?_append_cons] at he
      obtain rfl : '/' = e := some.inj he
      decide
  word := nofun

theorem fits_closedComment {nested : Bool} (hopen : "/*".toList.isPrefixOf s = true)
    (hrest : blockRest nested 0 (s.drop 2) = some rest) :
    s = upToRest s rest ++ rest ∧ (blockComment (upToRest s rest)).Fits rest := by
  obtain ⟨body, rfl⟩ := isPrefixOf_iff_prefix.mp hopen
  obtain ⟨m, rfl⟩ : ∃ m, body = m ++ '*' :: '/' :: rest := blockRest_reads hrest
  have hcut : "/*" ++ (m ++ '*' :: '/' :: rest) =
      ("/*" ++ m ++ ['*', '/']) ++ rest := by
    simp only [append_assoc, cons_append, nil_append]
  rw [hcut, upToRest_append]
  exact ⟨rfl, fits_blockComment (.inr ⟨_, rfl⟩) (cons_ne_nil _ _)⟩

theorem fits_literal (h : d.literal s = some rest) :
    s = upToRest s rest ++ rest ∧ (literal (upToRest s rest)).Fits rest := by
  obtain ⟨m, hne, rfl, hend⟩ := d.literal_closes s rest h
  rw [upToRest_append]
  refine ⟨rfl, hne, ?_, nofun⟩
  rcases hend with rfl | hend
  · nofun
  · exact fun _ _ _ => hend

theorem fits_word (s : Text) (hc : isWordChar c = true) :
    (word ((c :: s).takeWhile isWordChar)).Fits ((c :: s).dropWhile isWordChar) := by
  have hstop : ∀ e ∈ ((c :: s).dropWhile isWordChar).head?, isWordChar e = false := by
    intro e he
    have hnot := head?_dropWhile_not isWordChar (c :: s)
    rw [he] at hnot
    simpa using hnot
  constructor
  · rw [text, takeWhile_cons_of_pos hc]
    exact cons_ne_nil _ _
  · intro e he hword
    rw [hstop e he] at hword
    cases hword
  · intro w hw
    obtain rfl := word.inj hw
    exact ⟨fun e he => mem_takeWhile_imp he, hstop⟩

theorem startsLineComment_ne_newline (h : d.startsLineComment (c :: s) = true) : c ≠ '\n' := by
  rintro rfl
  simp [Dialect.startsLineComment] at h

theorem nextPiece_spec {x : Piece}
    (h : d.nextPiece s = some (x, rest)) : s = x.text ++ rest ∧ x.Fits rest := by
  cases s with
  | nil => cases h
  | cons c s =>
    unfold Dialect.nextPiece at h
    dsimp only at h
    split at h
    · next hblank =>
        cases h
        exact ⟨rfl, fits_blank hblank _⟩
    · split at h
      · next hline =>
          cases h
          refine ⟨?_, fits_lineComment (startsLineComment_ne_newline hline)⟩
          rw [text, takeWhile_append_dropWhile]
      · split at h
        · next hblock =>
            split at h
            · next rest' hrest =>
                cases h
                exact fits_closedComment hblock hrest
            · cases h
              exact ⟨(append_nil _).symm, fits_blockComment (.inl rfl) (cons_ne_nil _ _)⟩
        · split at h
          · next hliteral =>
              cases h
              exact fits_literal hliteral
          · split at h
            · next hword =>
                cases h
                refine ⟨?_, fits_word s hword⟩
                rw [text, takeWhile_append_dropWhile]
            · next hsymbol =>
                cases h
                exact ⟨rfl, fits_symbol (Bool.eq_false_iff.mpr hsymbol) _⟩

inductive Lexed (d : Dialect) : Text → List Piece → Prop where
  | nil : Lexed d [] []
  | cons {s rest : Text} {x : Piece} {xs : List Piece} :
      d.nextPiece s = some (x, rest) → Lexed d rest xs → Lexed d s (x :: xs)

theorem nextPiece_isSome (d : Dialect) (c : Char) (s : Text) :
    (d.nextPiece (c :: s)).isSome = true := by
  unfold Dialect.nextPiece
  dsimp only
  split_ifs <;> (try split) <;> rfl

theorem lexed_lexFrom (d : Dialect) {n : ℕ} (hn : s.length ≤ n) :
    Lexed d s (d.lexFrom n s) := by
  induction n generalizing s with
  | zero =>
    obtain rfl := length_eq_zero_iff.mp (Nat.le_zero.mp hn)
    exact .nil
  | succ n ih =>
    cases s with
    | nil => exact .nil
    | cons c s =>
      obtain ⟨⟨x, rest⟩, hnext⟩ := isSome_iff_exists.mp (nextPiece_isSome d c s)
      obtain ⟨hcut, hfits⟩ := nextPiece_spec hnext
      have hpos := length_pos_of_ne_nil hfits.nonempty
      have hlength : (c :: s).length = x.text.length + rest.length := by
        rw [hcut, length_append]
      rw [Dialect.lexFrom, hnext]
      exact .cons hnext (ih (by omega))

theorem lexed_lex (d : Dialect) (query : Text) : Lexed d query (d.lex query) :=
  lexed_lexFrom d le_rfl

theorem Lexed.texts {xs : List Piece} (h : Lexed d s xs) :
    texts xs = s := by
  induction h with
  | nil => rfl
  | cons hnext _ ih =>
    rw [Database.texts, flatMap_cons, (nextPiece_spec hnext).1]
    exact congrArg _ ih

theorem Lexed.append {xs ys : List Piece} (h : Lexed d s (xs ++ ys)) :
    ∃ rest, s = Database.texts xs ++ rest ∧ Lexed d rest ys ∧ ∀ x ∈ xs.getLast?, x.Fits rest := by
  induction xs generalizing s with
  | nil => exact ⟨s, rfl, h, nofun⟩
  | cons x xs ih =>
    cases h with
    | cons hnext hrest =>
      obtain ⟨hcut, hfits⟩ := nextPiece_spec hnext
      obtain ⟨rest, hxs, hys, hlast⟩ := ih hrest
      refine ⟨rest, ?_, hys, ?_⟩
      · rw [hcut, hxs, Database.texts, Database.texts, flatMap_cons, append_assoc]
      · cases xs with
        | nil =>
          intro y hy
          obtain rfl : x = y := some.inj hy
          obtain rfl : _ = rest := hxs
          exact hfits
        | cons y xs => rwa [getLast?_cons_cons]

structure WordAt (p w rest : Text) : Prop where
  nonempty : w ≠ []
  wordChars : ∀ c ∈ w, isWordChar c = true
  before : ∀ c ∈ p.getLast?, isWordLetter c = false
  after : ∀ c ∈ rest.head?, isWordChar c = false

theorem Lexed.wordAt {s w : Text} {xs ys : List Piece} (h : Lexed d s (xs ++ .word w :: ys)) :
    ∃ rest, s = Database.texts xs ++ w ++ rest ∧ Lexed d rest ys ∧
      WordAt (Database.texts xs) w rest := by
  obtain ⟨tail, hs, hword, hlast⟩ := h.append
  cases hword with
  | cons hnext hrest =>
    next rest =>
    obtain ⟨rfl, hfits⟩ := nextPiece_spec hnext
    obtain ⟨hchars, hafter⟩ := hfits.word w rfl
    refine ⟨rest, by rw [hs, append_assoc]; rfl, hrest, hfits.nonempty, hchars, ?_, hafter⟩
    intro e he
    rcases eq_nil_or_concat xs with rfl | ⟨init, x, rfl⟩
    · cases he
    · have hx := hlast x (by rw [concat_eq_append, getLast?_concat]; rfl)
      rw [concat_eq_append, Database.texts, flatMap_append, flatMap_singleton,
        getLast?_append_of_ne_nil _ hx.nonempty] at he
      obtain ⟨c, w', rfl⟩ := exists_cons_of_ne_nil hfits.nonempty
      exact hx.bounded c rfl (hchars c mem_cons_self) e he

/-- The text after the quote that closes a literal; a doubled quote closes one and opens the
next. -/
def quotedRest (escapes : Bool) (quote : Char) : Text → Text
  | [] => []
  | c :: s =>
    if c = quote then s
    else
      match s with
      | [] => []
      | e :: t =>
        if escapes ∧ c = '\\' then quotedRest escapes quote t
        else quotedRest escapes quote (e :: t)

theorem closes_end (h : s ≠ []) : Closes s [] :=
  ⟨s, h, (append_nil s).symm, .inl rfl⟩

theorem closes_char (h : isWordLetter c = false) (m rest : Text) :
    Closes (m ++ c :: rest) rest := by
  refine ⟨m ++ [c], by simp, by rw [append_assoc, singleton_append], .inr ?_⟩
  intro e he
  rw [getLast?_concat] at he
  rwa [← some.inj he]

theorem quotedRest_closes (escapes : Bool) {quote : Char} (hquote : isWordLetter quote = false)
    (s : Text) {opener : Text} (hne : opener ≠ []) :
    Closes (opener ++ s) (quotedRest escapes quote s) := by
  induction s using twoStepInduction generalizing opener with
  | nil => exact closes_end (append_ne_nil_of_left_ne_nil hne [])
  | singleton c =>
    rw [quotedRest.eq_def]
    dsimp only
    split_ifs <;> exact closes_end (append_ne_nil_of_left_ne_nil hne _)
  | cons_cons c e t ih ih' =>
    rw [quotedRest.eq_def]
    dsimp only
    split_ifs with heq
    · rw [heq]
      exact closes_char hquote opener _
    · rw [append_cons, append_cons]
      exact ih (append_ne_nil_of_right_ne_nil _ (cons_ne_nil e []))
    · rw [append_cons]
      exact ih' e (append_ne_nil_of_right_ne_nil _ (cons_ne_nil c []))

def mysqlLiteral : Text → Option Text
  | [] => none
  | c :: s =>
    if c = '\'' ∨ c = '"' then some (quotedRest true c s)
    else if c = '\x60' then some (quotedRest false c s)
    else none

def mysql : Dialect where
  nestedComments := false
  hashComments := true
  dashNeedsBlank := true
  literal := mysqlLiteral
  literal_closes := by
    rintro (_ | ⟨c, s⟩) rest h
    · cases h
    rw [mysqlLiteral] at h
    have hopener := cons_ne_nil c []
    split_ifs at h with hstring hname
    · rw [← some.inj h]
      exact quotedRest_closes true (by rcases hstring with rfl | rfl <;> decide) s hopener
    · rw [← some.inj h]
      exact quotedRest_closes false (by rw [hname]; decide) s hopener

/-- The tag of a dollar quote, up to its second dollar sign, and the text after it. -/
def dollarTag (s : Text) : Option (Text × Text) :=
  let tag := s.takeWhile isWordLetter
  match s.dropWhile isWordLetter with
  | '$' :: body => if tag.head?.any Char.isDigit then none else some (tag, body)
  | _ => none

def dollarRest (tag body : Text) : Text :=
  match splitFirst ('$' :: tag ++ ['$']) body with
  | some (_, rest) => rest
  | none => []

theorem dollarRest_closes (tag body : Text) {opener : Text} (hne : opener ≠ []) :
    Closes (opener ++ body) (dollarRest tag body) := by
  rw [dollarRest]
  split
  · next left rest hsplit =>
      have hcut : opener ++ body = opener ++ left ++ '$' :: tag ++ '$' :: rest := by
        rw [splitFirst_spec hsplit]
        simp only [append_assoc, cons_append, nil_append]
      rw [hcut]
      exact closes_char (by decide) _ rest
  · exact closes_end (append_ne_nil_of_left_ne_nil hne body)

theorem dollarTag_reads {s tag body : Text} (h : dollarTag s = some (tag, body)) :
    s = tag ++ '$' :: body := by
  unfold dollarTag at h
  dsimp only at h
  split at h
  · next body' hdrop =>
      split_ifs at h
      cases h
      rw [← hdrop, takeWhile_append_dropWhile]
  · cases h

def postgresLiteral : Text → Option Text
  | [] => none
  | c :: s =>
    if c = '\'' ∨ c = '"' then some (quotedRest false c s)
    else if (c = 'e' ∨ c = 'E') ∧ s.head? = some '\'' then some (quotedRest true '\'' (s.drop 1))
    else if c = '$' then (dollarTag s).map fun p => dollarRest p.1 p.2
    else none

def postgres : Dialect where
  nestedComments := true
  hashComments := false
  dashNeedsBlank := false
  literal := postgresLiteral
  literal_closes := by
    rintro (_ | ⟨c, s⟩) rest h
    · cases h
    rw [postgresLiteral] at h
    split_ifs at h with hquote hescape
    · rw [← some.inj h]
      exact quotedRest_closes false (by rcases hquote with rfl | rfl <;> decide) s
        (cons_ne_nil c [])
    · obtain ⟨t, rfl⟩ := head?_eq_some_iff.mp hescape.2
      rw [← some.inj h]
      exact quotedRest_closes true (by decide) t (cons_ne_nil c ['\''])
    · obtain ⟨⟨tag, body⟩, htag, rfl⟩ := map_eq_some_iff.mp h
      rw [dollarTag_reads htag, ← cons_append, append_cons]
      exact dollarRest_closes tag body (append_ne_nil_of_left_ne_nil (cons_ne_nil c tag) _)

end BridgeMcp.Database
