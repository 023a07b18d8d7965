import Mathlib.Data.List.Forall2
import BridgeMcp.Lib.Json
import BridgeMcp.Lib.TextScan

/-!
JSON texts: the reader of a whole document, with its escapes, numerals and nesting limit, and
the texts a writer spells values with.

`Spells depth text value` says that the reader takes `text` for `value` wherever it stands, up to
`depth` levels of nesting.
-/
namespace JsonLib
open TextLib List Option

def hexDigitChar (n : ℕ) : Char := Nat.digitChar n

def escapeChar (c : Char) : Text :=
  if c = '"' then ['\\', '"']
  else if c = '\\' then ['\\', '\\']
  else if c = '\x08' then ['\\', 'b']
  else if c = '\t' then ['\\', 't']
  else if c = '\n' then ['\\', 'n']
  else if c = '\x0c' then ['\\', 'f']
  else if c = '\r' then ['\\', 'r']
  else if c.toNat < 0x20 then
    ['\\', 'u', '0', '0', hexDigitChar (c.toNat / 16), hexDigitChar (c.toNat % 16)]
  else [c]

def encodeString (s : Text) : Text := '"' :: (s.flatMap escapeChar ++ ['"'])

def readHex4 : Text → Option (ℕ × Text)
  | a :: b :: c :: d :: s =>
    match hexDigitValue a, hexDigitValue b, hexDigitValue c, hexDigitValue d with
    | some a, some b, some c, some d => some (((a * 16 + b) * 16 + c) * 16 + d, s)
    | _, _, _, _ => none
  | _ => none

def isLeadSurrogate (n : ℕ) : Bool := 0xD800 ≤ n && n ≤ 0xDBFF

def isTrailSurrogate (n : ℕ) : Bool := 0xDC00 ≤ n && n ≤ 0xDFFF

/-- After `\u`. A surrogate must be half of a pair written as two escapes. -/
def readUnicodeEscape (s : Text) : Option (Char × Text) :=
  match readHex4 s with
  | none => none
  | some (n, s) =>
    if isTrailSurrogate n then none
    else if isLeadSurrogate n then
      match s with
      | '\\' :: 'u' :: s =>
        match readHex4 s with
        | none => none
        | some (m, s) =>
          if isTrailSurrogate m then
            some (Char.ofNat (0x10000 + (n - 0xD800) * 0x400 + (m - 0xDC00)), s)
          else none
      | _ => none
    else some (Char.ofNat n, s)

/-- After the backslash. -/
def readEscape : Text → Option (Char × Text)
  | '"' :: s => some ('"', s)
  | '\\' :: s => some ('\\', s)
  | '/' :: s => some ('/', s)
  | 'b' :: s => some ('\x08', s)
  | 'f' :: s => some ('\x0c', s)
  | 'n' :: s => some ('\n', s)
  | 'r' :: s => some ('\r', s)
  | 't' :: s => some ('\t', s)
  | 'u' :: s => readUnicodeEscape s
  | _ => none

/-- After the opening quote. Every round takes at least one character. -/
def readStringBody : ℕ → Text → Option (Text × Text)
  | 0, _ => none
  | _ + 1, [] => none
  | fuel + 1, c :: s =>
    if c = '"' then some ([], s)
    else if c = '\\' then
      (readEscape s).bind fun (c, s) => (readStringBody fuel s).map fun (t, s) => (c :: t, s)
    else if c.toNat < 0x20 then none
    else (readStringBody fuel s).map fun (t, s) => (c :: t, s)

def readString (s : Text) : Option (Text × Text) := readStringBody (s.length + 1) s

def scaled (n : ℕ) (e : ℤ) : ℚ≥0 := NNRat.divNat (n * 10 ^ e.toNat) (10 ^ (-e).toNat)

/-- From here on a magnitude rounds to infinity in binary64. -/
def f64Limit : ℕ := 2 ^ 1024 - 2 ^ 970

def readReal (negative : Bool) (n : ℕ) (e : ℤ) : Option Number :=
  if f64Limit * 10 ^ (-e).toNat ≤ n * 10 ^ e.toNat then none
  else some (.float ⟨negative, scaled n e⟩)

def readInteger (negative : Bool) (n : ℕ) : Option Number :=
  if negative then
    if 0 < n ∧ n ≤ 2 ^ 63 then some (.negInt n) else readReal true n 0
  else if n < 2 ^ 64 then some (.posInt n)
  else readReal false n 0

def readFraction (s : Text) : Option (Text × Text) :=
  if s.head? = some '.' then
    let digits := s.tail.takeWhile Char.isDigit
    if digits = [] then none else some (digits, s.tail.dropWhile Char.isDigit)
  else some ([], s)

def readExponent (s : Text) : Option (Option ℤ × Text) :=
  if s.head? = some 'e' ∨ s.head? = some 'E' then
    let s := s.tail
    let negative := s.head? = some '-'
    let s := if s.head? = some '-' ∨ s.head? = some '+' then s.tail else s
    let digits := s.takeWhile Char.isDigit
    if digits = [] then none
    else
      let n : ℤ := Nat.ofDigitChars 10 digits 0
      some (some (if negative then -n else n), s.dropWhile Char.isDigit)
  else some (none, s)

/-- After the sign. -/
def readNumeral (negative : Bool) (s : Text) : Option (Number × Text) :=
  let whole := s.takeWhile Char.isDigit
  if whole = [] ∨ (whole.head? = some '0' ∧ whole ≠ ['0']) then none
  else
    (readFraction (s.dropWhile Char.isDigit)).bind fun (fraction, s) =>
      (readExponent s).bind fun (exponent, s) =>
        let number :=
          if fraction = [] ∧ exponent = none then
            readInteger negative (Nat.ofDigitChars 10 whole 0)
          else
            readReal negative (Nat.ofDigitChars 10 (whole ++ fraction) 0)
              (exponent.getD 0 - fraction.length)
        number.map fun n => (n, s)

def isSpace (c : Char) : Bool := c == ' ' || c == '\t' || c == '\n' || c == '\r'

def skipSpace (s : Text) : Text := s.dropWhile isSpace

def readWord (word : Text) (value : Json) (s : Text) : Option (Json × Text) :=
  if word <+: s then some (value, s.drop word.length) else none

/-- At a character that is not white space. -/
def readScalar (s : Text) : Option (Json × Text) :=
  match s with
  | [] => none
  | c :: rest =>
    if c = 'n' then readWord "null" .null s
    else if c = 't' then readWord "true" (.bool true) s
    else if c = 'f' then readWord "false" (.bool false) s
    else if c = '"' then (readString rest).map fun (t, s) => (.string t, s)
    else if c = '-' then (readNumeral true rest).map fun (n, s) => (.number n, s)
    else if c.isDigit then (readNumeral false s).map fun (n, s) => (.number n, s)
    else none

section Containers

variable (value : Text → Option (Json × Text))

/-- At an item of a non-empty array. -/
def readItems : ℕ → Text → Option (List Json × Text)
  | 0, _ => none
  | fuel + 1, s =>
    (value s).bind fun (item, s) =>
      match skipSpace s with
      | ',' :: s => (readItems fuel s).map fun (items, s) => (item :: items, s)
      | ']' :: s => some ([item], s)
      | _ => none

/-- After the opening bracket. -/
def readArray (s : Text) : Option (Json × Text) :=
  if (skipSpace s).head? = some ']' then some (.array [], (skipSpace s).tail)
  else (readItems value s.length s).map fun (items, s) => (.array items, s)

/-- At the name of a member. -/
def readMembers : ℕ → Text → Option (List (Text × Json) × Text)
  | 0, _ => none
  | fuel + 1, s =>
    match skipSpace s with
    | '"' :: s =>
      (readString s).bind fun (key, s) =>
        match skipSpace s with
        | ':' :: s =>
          (value s).bind fun (member, s) =>
            match skipSpace s with
            | ',' :: s =>
              (readMembers fuel s).map fun (members, s) => ((key, member) :: members, s)
            | '\x7d' :: s => some ([(key, member)], s)
            | _ => none
        | _ => none
    | _ => none

/-- After the opening brace. -/
def readObject (s : Text) : Option (Json × Text) :=
  if (skipSpace s).head? = some '\x7d' then some (.object [], (skipSpace s).tail)
  else (readMembers value s.length s).map fun (members, s) => (.object members, s)

end Containers

/-- A value inside which at most `depth` arrays and objects are nested. -/
def readValue : ℕ → Text → Option (Json × Text)
  | 0, s =>
    if (skipSpace s).head? = some '[' ∨ (skipSpace s).head? = some '\x7b' then none
    else readScalar (skipSpace s)
  | depth + 1, s =>
    if (skipSpace s).head? = some '[' then readArray (readValue depth) (skipSpace s).tail
    else if (skipSpace s).head? = some '\x7b' then readObject (readValue depth) (skipSpace s).tail
    else readScalar (skipSpace s)

/-- The recursion limit of 128 stops at the container that would reach it. -/
def maxDepth : ℕ := 127

def parse (s : Text) : Option Json :=
  (readValue maxDepth s).bind fun (value, rest) =>
    if skipSpace rest = [] then some value else none

/-- `width` digits of `n`, leading zeros included. -/
def fixedDigits : ℕ → ℕ → Text
  | 0, _ => []
  | width + 1, n => fixedDigits width (n / 10) ++ [Nat.digitChar (n % 10)]

/-- `n` divided by `10 ^ width`, with exactly `width` decimals. -/
def fixedPoint (width n : ℕ) : Text :=
  Nat.toDigits 10 (n / 10 ^ width) ++ '.' :: fixedDigits width (n % 10 ^ width)

def arrayText (items : List Text) : Text := '[' :: ([','].intercalate items ++ [']'])

def memberText (member : Text × Text) : Text := encodeString member.1 ++ ':' :: member.2

def objectText (members : List (Text × Text)) : Text :=
  '\x7b' :: ([','].intercalate (members.map memberText) ++ ['\x7d'])

/-- No numeral goes on here. -/
def Delimited (rest : Text) : Prop :=
  ∀ c ∈ rest.head?, c.isDigit = false ∧ c ≠ '.' ∧ c ≠ 'e' ∧ c ≠ 'E'

def Denotes (depth : ℕ) (text : Text) (value : Json) : Prop :=
  ∀ rest, Delimited rest → readValue depth (text ++ rest) = some (value, rest)

variable {text digits rest : Text}

theorem parse_of_denotes {value : Json} (h : Denotes maxDepth text value) :
    parse text = some value := by
  have hread := h [] (by intro c hc; cases hc)
  rw [append_nil] at hread
  rw [parse, hread]
  rfl

variable {c : Char}

theorem skipSpace_of_head (h : isSpace c = false) (s : Text) :
    skipSpace (c :: s) = c :: s := by
  rw [skipSpace, dropWhile_cons_of_neg (by simp [h])]

variable {depth n fuel width : ℕ}

theorem Denotes.space {value : Json} (h : Denotes depth text value) :
    Denotes depth (' ' :: text) value := by
  intro rest hrest
  have hskip : skipSpace (' ' :: text ++ rest) = skipSpace (text ++ rest) := rfl
  rw [← h rest hrest]
  cases depth <;> simp only [readValue, hskip]

theorem readValue_scalar (depth : ℕ) {c : Char} (hspace : isSpace c = false) (harray : c ≠ '[')
    (hobject : c ≠ '\x7b') (s : Text) : readValue depth (c :: s) = readScalar (c :: s) := by
  cases depth <;> simp [readValue, skipSpace_of_head hspace, harray, hobject]

theorem hexDigitValue_hexDigitChar (h : n < 16) :
    hexDigitValue (hexDigitChar n) = some n := by
  have hall : ∀ n : Fin 16, hexDigitValue (hexDigitChar n) = some n.val := by decide
  exact hall ⟨n, h⟩

theorem readEscape_control (h : c.toNat < 0x20) (s : Text) :
    readEscape
      ('u' :: '0' :: '0' :: hexDigitChar (c.toNat / 16) :: hexDigitChar (c.toNat % 16) :: s) =
      some (c, s) := by
  have hhigh := hexDigitValue_hexDigitChar (show c.toNat / 16 < 16 by omega)
  have hlow := hexDigitValue_hexDigitChar (show c.toNat % 16 < 16 by omega)
  have hzero : hexDigitValue '0' = some 0 := by decide
  have hcode : ((0 * 16 + 0) * 16 + c.toNat / 16) * 16 + c.toNat % 16 = c.toNat := by omega
  have htrail : isTrailSurrogate c.toNat = false := by
    simp only [isTrailSurrogate, Bool.and_eq_false_iff, decide_eq_false_iff_not]
    omega
  have hlead : isLeadSurrogate c.toNat = false := by
    simp only [isLeadSurrogate, Bool.and_eq_false_iff, decide_eq_false_iff_not]
    omega
  simp only [readEscape, readUnicodeEscape, readHex4, hzero, hhigh, hlow, hcode, htrail, hlead,
    Char.ofNat_toNat, Bool.false_eq_true, if_false]

theorem readStringBody_escapeChar (fuel : ℕ) (c : Char) (s : Text) :
    readStringBody (fuel + 1) (escapeChar c ++ s) =
      (readStringBody fuel s).map fun (t, s) => (c :: t, s) := by
  have hescape : ∀ escaped, readEscape (escaped ++ s) = some (c, s) →
      readStringBody (fuel + 1) ('\\' :: escaped ++ s) =
        (readStringBody fuel s).map fun (t, s) => (c :: t, s) := by
    intro escaped hread
    simp [readStringBody, hread]
  unfold escapeChar
  split_ifs with hquote hbackslash h h h h h hcontrol
  · subst hquote
    exact hescape ['"'] rfl
  · subst hbackslash
    exact hescape ['\\'] rfl
  · exact hescape ['b'] (h ▸ rfl)
  · exact hescape ['t'] (h ▸ rfl)
  · exact hescape ['n'] (h ▸ rfl)
  · exact hescape ['f'] (h ▸ rfl)
  · exact hescape ['r'] (h ▸ rfl)
  · exact hescape _ (readEscape_control hcontrol s)
  · simp [readStringBody, hquote, hbackslash, hcontrol]

theorem readStringBody_encoded (s rest : Text) (hfuel : s.length < fuel) :
    readStringBody fuel (s.flatMap escapeChar ++ '"' :: rest) = some (s, rest) := by
  induction s generalizing fuel with
  | nil =>
    obtain ⟨fuel, rfl⟩ := Nat.exists_eq_succ_of_ne_zero (Nat.ne_of_gt hfuel)
    simp [readStringBody]
  | cons c s ih =>
    obtain ⟨fuel, rfl⟩ := Nat.exists_eq_succ_of_ne_zero (Nat.ne_of_gt (Nat.zero_lt_of_lt hfuel))
    rw [flatMap_cons, append_assoc, readStringBody_escapeChar,
      ih (Nat.lt_of_succ_lt_succ hfuel)]
    rfl

theorem escapeChar_length_pos (c : Char) : 0 < (escapeChar c).length := by
  unfold escapeChar
  split_ifs <;> simp

theorem length_le_flatMap_escapeChar (s : Text) : s.length ≤ (s.flatMap escapeChar).length := by
  induction s with
  | nil => exact le_rfl
  | cons c s ih =>
    have := escapeChar_length_pos c
    rw [flatMap_cons, length_append, length_cons]
    omega

theorem readString_encoded (s rest : Text) :
    readString (s.flatMap escapeChar ++ '"' :: rest) = some (s, rest) := by
  apply readStringBody_encoded
  have := length_le_flatMap_escapeChar s
  rw [length_append]
  omega

theorem denotes_string (depth : ℕ) (s : Text) : Denotes depth (encodeString s) (.string s) := by
  intro rest _
  have hread := readString_encoded s rest
  rw [encodeString, cons_append, append_assoc, singleton_append,
    readValue_scalar depth (by decide) (by decide) (by decide)]
  simp [readScalar, hread]

theorem newline_notMem_encodeString (s : Text) : '\n' ∉ encodeString s := by
  have hchar : ∀ c, '\n' ∉ escapeChar c := by
    intro c
    unfold escapeChar
    split_ifs with h1 h2 h3 h4 h5 h6 h7 h8
    any_goals decide
    · have hhex : ∀ n : Fin 16, hexDigitChar n ≠ '\n' := by decide
      have hhigh := hhex ⟨c.toNat / 16, by omega⟩
      have hlow := hhex ⟨c.toNat % 16, by omega⟩
      simp [Ne.symm hhigh, Ne.symm hlow]
    · simpa using Ne.symm h5
  intro h
  simp only [encodeString, mem_cons, mem_append, mem_flatMap] at h
  rcases h with h | ⟨c, -, h⟩ | h | h
  · exact absurd h (by decide)
  · exact hchar c h
  · exact absurd h (by decide)
  · cases h

section
variable (h : ∀ c ∈ digits, c.isDigit = true) (hrest : ∀ c ∈ rest.head?, c.isDigit = false)
include h hrest

theorem takeWhile_digits :
    (digits ++ rest).takeWhile Char.isDigit = digits := by
  rw [takeWhile_append_of_pos h]
  cases rest with
  | nil => simp
  | cons c rest => simp [hrest c rfl]

theorem dropWhile_digits :
    (digits ++ rest).dropWhile Char.isDigit = rest := by
  rw [dropWhile_append_of_pos h]
  cases rest with
  | nil => rfl
  | cons c rest => simp [hrest c rfl]

end

theorem isDigit_digitChar (h : n < 10) : (Nat.digitChar n).isDigit = true := by
  have hall : ∀ n : Fin 10, (Nat.digitChar n).isDigit = true := by decide
  exact hall ⟨n, h⟩

theorem isDigit_fixedDigits (width n : ℕ) : ∀ c ∈ fixedDigits width n, c.isDigit = true := by
  induction width generalizing n with
  | zero => nofun
  | succ width ih =>
    intro c hc
    rcases mem_append.mp hc with hc | hc
    · exact ih _ c hc
    · rw [mem_singleton.mp hc]
      exact isDigit_digitChar (Nat.mod_lt n (by decide))

theorem fixedDigits_length (width n : ℕ) : (fixedDigits width n).length = width := by
  induction width generalizing n with
  | zero => rfl
  | succ width ih => simp [fixedDigits, ih]

theorem ofDigitChars_fixedDigits (width n init : ℕ) :
    Nat.ofDigitChars 10 (fixedDigits width n) init = init * 10 ^ width + n % 10 ^ width := by
  induction width generalizing n with
  | zero => simp [fixedDigits, Nat.mod_one]
  | succ width ih =>
    have hdigit : (Nat.digitChar (n % 10)).toNat - '0'.toNat = n % 10 := by
      have hall : ∀ n : Fin 10, (Nat.digitChar n).toNat - '0'.toNat = n.val := by decide
      exact hall ⟨n % 10, Nat.mod_lt n (by decide)⟩
    have hmod : n % 10 ^ (width + 1) = 10 * (n / 10 % 10 ^ width) + n % 10 := by
      rw [pow_succ', Nat.mod_mul]
      omega
    rw [fixedDigits, Nat.ofDigitChars_append, ih, Nat.ofDigitChars_cons, hdigit, hmod]
    simp only [Nat.ofDigitChars, foldl_nil]
    rw [pow_succ', Nat.mul_add, Nat.mul_left_comm, Nat.add_assoc]

theorem ofDigitChars_fixedPoint (width n : ℕ) :
    Nat.ofDigitChars 10
      (Nat.toDigits 10 (n / 10 ^ width) ++ fixedDigits width (n % 10 ^ width)) 0 = n := by
  rw [Nat.ofDigitChars_append, Nat.ofDigitChars_ten_toDigits, ofDigitChars_fixedDigits,
    Nat.mod_mod, Nat.mul_comm, Nat.div_add_mod]

theorem head_toDigits (h : 0 < n) : (Nat.toDigits 10 n).head? ≠ some '0' := by
  induction n using Nat.strong_induction_on with
  | _ n ih =>
    rcases Nat.lt_or_ge n 10 with hlt | hge
    · have hall : ∀ n : Fin 10, 0 < n.val → Nat.digitChar n ≠ '0' := by decide
      rw [Nat.toDigits_of_lt_base hlt]
      simpa using hall ⟨n, hlt⟩ h
    · have hpos : 0 < n / 10 := Nat.div_pos hge (by decide)
      rw [Nat.toDigits_of_base_le (by decide) hge,
        head?_append_of_ne_nil _ Nat.toDigits_ne_nil]
      exact ih (n / 10) (Nat.div_lt_self h (by decide)) hpos

theorem toDigits_numeral (n : ℕ) :
    ¬ (Nat.toDigits 10 n = [] ∨
      ((Nat.toDigits 10 n).head? = some '0' ∧ Nat.toDigits 10 n ≠ ['0'])) := by
  rintro (h | ⟨hhead, hne⟩)
  · exact Nat.toDigits_ne_nil h
  · rcases Nat.eq_zero_or_pos n with rfl | hpos
    · exact hne rfl
    · exact head_toDigits hpos hhead

theorem Delimited.isDigit (h : Delimited rest) :
    ∀ c ∈ rest.head?, c.isDigit = false := fun c hc => (h c hc).1

theorem Delimited.readFraction_eq (h : Delimited rest) :
    readFraction rest = some ([], rest) := by
  rw [readFraction, if_neg]
  intro hdot
  exact (h '.' hdot).2.1 rfl

theorem Delimited.readExponent_eq (h : Delimited rest) :
    readExponent rest = some (none, rest) := by
  rw [readExponent, if_neg]
  rintro (he | he)
  · exact (h 'e' he).2.2.1 rfl
  · exact (h 'E' he).2.2.2 rfl

theorem readNumeral_integer (negative : Bool) (n : ℕ) (h : Delimited rest) :
    readNumeral negative (Nat.toDigits 10 n ++ rest) =
      (readInteger negative n).map fun number => (number, rest) := by
  have hdigits := isDigit_toDigits n
  rw [readNumeral, takeWhile_digits hdigits h.isDigit, dropWhile_digits hdigits h.isDigit]
  simp only [if_neg (toDigits_numeral n), h.readFraction_eq, h.readExponent_eq, bind_some,
    Nat.ofDigitChars_ten_toDigits, and_self, if_true]

theorem readNumeral_fixedPoint (negative : Bool) (hwidth : width ≠ 0) (n : ℕ) (h : Delimited rest) :
    readNumeral negative (fixedPoint width n ++ rest) =
      (readReal negative n (-width)).map fun number => (number, rest) := by
  have hwhole := isDigit_toDigits (n / 10 ^ width)
  have hdecimals := isDigit_fixedDigits width (n % 10 ^ width)
  have hdot : ∀ c ∈ ('.' :: (fixedDigits width (n % 10 ^ width) ++ rest)).head?,
      c.isDigit = false := by
    intro c hc
    cases hc
    rfl
  have hsome : fixedDigits width (n % 10 ^ width) ≠ [] := by
    intro hnil
    exact hwidth (by rw [← fixedDigits_length width (n % 10 ^ width), hnil]; rfl)
  have hfraction : readFraction ('.' :: (fixedDigits width (n % 10 ^ width) ++ rest)) =
      some (fixedDigits width (n % 10 ^ width), rest) := by
    simp [readFraction, takeWhile_digits hdecimals h.isDigit, dropWhile_digits hdecimals h.isDigit,
      hsome]
  rw [fixedPoint, append_assoc, cons_append, readNumeral, takeWhile_digits hwhole hdot,
    dropWhile_digits hwhole hdot]
  simp only [if_neg (toDigits_numeral _), hfraction, h.readExponent_eq, bind_some, hsome,
    false_and, if_false, ofDigitChars_fixedPoint, fixedDigits_length, getD_none, zero_sub]

theorem readValue_numeral (depth : ℕ) (h : c.isDigit = true) (s : Text) :
    readValue depth (c :: s) =
      (readNumeral false (c :: s)).map fun (n, s) => (.number n, s) := by
  have hne : ∀ d : Char, d.isDigit = false → c ≠ d := by
    rintro d hd rfl
    rw [h] at hd
    cases hd
  have hspace : isSpace c = false := by
    simp only [isSpace, Bool.or_eq_false_iff, beq_eq_false_iff_ne]
    exact ⟨⟨⟨hne ' ' rfl, hne '\t' rfl⟩, hne '\n' rfl⟩, hne '\r' rfl⟩
  rw [readValue_scalar depth hspace (hne '[' rfl) (hne '\x7b' rfl), readScalar, if_neg (hne 'n' rfl),
    if_neg (hne 't' rfl), if_neg (hne 'f' rfl), if_neg (hne '"' rfl), if_neg (hne '-' rfl), if_pos h]

theorem readValue_digits (depth : ℕ) (h : ∀ c ∈ digits, c.isDigit = true) (hne : digits ≠ [])
    (s : Text) :
    readValue depth (digits ++ s) =
      (readNumeral false (digits ++ s)).map fun (n, s) => (.number n, s) := by
  cases digits with
  | nil => exact absurd rfl hne
  | cons c digits => exact readValue_numeral depth (h c mem_cons_self) _

theorem denotes_nat (depth : ℕ) (h : n < 2 ^ 64) :
    Denotes depth (Nat.toDigits 10 n) (.number (.posInt n)) := by
  intro rest hrest
  rw [readValue_digits depth (isDigit_toDigits n) Nat.toDigits_ne_nil,
    readNumeral_integer false n hrest, readInteger, if_neg Bool.false_ne_true, if_pos h]
  rfl

theorem denotes_neg (depth : ℕ) (hpos : 0 < n) (hle : n ≤ 2 ^ 63) :
    Denotes depth ('-' :: Nat.toDigits 10 n) (.number (.negInt n)) := by
  intro rest hrest
  have hread := readNumeral_integer true n hrest
  rw [readInteger, if_pos rfl, if_pos ⟨hpos, hle⟩] at hread
  rw [cons_append, readValue_scalar depth (by decide) (by decide) (by decide)]
  simp [readScalar, hread]

theorem denotes_fixedPoint (depth : ℕ) (hwidth : width ≠ 0) (h : n < f64Limit * 10 ^ width) :
    Denotes depth (fixedPoint width n)
      (.number (.float ⟨false, NNRat.divNat n (10 ^ width)⟩)) := by
  intro rest hrest
  have hread : readReal false n (-width) =
      some (.float ⟨false, NNRat.divNat n (10 ^ width)⟩) := by
    have hup : (-(width : ℤ)).toNat = 0 := Int.toNat_neg_natCast width
    have hdown : (-(-(width : ℤ))).toNat = width := by rw [neg_neg, Int.toNat_natCast]
    rw [readReal, scaled, hup, hdown, pow_zero, Nat.mul_one, if_neg (Nat.not_le.mpr h)]
  have hdigits := readValue_digits depth (isDigit_toDigits (n / 10 ^ width)) Nat.toDigits_ne_nil
    ('.' :: fixedDigits width (n % 10 ^ width) ++ rest)
  rw [← append_assoc] at hdigits
  exact hdigits.trans (by rw [← fixedPoint, readNumeral_fixedPoint false hwidth n hrest, hread]; rfl)

theorem delimited_cons (h : c.isDigit = false ∧ c ≠ '.' ∧ c ≠ 'e' ∧ c ≠ 'E') (s : Text) :
    Delimited (c :: s) := by
  intro d hd
  cases hd
  exact h

theorem length_le_intercalate (c : Char) (items : List Text) :
    items.length ≤ ([c].intercalate items).length + 1 := by
  induction items with
  | nil => exact Nat.zero_le _
  | cons item items ih =>
    cases items with
    | nil => simp
    | cons next items =>
      rw [intercalate_cons_cons, length_cons]
      simp only [length_append, length_singleton] at ih ⊢
      omega

theorem readValue_closing {depth : ℕ} {s : Text} {c : Char} (h : (skipSpace s).head? = some c)
    (hc : c = ']' ∨ c = '\x7d') : readValue depth s = none := by
  cases hs : skipSpace s with
  | nil =>
    rw [hs] at h
    cases h
  | cons d rest =>
    rw [hs] at h
    cases h
    rcases hc with rfl | rfl <;> cases depth <;> simp [readValue, hs, readScalar]

variable {texts : List Text}

theorem readItems_denotes {values : List Json} (h : List.Forall₂ (Denotes depth) texts values)
    (hne : texts ≠ []) (rest : Text) (hfuel : texts.length ≤ fuel) :
    readItems (readValue depth) fuel ([','].intercalate texts ++ ']' :: rest) =
      some (values, rest) := by
  induction h generalizing fuel with
  | nil => exact absurd rfl hne
  | @cons text value texts values hvalue htexts ih =>
    obtain ⟨fuel, rfl⟩ := Nat.exists_eq_succ_of_ne_zero (Nat.ne_of_gt (Nat.zero_lt_of_lt hfuel))
    cases htexts with
    | nil =>
      have hread := hvalue (']' :: rest) (delimited_cons (by decide) rest)
      simp [readItems, hread, skipSpace_of_head (show isSpace ']' = false by decide)]
    | @cons next nextValue texts values hnext htexts =>
      have hread := hvalue (',' :: ([','].intercalate (next :: texts) ++ ']' :: rest))
        (delimited_cons (by decide) _)
      have hrest := ih (by simp) (Nat.le_of_succ_le_succ hfuel)
      rw [intercalate_cons_cons, append_assoc, append_assoc,
        singleton_append, readItems, hread]
      simp only [bind_some, skipSpace_of_head (show isSpace ',' = false by decide), hrest,
        map_some]

theorem denotes_array {values : List Json} (h : List.Forall₂ (Denotes depth) texts values) :
    Denotes (depth + 1) (arrayText texts) (.array values) := by
  intro rest _
  have hspace : isSpace '[' = false := by decide
  rw [arrayText, cons_append, append_assoc, singleton_append, readValue,
    skipSpace_of_head hspace, head?_cons, if_pos rfl, tail_cons, readArray]
  cases h with
  | nil => rfl
  | @cons text value texts values hvalue htexts =>
    have hfuel : (text :: texts).length ≤
        ([','].intercalate (text :: texts) ++ ']' :: rest).length := by
      have := length_le_intercalate ',' (text :: texts)
      simp only [length_append, length_cons] at this ⊢
      omega
    have hread := readItems_denotes (.cons hvalue htexts) (by simp) rest hfuel
    rw [if_neg, hread]
    · rfl
    · intro hclose
      obtain ⟨fuel, hsucc⟩ := Nat.exists_eq_succ_of_ne_zero (Nat.ne_of_gt (Nat.zero_lt_of_lt hfuel))
      rw [hsucc, readItems, readValue_closing hclose (.inl rfl)] at hread
      cases hread

variable {values : List (Text × Json)} {members : List (Text × Text)}

section
variable (h : List.Forall₂ (fun m v => m.1 = v.1 ∧ Denotes depth m.2 v.2) members values)
include h

theorem readMembers_denotes (hne : members ≠ []) (rest : Text) (hfuel : members.length ≤ fuel) :
    readMembers (readValue depth) fuel
      ([','].intercalate (members.map memberText) ++ '\x7d' :: rest) = some (values, rest) := by
  have hcolon := skipSpace_of_head (show isSpace ':' = false by decide)
  have hquote := skipSpace_of_head (show isSpace '"' = false by decide)
  induction h generalizing fuel with
  | nil => exact absurd rfl hne
  | @cons member value members values hmember hmembers ih =>
    obtain ⟨key, text⟩ := member
    obtain ⟨_, value⟩ := value
    obtain ⟨rfl, hvalue⟩ := hmember
    obtain ⟨fuel, rfl⟩ := Nat.exists_eq_succ_of_ne_zero (Nat.ne_of_gt (Nat.zero_lt_of_lt hfuel))
    cases hmembers with
    | nil =>
      have hread := hvalue ('\x7d' :: rest) (delimited_cons (by decide) rest)
      have hkey := readString_encoded key (':' :: (text ++ '\x7d' :: rest))
      simp [readMembers, memberText, encodeString, hquote, hcolon, hkey, hread,
        skipSpace_of_head (show isSpace '\x7d' = false by decide)]
    | @cons next nextValue members values hnext hmembers =>
      have hread := hvalue
        (',' :: ([','].intercalate ((next :: members).map memberText) ++ '\x7d' :: rest))
        (delimited_cons (by decide) _)
      have hkey := readString_encoded key (':' :: (text ++
        ',' :: ([','].intercalate ((next :: members).map memberText) ++ '\x7d' :: rest)))
      have hrest := ih (by simp) (Nat.le_of_succ_le_succ hfuel)
      rw [map_cons, map_cons, intercalate_cons_cons, ← map_cons]
      simp only [memberText, encodeString, cons_append, append_assoc,
        nil_append, readMembers, hquote, hkey, bind_some,
        hcolon, hread, skipSpace_of_head (show isSpace ',' = false by decide), hrest,
        map_some]

theorem denotes_object :
    Denotes (depth + 1) (objectText members) (.object values) := by
  intro rest _
  have hspace : isSpace '\x7b' = false := by decide
  rw [objectText, cons_append, append_assoc, singleton_append, readValue,
    skipSpace_of_head hspace, head?_cons, if_neg (by decide), if_pos rfl, tail_cons,
    readObject]
  cases h with
  | nil => rfl
  | @cons member value members values hmember hmembers =>
    have hfuel : (member :: members).length ≤
        ([','].intercalate ((member :: members).map memberText) ++ '\x7d' :: rest).length := by
      have := length_le_intercalate ',' ((member :: members).map memberText)
      simp only [length_append, length_cons, length_map] at this ⊢
      omega
    have hread := readMembers_denotes (.cons hmember hmembers) (by simp) rest hfuel
    rw [if_neg, hread]
    · rfl
    · intro hclose
      obtain ⟨fuel, hsucc⟩ := Nat.exists_eq_succ_of_ne_zero (Nat.ne_of_gt (Nat.zero_lt_of_lt hfuel))
      cases hs : skipSpace ([','].intercalate ((member :: members).map memberText) ++
          '\x7d' :: rest) with
      | nil =>
        rw [hs] at hclose
        cases hclose
      | cons c s =>
        rw [hs] at hclose
        cases hclose
        rw [hsucc, readMembers, hs] at hread
        cases hread

end

theorem notMem_intercalate {sep : Char} (hsep : c ≠ sep) (h : ∀ t ∈ texts, c ∉ t) :
    c ∉ [sep].intercalate texts := by
  induction texts with
  | nil => simp
  | cons t texts ih =>
    have ht := h t mem_cons_self
    have hrest := ih fun u hu => h u (mem_cons_of_mem _ hu)
    cases texts with
    | nil => simpa using ht
    | cons u texts =>
      rw [intercalate_cons_cons]
      simp only [mem_append, mem_singleton, not_or]
      exact ⟨⟨ht, hsep⟩, hrest⟩

theorem newline_notMem_memberText {member : Text × Text} (h : '\n' ∉ member.2) :
    '\n' ∉ memberText member := by
  simp only [memberText, mem_append, mem_cons, not_or]
  exact ⟨newline_notMem_encodeString _, by decide, h⟩

theorem newline_notMem_objectText (h : ∀ member ∈ members, '\n' ∉ member.2) :
    '\n' ∉ objectText members := by
  have hmembers : '\n' ∉ [','].intercalate (members.map memberText) := by
    apply notMem_intercalate (by decide)
    intro t ht
    obtain ⟨member, hmember, rfl⟩ := mem_map.mp ht
    exact newline_notMem_memberText (h member hmember)
  simp only [objectText, mem_cons, mem_append, mem_nil_iff, or_false, not_or]
  exact ⟨by decide, hmembers, by decide⟩

end JsonLib
