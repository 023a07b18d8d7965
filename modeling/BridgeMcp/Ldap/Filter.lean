import BridgeMcp.Ldap.Uri
import BridgeMcp.Shell.Words

/-!
Search commands whose filter holds a caller's value (`domain/use_cases/ldap.rs`), and how a
directory client reads the value back.
-/
namespace BridgeMcp.Ldap
open TextLib BridgeMcp.Shell List

def escapeByte (b : UInt8) : Text :=
  if b = 40 then "\\28"
  else if b = 41 then "\\29"
  else if b = 42 then "\\2a"
  else if b = 92 then "\\5c"
  else if b = 0 then "\\00"
  else [Char.ofNat b.toNat]

def ldapFilterEscape (value : Text) : Text := (utf8Bytes value).flatMap escapeByte

def buildSearchCommand (baseDn : Text) (filter attributes scope uri : Option Text) : Text :=
  clientEnv uri ++ "ldapsearch -x -LLL".toList ++
    uri.elim [] (fun u => " -H ".toList ++ escape u .posix) ++
    " -b " ++ escape baseDn .posix ++
    scope.elim [] (fun s => " -s ".toList ++ escape s .posix) ++
    (if filter.isSome || attributes.isSome then
      " --" ++ " " ++ escape (filter.getD "(objectClass=*)") .posix
    else []) ++
    (splitWhitespace (attributes.getD [])).flatMap fun selector =>
      " ".toList ++ escape selector .posix

def userFilter (username : Text) : Text :=
  "(uid=" ++ ldapFilterEscape username ++ ")"

def groupFilter (group : Text) : Text :=
  "(cn=" ++ ldapFilterEscape group ++ ")"

def buildUserInfoCommand (baseDn username : Text) (uri : Option Text) : Text :=
  buildSearchCommand baseDn (some (userFilter username)) none (some "sub") uri

def buildGroupMembersCommand (baseDn group : Text) (uri : Option Text) : Text :=
  buildSearchCommand baseDn (some (groupFilter group)) (some "member memberUid")
    (some "sub") uri

def clientWords (uri : Option Text) : List Text :=
  if uri.any fun u => !isLocalLdapUri u then ["LDAPTLS_CERT=", "LDAPTLS_KEY="] else []

def searchWords (baseDn : Text) (uri : Option Text) : List Text :=
  clientWords uri ++ ["ldapsearch".toList, "-x".toList, "-LLL".toList] ++
    uri.elim [] (fun u => ["-H".toList, u]) ++ ["-b".toList, baseDn, "-s".toList, "sub".toList]

def uriPieces (uri : Option Text) : List (Quoting × Text) :=
  uri.elim [] fun u => [(.posixWord, "-H"), (.escape, u)]

def operandPieces (baseDn filter : Text) (selectors : List Text) : List (Quoting × Text) :=
  [(.posixWord, "-b".toList), (.escape, baseDn), (.posixWord, "-s".toList),
    (.escape, "sub".toList), (.posixWord, "--".toList), (.escape, filter)] ++
  selectors.map fun selector => (.escape, selector)

theorem buildSearchCommand_eq (baseDn filter : Text) (attributes uri : Option Text) :
    buildSearchCommand baseDn (some filter) attributes (some "sub") uri =
      clientEnv uri ++ "ldapsearch -x -LLL" ++ spaced (uriPieces uri) ++
        spaced (operandPieces baseDn filter (splitWhitespace (attributes.getD []))) := by
  have hselectors : ∀ selectors : List Text,
      selectors.flatMap (fun selector => " ".toList ++ escape selector .posix) =
        spaced (selectors.map fun selector => (.escape, selector)) := by
    intro selectors
    rw [spaced, flatMap_map]
    rfl
  have huri : uri.elim [] (fun u => " -H ".toList ++ escape u .posix) = spaced (uriPieces uri) := by
    cases uri with
    | none => rfl
    | some u => simp [spaced, uriPieces, Quoting.apply, posixWord, isPlain, Char.isAlphanum]
  have hfixed : ∀ selectors : List (Quoting × Text),
      spaced ([(.posixWord, "-b".toList), (.escape, baseDn), (.posixWord, "-s".toList),
        (.escape, "sub".toList), (.posixWord, "--".toList), (.escape, filter)] ++ selectors) =
      " -b " ++ escape baseDn .posix ++ (" -s " ++ escape "sub" .posix) ++
        (" --" ++ " " ++ escape filter .posix) ++ spaced selectors := by
    intro selectors
    simp [spaced, Quoting.apply, posixWord, isPlain, Char.isAlphanum]
  rw [operandPieces, hfixed, ← hselectors, ← huri]
  simp [buildSearchCommand]

theorem shellWords_search (baseDn filter : Text) (attributes uri : Option Text) :
    shellWords (buildSearchCommand baseDn (some filter) attributes (some "sub") uri) =
      some (searchWords baseDn uri ++ ["--".toList, filter] ++
        splitWhitespace (attributes.getD [])) := by
  let bare : List Text → List (Quoting × Text) := map fun w => (.posixWord, w)
  have hline : ∃ first rest, clientEnv uri ++ "ldapsearch -x -LLL" =
      Quoting.apply .posixWord first ++ spaced (bare rest) ∧
      clientWords uri ++ ["ldapsearch".toList, "-x".toList, "-LLL".toList] = first :: rest := by
    by_cases hremote : uri.any fun u => !isLocalLdapUri u
    · refine ⟨"LDAPTLS_CERT=",
        ["LDAPTLS_KEY=", "ldapsearch", "-x", "-LLL"], ?_, ?_⟩
      · rw [clientEnv, if_pos hremote]
        decide +kernel
      · rw [clientWords, if_pos hremote]
        rfl
    · refine ⟨"ldapsearch", ["-x", "-LLL"], ?_, ?_⟩
      · rw [clientEnv, if_neg hremote]
        decide +kernel
      · rw [clientWords, if_neg hremote]
        rfl
  obtain ⟨first, rest, hstart, hwords⟩ := hline
  rw [buildSearchCommand_eq, hstart, append_assoc, append_assoc, ← spaced_append,
    ← spaced_append, shellWords_spaced (.posixWord, first), searchWords, hwords]
  cases uri <;> simp [bare, uriPieces, operandPieces, Function.comp_def]

def hexByteValue (b : UInt8) : Option ℕ := hexDigitValue (Char.ofNat b.toNat)

/-- RFC 4515: a backslash and two hexadecimal digits stand for a byte, any other byte for
itself. -/
def decodeValue : List UInt8 → List UInt8
  | [] => []
  | [b] => [b]
  | [b, c] => [b, c]
  | b :: c :: d :: rest =>
    if b = 92 then
      match hexByteValue c, hexByteValue d with
      | some high, some low => UInt8.ofNat (high * 16 + low) :: decodeValue rest
      | _, _ => b :: decodeValue (c :: d :: rest)
    else b :: decodeValue (c :: d :: rest)

def isFilterSpecial (b : UInt8) : Bool := b == 40 || b == 41 || b == 42 || b == 92 || b == 0

/-- No `(`, `)`, `*`, backslash or NUL but as part of an escape. -/
def wellEscaped : List UInt8 → Bool
  | [] => true
  | [b] => !isFilterSpecial b
  | [b, c] => !isFilterSpecial b && !isFilterSpecial c
  | b :: c :: d :: rest =>
    if b = 92 then (hexByteValue c).isSome && (hexByteValue d).isSome && wellEscaped rest
    else !isFilterSpecial b && wellEscaped (c :: d :: rest)

variable {b : UInt8}

theorem decodeValue_cons (h : b ≠ 92) (rest : List UInt8) :
    decodeValue (b :: rest) = b :: decodeValue rest := by
  match rest with
  | [] => rfl
  | [c] => rfl
  | c :: d :: rest => rw [decodeValue, if_neg h]

theorem wellEscaped_cons (h : isFilterSpecial b = false) (rest : List UInt8) :
    wellEscaped (b :: rest) = wellEscaped rest := by
  have hne : b ≠ 92 := by
    rintro rfl
    cases h
  match rest with
  | [] => simp [wellEscaped, h]
  | [c] => simp [wellEscaped, h]
  | c :: d :: rest => rw [wellEscaped, if_neg hne, h]; rfl

/-- What a byte of the value is read back as: a byte beyond ASCII has become two. -/
def readBack (b : UInt8) : List UInt8 :=
  if b.toNat < 128 then [b] else String.utf8EncodeChar (Char.ofNat b.toNat)

theorem toNat_latin1 (b : UInt8) : (Char.ofNat b.toNat).toNat = b.toNat :=
  toNat_ofNat_valid (.inl (b.toNat_lt.trans (by decide)))

theorem isFilterSpecial_of_high (h : 128 ≤ b.toNat) : isFilterSpecial b = false := by
  have hne : ∀ c : UInt8, c.toNat < 128 → (b == c) = false := by
    intro c hc
    apply beq_eq_false_iff_ne.mpr
    rintro rfl
    omega
  rw [isFilterSpecial, hne 40 (by decide), hne 41 (by decide), hne 42 (by decide),
    hne 92 (by decide), hne 0 (by decide)]
  rfl

theorem hexEscape_reads {escape : Text} (c d : UInt8) {high low : ℕ}
    (hescape : utf8Bytes escape = [92, c, d]) (hc : hexByteValue c = some high)
    (hd : hexByteValue d = some low) (hb : readBack b = [UInt8.ofNat (high * 16 + low)])
    (rest : List UInt8) :
    decodeValue (utf8Bytes escape ++ rest) = readBack b ++ decodeValue rest ∧
      wellEscaped (utf8Bytes escape ++ rest) = wellEscaped rest := by
  rw [hescape, hb, cons_append, cons_append, cons_append, nil_append,
    decodeValue, if_pos rfl, wellEscaped, if_pos rfl, hc, hd]
  exact ⟨rfl, rfl⟩

theorem plainBytes_read {bytes : List UInt8} (h : ∀ b ∈ bytes, isFilterSpecial b = false)
    (rest : List UInt8) :
    decodeValue (bytes ++ rest) = bytes ++ decodeValue rest ∧
      wellEscaped (bytes ++ rest) = wellEscaped rest := by
  induction bytes with
  | nil => exact ⟨rfl, rfl⟩
  | cons b bytes ih =>
    have hb := h b mem_cons_self
    have hne : b ≠ 92 := by
      rintro rfl
      cases hb
    obtain ⟨hdecode, hescaped⟩ := ih fun c hc => h c (mem_cons_of_mem _ hc)
    rw [cons_append, decodeValue_cons hne, hdecode, wellEscaped_cons hb, hescaped]
    exact ⟨rfl, rfl⟩

theorem escapeByte_reads (b : UInt8) (rest : List UInt8) :
    decodeValue (utf8Bytes (escapeByte b) ++ rest) = readBack b ++ decodeValue rest ∧
      wellEscaped (utf8Bytes (escapeByte b) ++ rest) = wellEscaped rest := by
  unfold escapeByte
  split_ifs with hopen hclose hstar hbackslash hnul
  · subst hopen
    exact hexEscape_reads 50 56 (by decide) rfl rfl rfl rest
  · subst hclose
    exact hexEscape_reads 50 57 (by decide) rfl rfl rfl rest
  · subst hstar
    exact hexEscape_reads 50 97 (by decide) rfl rfl rfl rest
  · subst hbackslash
    exact hexEscape_reads 53 99 (by decide) rfl rfl rfl rest
  · subst hnul
    exact hexEscape_reads 48 48 (by decide) rfl rfl rfl rest
  · have hplain : isFilterSpecial b = false := by
      simp [isFilterSpecial, hopen, hclose, hstar, hbackslash, hnul]
    have hcode := toNat_latin1 b
    have hbytes : utf8Bytes [Char.ofNat b.toNat] = readBack b := by
      rw [utf8Bytes_cons, utf8Bytes_nil, append_nil, readBack]
      split
      · next hascii => rw [encode_ascii (hcode.trans_lt hascii), hcode, UInt8.ofNat_toNat]
      · rfl
    rw [hbytes]
    apply plainBytes_read
    intro c hc
    unfold readBack at hc
    split at hc
    · rwa [mem_singleton.mp hc]
    · next hhigh => exact isFilterSpecial_of_high (encode_not_ascii (by omega) c hc)

theorem escapeBytes_read (bytes : List UInt8) :
    decodeValue (utf8Bytes (bytes.flatMap escapeByte)) = bytes.flatMap readBack ∧
      wellEscaped (utf8Bytes (bytes.flatMap escapeByte)) = true := by
  induction bytes with
  | nil => exact ⟨rfl, rfl⟩
  | cons b bytes ih =>
    rw [flatMap_cons, flatMap_cons, utf8Bytes_append, (escapeByte_reads b _).1,
      (escapeByte_reads b _).2, ih.1]
    exact ⟨rfl, ih.2⟩

theorem readBack_length (b : UInt8) :
    (readBack b).length = if b.toNat < 128 then 1 else 2 := by
  have hcode := toNat_latin1 b
  have hlt := b.toNat_lt
  unfold readBack
  split
  · rfl
  · simp only [String.utf8EncodeChar, show (Char.ofNat b.toNat).val.toNat = b.toNat from hcode]
    rw [if_neg (by omega), if_pos (by omega)]
    rfl

theorem length_le_flatMap_readBack (bytes : List UInt8) :
    bytes.length ≤ (bytes.flatMap readBack).length := by
  induction bytes with
  | nil => exact le_rfl
  | cons b bytes ih =>
    have hlength := readBack_length b
    rw [flatMap_cons, length_append, length_cons]
    split at hlength <;> omega

theorem flatMap_readBack_eq_iff (bytes : List UInt8) :
    bytes.flatMap readBack = bytes ↔ ∀ b ∈ bytes, b.toNat < 128 := by
  induction bytes with
  | nil => simp
  | cons b bytes ih =>
    rw [flatMap_cons, forall_mem_cons, ← ih]
    by_cases hb : b.toNat < 128
    · rw [readBack, if_pos hb, singleton_append, cons.injEq]
      exact ⟨fun h => ⟨hb, h.2⟩, fun h => ⟨rfl, h.2⟩⟩
    · refine iff_of_false ?_ fun h => hb h.1
      intro h
      have hlength := congrArg length h
      rw [length_append, readBack_length, if_neg hb, length_cons] at hlength
      have := length_le_flatMap_readBack bytes
      omega

/-- The filter reaches `ldapsearch` as one word in both commands, always well escaped, and its
value decodes to the caller's bytes exactly when the caller's text is ASCII. -/
theorem filter_value_round_trip_iff (baseDn value : Text) (uri : Option Text) :
    shellWords (buildUserInfoCommand baseDn value uri) =
      some (searchWords baseDn uri ++
        ["--".toList, "(uid=".toList ++ ldapFilterEscape value ++ ")".toList]) ∧
    shellWords (buildGroupMembersCommand baseDn value uri) =
      some (searchWords baseDn uri ++
        ["--".toList, "(cn=".toList ++ ldapFilterEscape value ++ ")".toList, "member".toList,
          "memberUid"]) ∧
    ((decodeValue (utf8Bytes (ldapFilterEscape value)) = utf8Bytes value ∧
        wellEscaped (utf8Bytes (ldapFilterEscape value)) = true) ↔
      IsAscii value) := by
  refine ⟨?_, ?_, ?_⟩
  · rw [buildUserInfoCommand, shellWords_search]
    exact congrArg some (append_nil _)
  · have hselectors : splitWhitespace "member memberUid" =
        ["member", "memberUid"] := by decide +kernel
    rw [buildGroupMembersCommand, shellWords_search, Option.getD_some, hselectors,
      append_assoc]
    rfl
  · obtain ⟨hdecode, hescaped⟩ := escapeBytes_read (utf8Bytes value)
    rw [ldapFilterEscape, hdecode, flatMap_readBack_eq_iff, utf8Bytes_lt_iff]
    exact and_iff_left hescaped

/-- `é` comes back as the bytes of `Ã©`. -/
theorem filter_value_mangled :
    ldapFilterEscape "José" = "JosÃ©" ∧
    decodeValue (utf8Bytes (ldapFilterEscape "José")) =
      [0x4A, 0x6F, 0x73, 0xC3, 0x83, 0xC2, 0xA9] ∧
    utf8Bytes "José" = [0x4A, 0x6F, 0x73, 0xC3, 0xA9] := by
  decide +kernel

end BridgeMcp.Ldap
