import BridgeMcp.Ldap.Filter

/-!
The server that an accepted `uri` names (`domain/use_cases/ldap.rs`), and the lines for it: the
client certificate of the host is withheld unless the server is the host itself.
-/
namespace BridgeMcp.Ldap
open TextLib IpLib BridgeMcp.Shell List

def validateUri (uri : Text) : Except CommandDenied Unit :=
  if (parseLdapUri uri).isSome then .ok ()
  else
    .error ⟨("'uri' must be one ldap://, ldaps:// or ldapi:// URI of the form " ++
      "scheme://host[:port] (IPv6 address in brackets; for ldapi:// %-escape the " ++
      "socket path: ldapi://%2Fvar%2Frun%2Fslapd%2Fldapi, not ldapi:///var/run/...), " ++
      "at most 255 bytes, without spaces, commas, user " ++
      "information, path or query: omit 'uri' to use the server of the host's " ++
      "ldap.conf").toList⟩

def uriOption (uri : Option Text) : Text :=
  uri.elim [] fun u => " -H " ++ escape u .posix

def buildLdifCommand (program : String) (ldifContent : Text) (uri : Option Text) : Text :=
  let cmd := clientEnv uri ++ program.toList ++ " -x" ++ uriOption uri
  "printf '%s' " ++ escape ldifContent .posix ++ " | " ++ cmd

def buildAddCommand (ldifContent : Text) (uri : Option Text) : Text :=
  buildLdifCommand "ldapadd" ldifContent uri

def buildModifyCommand (ldifContent : Text) (uri : Option Text) : Text :=
  buildLdifCommand "ldapmodify" ldifContent uri

inductive Builder where
  | search (baseDn : Text) (filter attributes scope : Option Text)
  | userInfo (baseDn username : Text)
  | groupMembers (baseDn group : Text)
  | add (ldifContent : Text)
  | modify (ldifContent : Text)

def Builder.build (uri : Option Text) : Builder → Text
  | .search baseDn filter attributes scope => buildSearchCommand baseDn filter attributes scope uri
  | .userInfo baseDn username => buildUserInfoCommand baseDn username uri
  | .groupMembers baseDn group => buildGroupMembersCommand baseDn group uri
  | .add ldifContent => buildAddCommand ldifContent uri
  | .modify ldifContent => buildModifyCommand ldifContent uri

def searchCall (baseDn : Text) (filter attributes scope uri : Option Text) : Text :=
  "ldapsearch -x -LLL".toList ++ uriOption uri ++
    " -b " ++ escape baseDn .posix ++
    scope.elim [] (fun s => " -s ".toList ++ escape s .posix) ++
    (if filter.isSome || attributes.isSome then
      " --" ++ " " ++ escape (filter.getD "(objectClass=*)") .posix
    else []) ++
    (splitWhitespace (attributes.getD [])).flatMap fun selector =>
      " ".toList ++ escape selector .posix

def Builder.line (env : Text) (uri : Option Text) : Builder → Text
  | .search baseDn filter attributes scope =>
    env ++ searchCall baseDn filter attributes scope uri
  | .userInfo baseDn username =>
    env ++ searchCall baseDn (some (userFilter username)) none (some "sub") uri
  | .groupMembers baseDn group =>
    env ++ searchCall baseDn (some (groupFilter group)) (some "member memberUid")
      (some "sub") uri
  | .add ldifContent =>
    "printf '%s' " ++ escape ldifContent .posix ++ " | " ++
      (env ++ "ldapadd" ++ " -x" ++ uriOption uri)
  | .modify ldifContent =>
    "printf '%s' " ++ escape ldifContent .posix ++ " | " ++
      (env ++ "ldapmodify" ++ " -x" ++ uriOption uri)

theorem buildSearchCommand_call (baseDn : Text) (filter attributes scope uri : Option Text) :
    buildSearchCommand baseDn filter attributes scope uri =
      clientEnv uri ++ searchCall baseDn filter attributes scope uri := by
  unfold buildSearchCommand searchCall uriOption
  generalize clientEnv uri = env
  simp only [append_assoc]

theorem Builder.build_eq (uri : Option Text) (builder : Builder) :
    builder.build uri = builder.line (clientEnv uri) uri := by
  cases builder with
  | search | userInfo | groupMembers => exact buildSearchCommand_call _ _ _ _ _
  | add | modify => rfl

/-- The characters after `://`, but for a last slash. -/
def isUriChar (c : Char) : Bool := isNameChar c || ['%', '[', ']', ':'].contains c

variable {c : Char}

theorem isUriChar_of_isAlphanum (h : c.isAlphanum = true) : isUriChar c = true := by
  simp [isUriChar, isNameChar, h]

theorem uriChar_code (h : isUriChar c = true) :
    (0x20 < c.toNat ∧ c.toNat < 0x7f) ∧ c ∉ ['@', ' ', ',', '?', '#', '/'] := by
  by_cases hletter : c.isAlphanum = true
  · have hcode := isAlphanum_iff.mp hletter
    refine ⟨by omega, ?_⟩
    simp only [mem_cons, not_mem_nil, or_false]
    rintro (rfl | rfl | rfl | rfl | rfl | rfl) <;> revert hcode <;> decide
  · simp only [isUriChar, isNameChar, hletter, Bool.false_or, Bool.or_eq_true, beq_iff_eq,
      contains_iff_mem, mem_cons, not_mem_nil, or_false, or_assoc] at h
    rcases h with rfl | rfl | rfl | rfl | rfl | rfl | rfl <;> decide

theorem isAlphanum_of_hex (h : (hexDigitValue c).isSome = true) :
    c.isAlphanum = true := by
  by_contra hnot
  rw [isAlphanum_iff] at hnot
  rw [hexDigitValue, if_neg, if_neg, if_neg] at h
  · cases h
  · change ¬ (65 ≤ c.toNat ∧ c.toNat ≤ 70)
    omega
  · change ¬ (97 ≤ c.toNat ∧ c.toNat ≤ 102)
    omega
  · rw [isDigit_iff]
    omega

theorem isUriChar_of_isIpChar (h : isIpChar c = true) : isUriChar c = true := by
  simp only [isIpChar, Bool.or_eq_true, beq_iff_eq] at h
  rcases h with (h | rfl) | rfl
  · exact isUriChar_of_isAlphanum (isAlphanum_of_hex h)
  · rfl
  · rfl

theorem isAlphanum_of_toLower (h : c.toLower.isAlphanum = true) :
    c.isAlphanum = true := by
  by_cases hupper : 65 ≤ c.toNat ∧ c.toNat ≤ 90
  · exact isAlphanum_iff.mpr (.inr (.inl hupper))
  · rwa [toLower_of_not_upper hupper] at h

def schemes : List Text := ["ldap", "ldaps", "ldapi"]

variable {scheme authority host uri : Text}

theorem isAlphanum_of_scheme (h : lower scheme ∈ schemes) :
    ∀ c ∈ scheme, c.isAlphanum = true := by
  intro c hc
  have hmem : c.toLower ∈ lower scheme := mem_map_of_mem hc
  have hall : ∀ word ∈ schemes, word.all Char.isAlphanum = true := by
    simp only [schemes, forall_mem_cons]
    decide
  exact isAlphanum_of_toLower (all_eq_true.mp (hall _ h) _ hmem)

theorem isUriChar_of_isSocketPath {path : Text} (h : isSocketPath path = true) :
    ∀ c ∈ path, isUriChar c = true := by
  induction path using isSocketPath.induct with
  | case1 => nofun
  | case2 a b rest ih =>
    rw [isSocketPath, if_pos rfl, Bool.and_eq_true, Bool.and_eq_true] at h
    obtain ⟨⟨ha, hb⟩, hrest⟩ := h
    simp only [forall_mem_cons]
    exact ⟨rfl, isUriChar_of_isAlphanum (isAlphanum_of_hex ha),
      isUriChar_of_isAlphanum (isAlphanum_of_hex hb), ih hrest⟩
  | case3 rest hshort =>
    rw [isSocketPath.eq_def] at h
    simp only [if_true] at h
    cases h
  | case4 c rest hc ih =>
    rw [isSocketPath.eq_def] at h
    simp only [hc, if_false, Bool.and_eq_true] at h
    exact forall_mem_cons.mpr ⟨by rw [isUriChar, h.1]; rfl, ih h.2⟩

def portText (port : Option Text) : Text := port.elim [] (':' :: ·)

/-- The authority is the host, in brackets or not, and the port. -/
def Spelled (authority host : Text) (port : Option Text) : Prop :=
  authority = host ++ portText port ∧ host.all isNameChar = true ∨
    authority = '[' :: host ++ ']' :: portText port ∧ parseIpv6 host ≠ none

theorem splitAuthority_spelled {port : Option Text}
    (h : splitAuthority authority = some (host, port)) : Spelled authority host port := by
  unfold splitAuthority at h
  split_ifs at h with hbracket
  · obtain ⟨rest, rfl⟩ := List.head?_eq_some_iff.mp hbracket
    obtain ⟨⟨address, after⟩, hsplit, h⟩ := Option.bind_eq_some_iff.mp h
    have hrest := splitFirst_spec hsplit
    rw [List.tail_cons] at hrest
    dsimp only at h
    split_ifs at h with hbad hnil hcolon
    · cases h
      rw [List.isEmpty_iff] at hnil
      subst hnil
      exact .inr ⟨by rw [hrest]; simp [portText], by simpa using hbad⟩
    · cases h
      obtain ⟨digits, rfl⟩ := List.head?_eq_some_iff.mp hcolon
      exact .inr ⟨by rw [hrest]; simp [portText], by simpa using hbad⟩
  · dsimp only at h
    cases hsplit : splitFirst [':'] authority with
    | none =>
      rw [hsplit] at h
      dsimp only at h
      split_ifs at h with hname
      cases h
      rw [Bool.and_eq_true] at hname
      exact .inl ⟨(List.append_nil _).symm, hname.2⟩
    | some parts =>
      rw [hsplit] at h
      dsimp only at h
      split_ifs at h with hname
      cases h
      rw [Bool.and_eq_true] at hname
      refine .inl ⟨?_, hname.2⟩
      rw [splitFirst_spec hsplit, List.append_assoc]
      rfl

theorem Spelled.uriChars {port : Option Text} (h : Spelled authority host port)
    (hport : port.all isPort = true) :
    ∀ c ∈ authority, isUriChar c = true := by
  have hdigits : ∀ c ∈ portText port, isUriChar c = true := by
    cases port with
    | none => nofun
    | some digits =>
      simp only [Option.all_some, isPort, Bool.and_eq_true, all_eq_true] at hport
      refine forall_mem_cons.mpr ⟨rfl, fun c hc => ?_⟩
      exact isUriChar_of_isAlphanum (by simp [Char.isAlphanum, hport.1.2 c hc])
  rcases h with ⟨rfl, hname⟩ | ⟨rfl, haddress⟩
  · refine forall_mem_append.mpr ⟨fun c hc => ?_, hdigits⟩
    rw [isUriChar, all_eq_true.mp hname c hc]
    rfl
  · obtain ⟨segments, hparse⟩ := Option.ne_none_iff_exists'.mp haddress
    refine forall_mem_cons.mpr ⟨rfl, forall_mem_append.mpr ⟨fun c hc => ?_, ?_⟩⟩
    · exact isUriChar_of_isIpChar (parseIpv6_chars hparse c hc)
    · exact forall_mem_cons.mpr ⟨rfl, hdigits⟩

inductive Designates (scheme authority : Text) : LdapTarget → Prop where
  | socket (hscheme : lower scheme = "ldapi") : Designates scheme authority .socket
  | network {host : Text} {port : Option Text} (h : Spelled authority host port)
      (hport : port.all isPort = true) : Designates scheme authority (.network host)

theorem parseLdapUri_spec {target : LdapTarget} (h : parseLdapUri uri = some target) :
    utf8Len uri ≤ ldapUriMaxLen ∧ ∃ scheme authority slash,
      uri = scheme ++ "://" ++ (authority ++ slash) ∧ lower scheme ∈ schemes ∧
      (slash = [] ∨ slash = ['/']) ∧ (∀ c ∈ authority, isUriChar c = true) ∧
      Designates scheme authority target := by
  unfold parseLdapUri at h
  split_ifs at h with hlen
  refine ⟨Nat.le_of_not_lt hlen, ?_⟩
  obtain ⟨⟨scheme, rest⟩, hsplit, h⟩ := Option.bind_eq_some_iff.mp h
  obtain ⟨authority, slash, hauthority, hrest, hslash⟩ : ∃ authority slash : Text,
      (if rest.getLast? = some '/' then rest.dropLast else rest) = authority ∧
      rest = authority ++ slash ∧ (slash = [] ∨ slash = ['/']) := by
    by_cases hlast : rest.getLast? = some '/'
    · exact ⟨_, ['/'], if_pos hlast, (dropLast_append_getLast? _ hlast).symm, .inr rfl⟩
    · exact ⟨_, [], if_neg hlast, (append_nil _).symm, .inl rfl⟩
  refine ⟨scheme, authority, slash, by rw [splitFirst_spec hsplit, hrest], ?_⟩
  dsimp only at h
  rw [hauthority] at h
  split_ifs at h with hsocket hpath hother
  · cases h
    exact ⟨by simp [schemes, hsocket], hslash, isUriChar_of_isSocketPath hpath, .socket hsocket⟩
  · obtain ⟨⟨host, port⟩, hhost, h⟩ := Option.bind_eq_some_iff.mp h
    have hspelled := splitAuthority_spelled hhost
    have hscheme : lower scheme ∈ schemes := by
      rw [not_and_or, not_not, not_not] at hother
      rcases hother with hldap | hldaps
      · simp [schemes, hldap]
      · simp [schemes, hldaps]
    dsimp only at h
    split_ifs at h with hport
    cases h
    exact ⟨hscheme, hslash, hspelled.uriChars hport, .network hspelled hport⟩

/-- The text names one server: no list, no user, no path, no query. -/
structure OneServer (uri : Text) : Prop where
  short : utf8Len uri ≤ 255
  printable : ∀ c ∈ uri, 0x20 < c.toNat ∧ c.toNat < 0x7f
  plain : ∀ c ∈ uri, c ∉ ['@', ' ', ',', '?', '#']
  server : ∃ scheme rest, uri = scheme ++ "://" ++ rest ∧
    lower scheme ∈ ["ldap".toList, "ldaps".toList, "ldapi".toList] ∧
    (∀ left right, uri = left ++ "://" ++ right → left = scheme) ∧ '/' ∉ rest.dropLast

/-- The host itself: a socket, or a host that is `localhost` or a loopback address, with a port from
1 to 65535 or none. -/
def Local (uri : Text) : Prop :=
  ∃ scheme authority slash, uri = scheme ++ "://" ++ authority ++ slash ∧
    (slash = [] ∨ slash = ['/']) ∧
    (lower scheme = "ldapi" ∨
      ∃ host port, (authority = host ++ port ∨ authority = '[' :: host ++ ']' :: port) ∧
        (port = [] ∨ ∃ digits, port = ':' :: digits ∧ digits.all Char.isDigit = true ∧
          1 ≤ Nat.ofDigitChars 10 digits 0 ∧ Nat.ofDigitChars 10 digits 0 ≤ 65535) ∧
        (lower host = "localhost" ∨
          ∃ ip, parseIpAddr host = some ip ∧ ip.toCanonical.isLoopback = true))

theorem scheme_unique {rest left right : Text} (hscheme : ':' ∉ scheme)
    (hslash : rest.count '/' ≤ 1)
    (h : scheme ++ "://" ++ rest = left ++ "://" ++ right) : left = scheme := by
  rw [append_assoc, append_assoc] at h
  rcases append_eq_append_iff.mp h with ⟨more, rfl, hmore⟩ | ⟨more, rfl, hmore⟩
  · match more, hmore with
    | [], _ => exact append_nil _
    | [_], hmore | [_, _], hmore => simp at hmore
    | a :: b :: c :: more, hmore =>
      simp only [String.reduceToList, cons_append, nil_append, cons.injEq] at hmore
      have hcount := congrArg (count '/') hmore.2.2.2
      simp [count_append] at hcount
      omega
  · cases more with
    | nil => exact (append_nil _).symm
    | cons c more =>
      have hc : ':' = c := (cons.inj hmore).1
      exact absurd (mem_append_right left (hc ▸ mem_cons_self ..)) hscheme

theorem count_slash {slash : Text} (h : ∀ c ∈ authority, isUriChar c = true)
    (hslash : slash = [] ∨ slash = ['/']) :
    (authority ++ slash).count '/' ≤ 1 ∧ '/' ∉ (authority ++ slash).dropLast := by
  have hnone : '/' ∉ authority := fun hmem => (uriChar_code (h _ hmem)).2 (by decide)
  rcases hslash with rfl | rfl
  · rw [append_nil, count_eq_zero.mpr hnone]
    exact ⟨Nat.zero_le 1, fun hmem => hnone (mem_of_mem_dropLast hmem)⟩
  · rw [count_append, count_eq_zero.mpr hnone, dropLast_concat]
    exact ⟨Nat.le_refl 1, hnone⟩

theorem oneServer_of_parse {target : LdapTarget} (h : parseLdapUri uri = some target) :
    OneServer uri := by
  obtain ⟨hshort, scheme, authority, slash, rfl, hscheme, hslash, hchars, -⟩ := parseLdapUri_spec h
  have hletters := isAlphanum_of_scheme hscheme
  obtain ⟨hcount, hlast⟩ := count_slash hchars hslash
  have hall : ∀ c ∈ scheme ++ "://" ++ (authority ++ slash),
      isUriChar c = true ∨ c = '/' := by
    simp only [forall_mem_append]
    refine ⟨⟨fun c hc => .inl (isUriChar_of_isAlphanum (hletters c hc)), ?_⟩,
      fun c hc => .inl (hchars c hc), ?_⟩
    · simp [isUriChar]
    · rcases hslash with rfl | rfl <;> simp
  have hcode : ∀ c ∈ scheme ++ "://" ++ (authority ++ slash),
      (0x20 < c.toNat ∧ c.toNat < 0x7f) ∧ c ∉ ['@', ' ', ',', '?', '#'] := by
    intro c hc
    rcases hall c hc with hchar | rfl
    · obtain ⟨hrange, hnone⟩ := uriChar_code hchar
      exact ⟨hrange, fun hmem => hnone (mem_append_left ['/'] hmem)⟩
    · decide
  exact {
    short := hshort
    printable := fun c hc => (hcode c hc).1
    plain := fun c hc => (hcode c hc).2
    server := ⟨scheme, authority ++ slash, rfl, hscheme, fun left right heq =>
      scheme_unique (fun hcolon => absurd (hletters _ hcolon) (by decide)) hcount heq, hlast⟩ }

theorem local_of_isLocal (h : isLocalLdapUri uri = true) : Local uri := by
  unfold isLocalLdapUri at h
  cases hparse : parseLdapUri uri with
  | none =>
    rw [hparse] at h
    cases h
  | some target =>
    rw [hparse] at h
    obtain ⟨-, scheme, authority, slash, rfl, -, hslash, -, hdesignates⟩ := parseLdapUri_spec hparse
    refine ⟨scheme, authority, slash, (append_assoc ..).symm, hslash, ?_⟩
    cases hdesignates with
    | socket hscheme => exact .inl hscheme
    | @network host port hspelled hport =>
      refine .inr ⟨host, portText port, hspelled.imp And.left And.left, ?_, ?_⟩
      · cases port with
        | none => exact .inl rfl
        | some digits =>
          simp [isPort] at hport
          exact .inr ⟨digits, rfl, by simpa using hport.1.2, by omega⟩
      · simp only [isLoopbackHost, Bool.or_eq_true, beq_iff_eq, Option.any_eq_true] at h
        exact h

/-- An accepted `uri` is one server, and a client of another machine than the host runs without the
host's certificate. -/
theorem certificate_stays {uri : Text} (h : validateUri uri = .ok ()) :
    OneServer uri ∧ ∀ builder : Builder,
      builder.build (some uri) = builder.line ldapRemoteEnv (some uri) ∨
        builder.build (some uri) = builder.line [] (some uri) ∧ Local uri := by
  have hsome : (parseLdapUri uri).isSome = true := by
    by_contra hnone
    rw [validateUri, if_neg hnone] at h
    cases h
  obtain ⟨target, hparse⟩ := Option.isSome_iff_exists.mp hsome
  refine ⟨oneServer_of_parse hparse, fun builder => ?_⟩
  rw [builder.build_eq]
  by_cases hlocal : isLocalLdapUri uri = true
  · refine .inr ⟨?_, local_of_isLocal hlocal⟩
    simp [clientEnv, hlocal]
  · refine .inl ?_
    simp [clientEnv, hlocal]

theorem certificate_stays_loopback :
    let uri := "LDAPS://[::1]:636/".toList
    let builder := Builder.userInfo "dc=example".toList "jdoe".toList
    validateUri uri = .ok () ∧ OneServer uri ∧
      (builder.build (some uri) = builder.line ldapRemoteEnv (some uri) ∨
        builder.build (some uri) = builder.line [] (some uri) ∧ Local uri) := by
  have hok : validateUri "LDAPS://[::1]:636/".toList = .ok () := if_pos (by decide +kernel)
  exact ⟨hok, (certificate_stays hok).1, (certificate_stays hok).2 _⟩

end BridgeMcp.Ldap
