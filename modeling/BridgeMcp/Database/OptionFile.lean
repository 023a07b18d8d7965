import BridgeMcp.Database.Builder
import BridgeMcp.Lib.Shrink

/-!
The password of a MySQL command on its way through the option file: the documented reader of that
file, applied to what the command line writes.
-/
namespace BridgeMcp.Database
open TextLib BridgeMcp.Shell List

def nextQuote (quote : Option Char) (c : Char) : Option Char :=
  match quote with
  | none => if c = '\'' ∨ c = '"' then some c else none
  | some q => if c = q then none else some q

/-- Cut at the first `#` outside quotes. -/
def uncomment : Option Char → Text → Text
  | _, [] => []
  | quote, c :: s =>
    if quote = none ∧ c = '#' then [] else c :: uncomment (nextQuote quote c) s

def isQuote (c : Char) : Bool := c == '\'' || c == '"'

def stripQuotes : Text → Text
  | [] => []
  | q :: s => if isQuote q ∧ s.getLast? = some q then s.dropLast else q :: s

def escapedChar (c : Char) : Option Char :=
  [('b', '\x08'), ('t', '\t'), ('n', '\n'), ('r', '\r'), ('s', ' '), ('\\', '\\')].lookup c

/-- An unknown escape stays as it is. -/
def decodeEscapes : Text → Text
  | [] => []
  | [c] => [c]
  | c :: d :: s =>
    if c = '\\' then
      match escapedChar d with
      | some e => e :: decodeEscapes s
      | none => c :: d :: decodeEscapes s
    else c :: decodeEscapes (d :: s)

section Reader

-- What the reader removes at both ends of a value.
variable (isBlank : Char → Bool)

def trimBlanks (s : Text) : Text := (s.dropWhile isBlank).rdropWhile isBlank

def optionText (value : Text) : Text := decodeEscapes (stripQuotes (trimBlanks isBlank value))

/-- The last setting of `name` in the group, line by line. -/
def optionValue (group name : Text) : Option Text → List Text → Option Text
  | _, [] => none
  | current, line :: rest =>
    let line := uncomment none line
    if line.head? = some '[' then
      optionValue group name (some (line.tail.takeWhile (· != ']'))) rest
    else
      match splitFirst ['='] line with
      | some (key, value) =>
        if current = some group ∧ key = name then
          (optionValue group name current rest).or (some (optionText isBlank value))
        else optionValue group name current rest
      | none => optionValue group name current rest

def optionFile (client : Invocation) : Option Text :=
  match client.words with
  | _ :: arg :: _ =>
    let path := (arg.dropWhile (· != '=')).tail
    if arg.takeWhile (· != '=') = "--defaults-extra-file" ∨
        arg.takeWhile (· != '=') = "--defaults-file" then
      client.machine.files.lookup path
    else none
  | _ => none

def clientPassword (client : Invocation) : Option Text :=
  (optionFile client).bind fun file =>
    optionValue isBlank "client" "password" none (lines file)

theorem shrinks_uncomment (quote : Option Char) : Shrinks (uncomment quote) := by
  apply shrinks_of_infix
  intro s
  suffices uncomment quote s <+: s from this.isInfix
  induction s generalizing quote with
  | nil => exact prefix_rfl
  | cons c s ih =>
    rw [uncomment]
    split
    · exact nil_prefix
    · exact (cons_prefix_cons).mpr ⟨rfl, ih _⟩

theorem uncomment_eq_iff (quote : Option Char) (s : Text) :
    uncomment quote s = s ↔
      ∀ before after, s = before ++ '#' :: after → before.foldl nextQuote quote ≠ none := by
  induction s generalizing quote with
  | nil => simp [uncomment]
  | cons c s ih =>
    rw [uncomment]
    split
    · next hcut =>
        obtain ⟨rfl, rfl⟩ := hcut
        exact iff_of_false (by simp) fun h => h [] s rfl rfl
    · next hkeep =>
        rw [cons.injEq, ih]
        constructor
        · rintro ⟨-, h⟩ before after hs
          cases before with
          | nil =>
            obtain ⟨rfl, -⟩ := cons.inj hs
            exact fun hquote => hkeep ⟨hquote, rfl⟩
          | cons d before =>
            obtain ⟨rfl, hrest⟩ := cons.inj hs
            exact h before after hrest
        · intro h
          exact ⟨rfl, fun before after hs => h (c :: before) after (by rw [hs]; rfl)⟩

theorem shrinks_trimBlanks : Shrinks (trimBlanks isBlank) :=
  (shrinks_rdropWhile isBlank).comp (shrinks_dropWhile isBlank)

theorem trimBlanks_eq_iff (s : Text) :
    trimBlanks isBlank s = s ↔
      (∀ c ∈ s.head?, isBlank c = false) ∧ ∀ c ∈ s.getLast?, isBlank c = false := by
  rw [trimBlanks, (shrinks_rdropWhile isBlank).comp_eq_iff (shrinks_dropWhile isBlank),
    dropWhile_eq_self_iff_head, rdropWhile_eq_self_iff_getLast]

theorem shrinks_stripQuotes : Shrinks stripQuotes := by
  apply shrinks_of_infix
  intro s
  cases s with
  | nil => exact infix_rfl
  | cons q s =>
    rw [stripQuotes]
    split
    · exact (List.dropLast_prefix s).isInfix.trans (suffix_cons q s).isInfix
    · exact infix_rfl

theorem stripQuotes_eq_iff (s : Text) :
    stripQuotes s = s ↔ ∀ q middle, isQuote q = true → s ≠ q :: (middle ++ [q]) := by
  cases s with
  | nil => simp [stripQuotes]
  | cons c s =>
    rw [stripQuotes]
    split
    · next hquoted =>
        obtain ⟨hquote, hlast⟩ := hquoted
        apply iff_of_false
        · intro h
          have hlength := congrArg length h
          rw [length_dropLast, length_cons] at hlength
          omega
        · intro h
          apply h c s.dropLast hquote
          rw [dropLast_append_getLast? c hlast]
    · next hplain =>
        refine iff_of_true rfl ?_
        rintro q middle hquote hs
        obtain ⟨rfl, rfl⟩ := cons.inj hs
        exact hplain ⟨hquote, getLast?_concat⟩

theorem decodeEscapes_length_le (s : Text) : (decodeEscapes s).length ≤ s.length := by
  fun_induction decodeEscapes s with
  | case1 => exact le_rfl
  | case2 c => exact le_rfl
  | case3 d s e he ih => simp only [length_cons]; omega
  | case4 d s he ih => simp only [length_cons]; omega
  | case5 c d s hc ih => simpa using ih

theorem shrinks_decodeEscapes : Shrinks decodeEscapes := by
  intro s
  fun_induction decodeEscapes s with
  | case1 => exact .inl rfl
  | case2 c => exact .inl rfl
  | case3 d s e he ih =>
    right
    have hle := decodeEscapes_length_le s
    simp only [length_cons]
    omega
  | case4 d s he ih =>
    rcases ih with h | h
    · exact .inl (by rw [h])
    · exact .inr (by simpa using h)
  | case5 c d s hc ih =>
    rcases ih with h | h
    · exact .inl (by rw [h])
    · exact .inr (by simpa using h)

theorem decodeEscapes_eq_iff (s : Text) :
    decodeEscapes s = s ↔ ∀ d, (escapedChar d).isSome → ¬ ['\\', d] <:+: s := by
  fun_induction decodeEscapes s with
  | case1 => simp
  | case2 c =>
    refine iff_of_true rfl fun d _ h => ?_
    have hlength := h.length_le
    simp at hlength
  | case3 d s e he ih =>
    apply iff_of_false
    · intro h
      have hle := decodeEscapes_length_le s
      have hlength := congrArg length h
      simp only [length_cons] at hlength
      omega
    · intro h
      exact h d (by rw [he]; rfl) (prefix_append ['\\', d] s).isInfix
  | case4 d s he ih =>
    -- A backslash at `d` would itself be escaped.
    have hd : d ≠ '\\' := by
      rintro rfl
      cases he
    rw [cons.injEq, cons.injEq, ih]
    constructor
    · rintro ⟨-, -, h⟩ x hx hinfix
      rcases infix_cons_iff.mp hinfix with hpre | hinfix
      · obtain ⟨-, hpre⟩ := cons_prefix_cons.mp hpre
        obtain ⟨rfl, -⟩ := cons_prefix_cons.mp hpre
        rw [he] at hx
        cases hx
      · rcases infix_cons_iff.mp hinfix with hpre | hinfix
        · exact hd (cons_prefix_cons.mp hpre).1.symm
        · exact h x hx hinfix
    · intro h
      exact ⟨rfl, rfl, fun x hx hinfix =>
        h x hx (infix_cons_iff.mpr (.inr (infix_cons_iff.mpr (.inr hinfix))))⟩
  | case5 c d s hc ih =>
    rw [cons.injEq, ih]
    constructor
    · rintro ⟨-, h⟩ x hx hinfix
      rcases infix_cons_iff.mp hinfix with hpre | hinfix
      · exact hc (cons_prefix_cons.mp hpre).1.symm
      · exact h x hx hinfix
    · intro h
      exact ⟨rfl, fun x hx hinfix => h x hx (infix_cons_iff.mpr (.inr hinfix))⟩

/-- No rule of the file format touches the password. -/
structure KeptByReader (password : Text) : Prop where
  /-- every `#` stands between quotes -/
  comment : ∀ before after, password = before ++ '#' :: after → before.foldl nextQuote none ≠ none
  start : ∀ c ∈ password.head?, isBlank c = false
  finish : ∀ c ∈ password.getLast?, isBlank c = false
  quotes : ∀ q middle, isQuote q = true → password ≠ q :: (middle ++ [q])
  escapes : ∀ d, (escapedChar d).isSome → ¬ ['\\', d] <:+: password

variable {password : Text}

theorem keptByReader_of_free
    (hfree : ∀ c ∈ password, c ≠ '#' ∧ c ≠ '\\' ∧ isQuote c = false ∧ isBlank c = false) :
    KeptByReader isBlank password where
  comment before after h := absurd rfl (hfree '#' (h ▸ by simp)).1
  start c hc := (hfree c (mem_of_mem_head? hc)).2.2.2
  finish c hc := (hfree c (mem_of_getLast? hc)).2.2.2
  quotes q middle hq h := by
    have hfalse := (hfree q (h ▸ mem_cons_self)).2.2.1
    rw [hq] at hfalse
    cases hfalse
  escapes d _ h := absurd rfl (hfree '\\' (h.subset mem_cons_self)).2.1

theorem optionText_eq_iff (password : Text) :
    optionText isBlank (uncomment none password) = password ↔ KeptByReader isBlank password := by
  have hstrip := shrinks_stripQuotes.comp (shrinks_trimBlanks isBlank)
  have hoption : Shrinks (optionText isBlank) := shrinks_decodeEscapes.comp hstrip
  have hparts : optionText isBlank password = password ↔
      (trimBlanks isBlank password = password ∧ stripQuotes password = password) ∧
        decodeEscapes password = password := by
    rw [← shrinks_stripQuotes.comp_eq_iff (shrinks_trimBlanks isBlank) password]
    exact shrinks_decodeEscapes.comp_eq_iff hstrip password
  rw [hoption.comp_eq_iff (shrinks_uncomment none), hparts, uncomment_eq_iff, trimBlanks_eq_iff,
    stripQuotes_eq_iff, decodeEscapes_eq_iff]
  constructor
  · rintro ⟨hcomment, ⟨⟨hstart, hfinish⟩, hquotes⟩, hescapes⟩
    exact ⟨hcomment, hstart, hfinish, hquotes, hescapes⟩
  · rintro ⟨hcomment, hstart, hfinish, hquotes, hescapes⟩
    exact ⟨hcomment, ⟨⟨hstart, hfinish⟩, hquotes⟩, hescapes⟩

theorem uncomment_append {quote : Option Char} {before : Text} (h : '#' ∉ before) (s : Text) :
    uncomment quote (before ++ s) = before ++ uncomment (before.foldl nextQuote quote) s := by
  induction before generalizing quote with
  | nil => rfl
  | cons c before ih =>
    obtain ⟨hc, hbefore⟩ := not_or.mp (mt mem_cons.mpr h)
    rw [cons_append, uncomment, if_neg fun hcut => hc hcut.2.symm, ih hbefore]
    rfl

theorem optionValue_written (h : OneLine password) :
    optionValue isBlank "client" "password" none
        (lines ("[client]\npassword=" ++ password ++ "\n")) =
      some (optionText isBlank (uncomment none password)) := by
  have hsplit : "[client]\npassword=".toList ++ password ++ "\n".toList =
      "[client]".toList ++ Eol.lf.text ++ ("password=".toList ++ password ++ Eol.lf.text ++ []) := by
    simp [Eol.text]
  have hbreak : '\n' ∉ "password=" ++ password := by
    simpa using h.1
  have hreturn : ("password=" ++ password).getLast? ≠ some '\r' := by
    intro hlast
    have hmem := mem_of_getLast? hlast
    rcases mem_append.mp hmem with hmem | hmem
    · simp at hmem
    · exact h.2.1 hmem
  have hlines : lines ("[client]\npassword=" ++ password ++ "\n") =
      ["[client]".toList, "password=".toList ++ password] := by
    rw [hsplit, lines_line (by decide) (by decide), lines_line hbreak hreturn]
    rfl
  have hgroup : uncomment none "[client]" = "[client]" := by decide
  have hline : uncomment none ("password=" ++ password) =
      "password=" ++ uncomment none password :=
    uncomment_append (by decide) password
  have hkey : ∀ value : Text, splitFirst ['='] ("password=" ++ value) =
      some ("password".toList, value) := by
    intro value
    simp [splitFirst]
  have hopen : "[client]".toList.head? = some '[' := by decide
  have hnamed : "[client]".toList.tail.takeWhile (· != ']') = "client".toList := by decide
  have hother : ¬ ("password=" ++ uncomment none password).head? = some '[' := by simp
  rw [hlines, optionValue, hgroup, if_pos hopen, hnamed, optionValue, hline, if_neg hother]
  simp only [hkey, and_self, if_true]
  rfl

theorem optionFile_written (tempPath content : Text) (isLocal : Bool) (binary : Text)
    (environment : List (Text × Text)) (args : List Text) :
    optionFile ⟨environment, binary :: (mysqlDefaultsOption isLocal ++ tempPath) :: args,
      (withTempfile tempPath .start).write tempPath content⟩ = some content := by
  cases isLocal with
  | true => simp [optionFile, mysqlDefaultsOption, Machine.write]
  | false => simp [optionFile, mysqlDefaultsOption, Machine.write]

end Reader

def mysqlConnectionArgs (dbHost : Text) (dbPort : UInt16) (dbUser database : Text) :
    List (Quoting × Text) :=
  [(.posixWord, "-h"), (.escape, dbHost), (.posixWord, "-P"),
    (.posixWord, portText dbPort), (.posixWord, "-u"), (.escape, dbUser), (.escape, database)]

theorem isPlain_of_isDigit {c : Char} (h : c.isDigit = true) : isPlain c = true := by
  simp [isPlain, Char.isAlphanum, h]

theorem posixWord_portText (port : UInt16) : posixWord (portText port) = portText port := by
  have hne : portText port ≠ [] := Nat.toDigits_ne_nil
  have hplain : (portText port).all isPlain = true :=
    all_eq_true.mpr fun c hc => isPlain_of_isDigit (isDigit_portText port c hc)
  simp [posixWord, hne, hplain]

theorem spaced_option {w : Text} (h : posixWord w = w) (ws : List (Quoting × Text)) :
    spaced ((.posixWord, w) :: ws) = ' ' :: (w ++ spaced ws) := by
  rw [spaced, flatMap_cons, Quoting.apply, h]
  rfl

theorem spaced_argument (w : Text) (ws : List (Quoting × Text)) :
    spaced ((.escape, w) :: ws) = ' ' :: (shellEscape w ++ spaced ws) :=
  rfl

theorem spaced_connection (dbHost : Text) (dbPort : UInt16) (dbUser database : Text)
    (args : List (Quoting × Text)) :
    spaced (mysqlConnectionArgs dbHost dbPort dbUser database ++ args) =
      " -h " ++ (shellEscape dbHost ++ (" -P " ++ (portText dbPort ++
        (" -u " ++ (shellEscape dbUser ++ (" " ++ (shellEscape database ++
          spaced args))))))) := by
  have hhost : posixWord "-h" = "-h" := by decide
  have hport : posixWord "-P" = "-P" := by decide
  have huser : posixWord "-u" = "-u" := by decide
  simp only [mysqlConnectionArgs, cons_append, nil_append, spaced_option hhost,
    spaced_option hport, spaced_option huser, spaced_option (posixWord_portText dbPort),
    spaced_argument]
  rfl

def serverArgs (isLocal : Bool) : List (Quoting × Text) :=
  (.posixWord, "--binary-mode") ::
    if isLocal then [] else [(.posixWord, "--local-infile=0")]

theorem spaced_server (isLocal : Bool) (args : List (Quoting × Text)) :
    spaced (serverArgs isLocal ++ args) = " --binary-mode".toList ++
      ((if isLocal then [] else " --local-infile=0".toList) ++ spaced args) := by
  have hfixed : spaced (serverArgs isLocal) = " --binary-mode".toList ++
      if isLocal then [] else " --local-infile=0".toList := by
    cases isLocal <;> decide +kernel
  rw [spaced_append, hfixed, append_assoc]

def queryArgs (query : Text) (format : Option Text) : List (Quoting × Text) :=
  (.posixWord, "-e".toList) :: (.escape, query) ::
    if format = some "csv".toList then [(.posixWord, "-B".toList)] else []

theorem spaced_query (query : Text) (format : Option Text) :
    spaced (queryArgs query format) = " -e '".toList ++ (quoteContent query ++ ("'".toList ++
      if format = some "csv".toList then " -B".toList else [])) := by
  have hexecute : posixWord "-e".toList = "-e".toList := by decide
  have hbatch : posixWord "-B".toList = "-B".toList := by decide
  rw [queryArgs, spaced_option hexecute, spaced_escape]
  split
  · rw [spaced_option hbatch, append_assoc, append_assoc]
    rfl
  · rw [append_assoc, append_assoc]
    rfl

section
variable (dbHost : Text) (dbPort : UInt16) (dbUser database : Text) (password : Option Text)
include dbHost dbPort dbUser database password

theorem buildQueryCommand_mySql (query : Text) (format : Option Text) :
    buildQueryCommand .mySql dbHost dbPort dbUser password database query format =
      writeMysqlClient (isLocalDbHost .mySql dbHost) password "mysql".toList ++
        spaced (mysqlConnectionArgs dbHost dbPort dbUser database ++
          (serverArgs (isLocalDbHost .mySql dbHost) ++ queryArgs query format)) ++ [] := by
  rw [spaced_connection, spaced_server, spaced_query]
  simp only [buildQueryCommand, append_assoc, append_nil]

theorem buildDumpCommand_mySql (tables : Option (List Text)) (compress : Option Text)
    (outputFile : Text) :
    buildDumpCommand .mySql dbHost dbPort dbUser password database tables compress outputFile =
      writeMysqlClient (isLocalDbHost .mySql dbHost) password "mysqldump" ++
        spaced (mysqlConnectionArgs dbHost dbPort dbUser database ++
          (tables.getD []).map fun table => (.escape, table)) ++
        writeCompressionSuffix compress outputFile := by
  have htables : ∀ names : List Text, spaced (names.map fun table => (.escape, table)) =
      names.flatMap fun table => " ".toList ++ shellEscape table := by
    intro names
    rw [spaced, flatMap_map]
    rfl
  rw [spaced_connection, htables]
  simp only [buildDumpCommand, append_assoc]

theorem buildRestoreCommand_mySql (inputFile : Text) :
    buildRestoreCommand .mySql dbHost dbPort dbUser password database inputFile =
      writeMysqlClient (isLocalDbHost .mySql dbHost) password "mysql" ++
        spaced (mysqlConnectionArgs dbHost dbPort dbUser database ++
          (serverArgs (isLocalDbHost .mySql dbHost) ++ [])) ++
        (" < ".toList ++ shellEscape inputFile) := by
  rw [spaced_connection, spaced_server]
  simp only [buildRestoreCommand, append_assoc, spaced, flatMap_nil, nil_append]

end

theorem clientPassword_mysqlClient (isBlank : Char → Bool) (tempPath : Text)
    (hpassword : OneLine password) (isLocal : Bool) {binary : Text}
    (hbinary : binary = "mysql" ∨ binary = "mysqldump")
    (args : List (Quoting × Text)) {after : Text} (hafter : EndsCommand after) :
    (run tempPath (writeMysqlClient isLocal (some password) binary ++ spaced args ++ after)).bind
        (clientPassword isBlank) =
      some (optionText isBlank (uncomment none password)) := by
  rw [run_mysqlClient hbinary tempPath password isLocal args hafter, Option.bind_some,
    clientPassword, optionFile_written, Option.bind_some, optionValue_written isBlank hpassword]

/-- Whatever the reader takes for a blank: the client of each of the three commands reads the
caller's password exactly when no rule of the option-file format touches it. -/
theorem mysql_password_read_iff (isBlank : Char → Bool) (tempPath : Text)
    (dbHost dbUser : Option Text) (dbPort : UInt16) (database password : Text)
    (tables : Option (List Text)) (query : Text) (format compress : Option Text)
    (outputFile inputFile : Text)
    (haccepted : validateConnection .mySql dbHost dbUser database (some password) tables = .ok ()) :
    ∀ line ∈
      [buildQueryCommand .mySql (dbHost.getD defaultHost) dbPort
          (dbUser.getD DatabaseType.mySql.defaultUser) (some password) database query format,
        buildDumpCommand .mySql (dbHost.getD defaultHost) dbPort
          (dbUser.getD DatabaseType.mySql.defaultUser) (some password) database tables compress
          outputFile,
        buildRestoreCommand .mySql (dbHost.getD defaultHost) dbPort
          (dbUser.getD DatabaseType.mySql.defaultUser) (some password) database inputFile],
      ((run tempPath line).bind (clientPassword isBlank) = some password ↔
        KeptByReader isBlank password) := by
  have hpassword := (validateConnection_oneLine haccepted).2.2.2 password rfl
  have hread : ∀ line, (run tempPath line).bind (clientPassword isBlank) =
      some (optionText isBlank (uncomment none password)) →
      ((run tempPath line).bind (clientPassword isBlank) = some password ↔
        KeptByReader isBlank password) := by
    intro line hline
    rw [hline, Option.some.injEq, optionText_eq_iff]
  simp only [forall_mem_cons, not_mem_nil, false_imp_iff, implies_true, and_true]
  refine ⟨hread _ ?_, hread _ ?_, hread _ ?_⟩
  · rw [buildQueryCommand_mySql]
    exact clientPassword_mysqlClient isBlank tempPath hpassword _ (.inl rfl) _ endsCommand_nil
  · rw [buildDumpCommand_mySql]
    exact clientPassword_mysqlClient isBlank tempPath hpassword _ (.inr rfl) _
      (endsCommand_compression compress outputFile)
  · rw [buildRestoreCommand_mySql]
    exact clientPassword_mysqlClient isBlank tempPath hpassword _ (.inl rfl) _
      (endsCommand_input inputFile)

theorem mysql_password_read_remote :
    validateConnection .mySql (some "db.internal".toList) none "shop".toList (some "s3cret".toList)
        none = .ok () ∧
    (run "/tmp/tmp.Zq3".toList (buildQueryCommand .mySql "db.internal".toList 3306 "root".toList
      (some "s3cret".toList) "shop".toList "SELECT 1".toList none)).bind
        (clientPassword fun c => c == ' ' || c == '\t') = some "s3cret".toList := by
  have haccepted : validateConnection .mySql (some "db.internal".toList) none "shop".toList
      (some "s3cret".toList) none = .ok () := by decide +kernel
  refine ⟨haccepted, (mysql_password_read_iff (fun c => c == ' ' || c == '\t') "/tmp/tmp.Zq3".toList
    _ _ 3306 _ _ none "SELECT 1".toList none none [] [] haccepted _ mem_cons_self).mpr ?_⟩
  apply keptByReader_of_free
  simp [isQuote]

/-- Of `pa#ss` the client reads `pa`. -/
theorem mysql_password_cut :
    validateConnection .mySql none none "shop".toList (some "pa#ss".toList) none = .ok () ∧
    (run "/tmp/tmp.Zq3".toList (buildQueryCommand .mySql defaultHost 3306 "root".toList
      (some "pa#ss".toList) "shop".toList "SELECT 1".toList none)).bind
        (clientPassword fun c => c == ' ' || c == '\t') = some "pa".toList := by
  decide +kernel

end BridgeMcp.Database
