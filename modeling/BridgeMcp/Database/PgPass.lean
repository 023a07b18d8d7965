import BridgeMcp.Database.Builder

/-!
The password file of a PostgreSQL command: the line the shell writes, and how `libpq` reads it
back into its five fields.
-/
namespace BridgeMcp.Database
open TextLib BridgeMcp.Shell List

/-- Fields end at a colon; a backslash stands for the character after it. -/
def splitPgpass : Text → List Text
  | [] => [[]]
  | [c] => if c = ':' then [[], []] else [[c]]
  | c :: d :: s =>
    if c = '\\' then (splitPgpass s).modifyHead (d :: ·)
    else if c = ':' then [] :: splitPgpass (d :: s)
    else (splitPgpass (d :: s)).modifyHead (c :: ·)

def passwordFile (client : Invocation) : Option Text :=
  (client.environment.lookup "PGPASSFILE".toList).bind fun path => client.machine.files.lookup path

theorem splitPgpass_colon (s : Text) : splitPgpass (':' :: s) = [] :: splitPgpass s := by
  cases s with
  | nil => rfl
  | cons d s => rfl

theorem splitPgpass_char {c : Char} (hbackslash : c ≠ '\\') (hcolon : c ≠ ':') (s : Text) :
    splitPgpass (c :: s) = (splitPgpass s).modifyHead (c :: ·) := by
  cases s with
  | nil => simp [splitPgpass, hcolon]
  | cons d s => rw [splitPgpass, if_neg hbackslash, if_neg hcolon]

theorem pgpassField_cons (c : Char) (w : Text) :
    pgpassField (c :: w) =
      (if c = '\\' ∨ c = ':' then ['\\', c] else [c]) ++ pgpassField w := by
  by_cases hbackslash : c = '\\'
  · subst hbackslash
    simp [pgpassField, replaceChar]
  · by_cases hcolon : c = ':'
    · subst hcolon
      simp [pgpassField, replaceChar]
    · simp [pgpassField, hbackslash, hcolon]

theorem splitPgpass_field (w rest : Text) :
    splitPgpass (pgpassField w ++ rest) = (splitPgpass rest).modifyHead (w ++ ·) := by
  induction w with
  | nil => exact (congrFun modifyHead_id (splitPgpass rest)).symm
  | cons c w ih =>
    have hfields : ∀ fields : List Text,
        (fields.modifyHead (w ++ ·)).modifyHead (c :: ·) = fields.modifyHead (c :: w ++ ·) := by
      intro fields
      cases fields <;> rfl
    rw [pgpassField_cons]
    split
    · rw [append_assoc, cons_append, cons_append, nil_append, splitPgpass,
        if_pos rfl, ih, hfields]
    · next hplain =>
        obtain ⟨hbackslash, hcolon⟩ := not_or.mp hplain
        rw [append_assoc, singleton_append, splitPgpass_char hbackslash hcolon, ih,
          hfields]

theorem splitPgpass_field_colon (w rest : Text) :
    splitPgpass (pgpassField w ++ ':' :: rest) = w :: splitPgpass rest := by
  rw [splitPgpass_field, splitPgpass_colon]
  exact congrArg (· :: splitPgpass rest) (append_nil w)

theorem pgpassField_portText (port : UInt16) : pgpassField (portText port) = portText port := by
  rw [pgpassField, replaceChar_of_notMem _ (notMem_portText (by decide) port),
    replaceChar_of_notMem _ (notMem_portText (by decide) port)]

theorem splitPgpass_line {dbHost : Text} (hsocket : dbHost ∉ pgSocketDirs) (dbPort : UInt16)
    (database dbUser password : Text) :
    splitPgpass (pgpassLine dbHost dbPort database dbUser password) =
      [dbHost, portText dbPort, database, dbUser, password] := by
  have hhost : pgpassHost dbHost = pgpassField dbHost := by
    rw [pgpassHost, if_neg (by simpa using hsocket)]
  have hlast : splitPgpass (pgpassField password) = [password] := by
    have h := splitPgpass_field password []
    rw [append_nil] at h
    rw [h]
    exact congrArg (fun w => [w]) (append_nil password)
  have hport := splitPgpass_field_colon (portText dbPort)
  rw [pgpassField_portText] at hport
  rw [pgpassLine, hhost]
  simp only [append_assoc, cons_append, splitPgpass_field_colon, hport, hlast]

theorem newline_notMem_pgpassField {w : Text} (h : '\n' ∉ w) : '\n' ∉ pgpassField w := by
  induction w with
  | nil => simp [pgpassField]
  | cons c w ih =>
    obtain ⟨hc, hw⟩ := not_or.mp (mt mem_cons.mpr h)
    rw [pgpassField_cons, mem_append, not_or]
    refine ⟨?_, ih hw⟩
    split <;> simp [hc]

theorem newline_notMem_line {dbHost database dbUser password : Text} (hhost : OneLine dbHost)
    (dbPort : UInt16) (hdatabase : OneLine database) (huser : OneLine dbUser)
    (hpassword : OneLine password) :
    '\n' ∉ pgpassLine dbHost dbPort database dbUser password := by
  have hfirst : '\n' ∉ pgpassHost dbHost := by
    unfold pgpassHost
    split
    · decide
    · exact newline_notMem_pgpassField hhost.1
  simp [pgpassLine, hfirst, notMem_portText, newline_notMem_pgpassField hdatabase.1,
    newline_notMem_pgpassField huser.1, newline_notMem_pgpassField hpassword.1]

theorem passwordFile_written (tempPath dbHost : Text) (dbPort : UInt16)
    (database dbUser password : Text) :
    (run tempPath (writePgPasswordTempfile dbHost dbPort database dbUser password)).bind
        passwordFile =
      some (pgpassLine dbHost dbPort database dbUser password ++ "\n".toList) := by
  have hrun := runOn_pgPassword tempPath .start [] dbHost dbPort database dbUser password
  rw [append_nil] at hrun
  have htokens : tokens ("PGPASSFILE=$TMPF ".toList ++ []) = some (SimpleCommand.mk
      ["PGPASSFILE=".toList.map .plain ++ [.parameter tempName]] []).tokens := by
    decide +kernel
  have hparts : splitAssignments ["PGPASSFILE=".toList.map .plain ++ [.parameter tempName]] =
      ([("PGPASSFILE".toList, [.parameter tempName])], []) := by
    decide +kernel
  set m := (withTempfile tempPath .start).write tempPath
    (pgpassLine dbHost dbPort database dbUser password ++ "\n") with hm
  have hexpand : expand tempPath m [.parameter tempName] = some (tempPath, m) := by
    have hlookup : m.bindings.lookup tempName = some tempPath := lookup_cons_self
    rw [expand, expand, hlookup, Option.map_some, Option.getD_some, append_nil]
  rw [run, hrun, runOn_command htokens, invoke, hparts]
  simp only [map_cons, map_nil, expandAll, hexpand, Option.bind_some, Option.map_some,
    passwordFile, zip_cons_cons, zip_nil_left, lookup_cons_self]
  rw [hm]
  exact lookup_cons_self

/-- For every accepted connection outside the socket directories the file holds one line, and
`libpq` reads the five values back from it. -/
theorem pgpass_line_round_trips (tempPath : Text) (dbHost dbUser : Option Text) (dbPort : UInt16)
    (database password : Text) (tables : Option (List Text))
    (haccepted : validateConnection .postgreSql dbHost dbUser database (some password) tables =
      .ok ())
    (hsocket : dbHost.getD defaultHost ∉ pgSocketDirs) :
    ∃ line,
      (run tempPath (writePgPasswordTempfile (dbHost.getD defaultHost) dbPort database
        (dbUser.getD DatabaseType.postgreSql.defaultUser) password)).bind passwordFile =
          some (line ++ "\n".toList) ∧
      '\n' ∉ line ∧
      splitPgpass line = [dbHost.getD defaultHost, portText dbPort, database,
        dbUser.getD DatabaseType.postgreSql.defaultUser, password] := by
  obtain ⟨hhost, huser, hdatabase, hpassword⟩ := validateConnection_oneLine haccepted
  have hgiven : ∀ (value : Option Text) (default : Text), OneLine default →
      (∀ v ∈ value, OneLine v) → OneLine (value.getD default) := by
    intro value default hdefault hvalue
    cases value with
    | none => exact hdefault
    | some v => exact hvalue v rfl
  refine ⟨_, passwordFile_written tempPath _ dbPort database _ password, ?_,
    splitPgpass_line hsocket dbPort database _ password⟩
  exact newline_notMem_line (hgiven _ _ (by decide) hhost) dbPort hdatabase
    (hgiven _ _ (by decide) huser) (hpassword password rfl)

theorem pgpass_line_round_trips_specials :
    ∃ line,
      (run "/tmp/tmp.Zq3".toList (writePgPasswordTempfile "::1".toList 5432 "o'shop".toList
        "a\\b".toList "p:w\\:'".toList)).bind passwordFile = some (line ++ "\n".toList) ∧
      '\n' ∉ line ∧
      splitPgpass line = ["::1".toList, "5432".toList, "o'shop".toList, "a\\b".toList,
        "p:w\\:'".toList] :=
  pgpass_line_round_trips "/tmp/tmp.Zq3".toList (some "::1".toList) (some "a\\b".toList) 5432
    "o'shop".toList "p:w\\:'".toList none (by decide +kernel) (by decide)

end BridgeMcp.Database
