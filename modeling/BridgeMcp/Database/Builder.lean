import BridgeMcp.Database.Connection
import BridgeMcp.Shell.Script

/-!
The command lines of the database tools (`domain/use_cases/database.rs`), and what the client
they start finds: its words, its environment and the credentials file written before it.
-/
namespace BridgeMcp.Database
open TextLib BridgeMcp.Shell List

/-- `replace('\'', "'\\''")`: text between single quotes. -/
def quoteContent (s : Text) : Text := replaceChar '\'' ['\'', '\\', '\'', '\''] s

def shellEscape (s : Text) : Text := escape s .posix

def portText (port : UInt16) : Text := Nat.toDigits 10 port.toNat

def tempfilePrelude : Text :=
  "TMPF=$(mktemp) && trap 'shred -u \"$TMPF\" 2>/dev/null || rm -f \"$TMPF\"' EXIT && chmod 600 \"$TMPF\" && "

def writeMysqlPasswordTempfile (password : Text) : Text :=
  tempfilePrelude ++ "printf '[client]\\npassword=%s\\n' '" ++ quoteContent password ++
    "' > $TMPF && "

def pgpassField (s : Text) : Text := replaceChar ':' ['\\', ':'] (replaceChar '\\' ['\\', '\\'] s)

def pgpassHost (dbHost : Text) : Text :=
  if pgSocketDirs.contains dbHost then ['*'] else pgpassField dbHost

def writePgPasswordTempfile (dbHost : Text) (dbPort : UInt16) (database dbUser password : Text) :
    Text :=
  tempfilePrelude ++ "printf '%s:%s:%s:%s:%s\\n' '" ++ quoteContent (pgpassHost dbHost) ++
    "' '" ++ portText dbPort ++ "' '" ++ quoteContent (pgpassField database) ++
    "' '" ++ quoteContent (pgpassField dbUser) ++ "' '" ++
    quoteContent (pgpassField password) ++ "' > $TMPF && PGPASSFILE=$TMPF "

def pgRemoteUnset : Text :=
  "unset PGPASSWORD PGSERVICE PGSERVICEFILE PGSYSCONFDIR PGHOSTADDR && "

def pgNoPrompt : Text := "-w "

def pgRemoteSslcert : Text := "PGSSLCERT=/nonexistent "

def mysqlRemoteUnset : Text := "unset MYSQL_PWD && "

def mysqlRemoteEnv : Text := "HOME=/nonexistent MYSQL_TEST_LOGIN_FILE=/dev/null "

def writePgPrelude (isLocal : Bool) (dbHost : Text) (dbPort : UInt16) (database dbUser : Text)
    (password : Option Text) : Text :=
  (if isLocal then [] else pgRemoteUnset) ++
    (match password with
    | some pw => writePgPasswordTempfile dbHost dbPort database dbUser pw
    | none => if isLocal then [] else tempfilePrelude ++ "PGPASSFILE=$TMPF ") ++
    (if isLocal then [] else pgRemoteSslcert)

def mysqlOptionFileArg (hasPassword isLocal : Bool) : Text :=
  match hasPassword, isLocal with
  | true, true => " --defaults-extra-file=$TMPF"
  | true, false => " --defaults-file=$TMPF"
  | false, false => " --no-defaults"
  | false, true => []

/-- The start of a MySQL command: the password goes through a file. -/
def writeMysqlClient (isLocal : Bool) (password : Option Text) (binary : Text) : Text :=
  (if isLocal then [] else mysqlRemoteUnset) ++
    password.elim [] writeMysqlPasswordTempfile ++
    (if isLocal then [] else mysqlRemoteEnv) ++ binary ++
    mysqlOptionFileArg password.isSome isLocal

def writeCompressionSuffix (compress : Option Text) (outputFile : Text) : Text :=
  if compress = some "gzip".toList then " | gzip > ".toList ++ shellEscape outputFile
  else if compress = some "bzip2".toList then " | bzip2 > ".toList ++ shellEscape outputFile
  else if compress = some "xz".toList then " | xz > ".toList ++ shellEscape outputFile
  else " > ".toList ++ shellEscape outputFile

def buildQueryCommand (dbType : DatabaseType) (dbHost : Text) (dbPort : UInt16) (dbUser : Text)
    (dbPassword : Option Text) (database query : Text) (format : Option Text) : Text :=
  let isLocal := isLocalDbHost dbType dbHost
  match dbType with
  | .mySql =>
    writeMysqlClient isLocal dbPassword "mysql".toList ++
      " -h " ++ shellEscape dbHost ++ " -P " ++ portText dbPort ++
      " -u " ++ shellEscape dbUser ++ " " ++ shellEscape database ++
      " --binary-mode" ++
      (if isLocal then [] else " --local-infile=0".toList) ++
      " -e '" ++ quoteContent query ++ "'" ++
      (if format = some "csv".toList then " -B".toList else [])
  | .postgreSql =>
    writePgPrelude isLocal dbHost dbPort database dbUser dbPassword ++
      "psql " ++ pgNoPrompt ++ "-h " ++ shellEscape dbHost ++ " -p " ++
      portText dbPort ++ " -U " ++ shellEscape dbUser ++ " -d " ++
      shellEscape database ++ " -c '" ++ quoteContent query ++ "'" ++
      (if format = some "csv".toList then " --csv".toList else [])

def buildDumpCommand (dbType : DatabaseType) (dbHost : Text) (dbPort : UInt16) (dbUser : Text)
    (dbPassword : Option Text) (database : Text) (tables : Option (List Text))
    (compress : Option Text) (outputFile : Text) : Text :=
  let isLocal := isLocalDbHost dbType dbHost
  (match dbType with
    | .mySql =>
      writeMysqlClient isLocal dbPassword "mysqldump".toList ++
        " -h " ++ shellEscape dbHost ++ " -P " ++ portText dbPort ++
        " -u " ++ shellEscape dbUser ++ " " ++ shellEscape database ++
        (tables.getD []).flatMap fun table => " ".toList ++ shellEscape table
    | .postgreSql =>
      writePgPrelude isLocal dbHost dbPort database dbUser dbPassword ++
        "pg_dump " ++ pgNoPrompt ++ "-h " ++ shellEscape dbHost ++
        " -p " ++ portText dbPort ++ " -U " ++ shellEscape dbUser ++
        " " ++ shellEscape database ++
        (tables.getD []).flatMap fun table => " -t ".toList ++ shellEscape table) ++
    writeCompressionSuffix compress outputFile

def buildRestoreCommand (dbType : DatabaseType) (dbHost : Text) (dbPort : UInt16) (dbUser : Text)
    (dbPassword : Option Text) (database inputFile : Text) : Text :=
  let isLocal := isLocalDbHost dbType dbHost
  match dbType with
  | .mySql =>
    writeMysqlClient isLocal dbPassword "mysql".toList ++
      " -h " ++ shellEscape dbHost ++ " -P " ++ portText dbPort ++
      " -u " ++ shellEscape dbUser ++ " " ++ shellEscape database ++
      " --binary-mode" ++
      (if isLocal then [] else " --local-infile=0".toList) ++
      " < " ++ shellEscape inputFile
  | .postgreSql =>
    writePgPrelude isLocal dbHost dbPort database dbUser dbPassword ++
      "psql " ++ pgNoPrompt ++ "-h " ++ shellEscape dbHost ++ " -p " ++
      portText dbPort ++ " -U " ++ shellEscape dbUser ++ " -d " ++
      shellEscape database ++ " < " ++ shellEscape inputFile

def tempName : Text := "TMPF"

/-- After the prelude `$TMPF` names a new empty file. -/
def withTempfile (tempPath : Text) (m : Machine) : Machine :=
  (m.write tempPath []).assign tempName tempPath

theorem spaced_escape (w : Text) (ws : List (Quoting × Text)) :
    spaced ((.escape, w) :: ws) = " '" ++ quoteContent w ++ "'" ++ spaced ws :=
  rfl

section Prelude

variable (tempPath : Text) (m : Machine) (rest : Text)

theorem runOn_tempfilePrelude :
    runOn tempPath m (tempfilePrelude ++ rest) = runOn tempPath (withTempfile tempPath m) rest := by
  have hsplit : tempfilePrelude ++ rest = "TMPF=$(mktemp)".toList ++ " && ".toList ++
      ("trap 'shred -u \"$TMPF\" 2>/dev/null || rm -f \"$TMPF\"' EXIT".toList ++ " && ".toList ++
        ("chmod 600 \"$TMPF\"".toList ++ " && ".toList ++ rest)) := by
    have hprelude : tempfilePrelude = "TMPF=$(mktemp)".toList ++ " && ".toList ++
        "trap 'shred -u \"$TMPF\" 2>/dev/null || rm -f \"$TMPF\"' EXIT".toList ++ " && ".toList ++
        "chmod 600 \"$TMPF\"".toList ++ " && ".toList := by decide +kernel
    rw [hprelude]
    simp only [append_assoc]
  let trapText := "shred -u \"$TMPF\" 2>/dev/null || rm -f \"$TMPF\"".toList
  have hassign : tokens "TMPF=$(mktemp)".toList = some (SimpleCommand.mk
      ["TMPF=".toList.map .plain ++ [.substitution "mktemp".toList]] []).tokens :=
    rfl
  have htrap : tokens "trap 'shred -u \"$TMPF\" 2>/dev/null || rm -f \"$TMPF\"' EXIT".toList =
      some (SimpleCommand.mk
        ["trap".toList.map .plain, trapText.map .quoted, "EXIT".toList.map .plain] []).tokens := by
    decide +kernel
  have hchmod : tokens "chmod 600 \"$TMPF\"".toList = some (SimpleCommand.mk
      ["chmod".toList.map .plain, "600".toList.map .plain, [.parameter tempName]] []).tokens :=
    rfl
  have hset : execute tempPath m ⟨["TMPF=".toList.map .plain ++ [.substitution "mktemp".toList]], []⟩ =
      some (withTempfile tempPath m) := by
    simp [execute, splitAssignments, splitAssignment, assignAll, expand, withTempfile, tempName,
      isVariableChar, Char.isAlphanum]
  rw [hsplit, runOn_andIf hassign hset, runOn_andIf htrap rfl, runOn_andIf hchmod rfl]

theorem runOn_printf {format : Text} {args : List Text} {content : Text}
    (hprintf : printf format args = some content)
    (htemp : m.bindings.lookup tempName = some tempPath) :
    runOn tempPath m ("printf" ++ spaced ((format :: args).map fun w => (.escape, w)) ++
      " > $TMPF && " ++ rest) = runOn tempPath (m.write tempPath content) rest := by
  let ws : List (Quoting × Text) := (format :: args).map fun w => (.escape, w)
  let command : SimpleCommand :=
    ⟨"printf".toList.map .plain :: fragmentsOf ws, [.output ['1'] [.parameter tempName]]⟩
  have hsplit : "printf" ++ spaced ws ++ " > $TMPF && " ++ rest =
      ("printf" ++ spaced ws ++ ' ' :: "> $TMPF") ++ " && " ++ rest := by simp
  have hname : tokens "printf".toList = some [.word ("printf".toList.map .plain)] := rfl
  have htarget : tokens "> $TMPF" = some [.output ['1'], .word [.parameter tempName]] := rfl
  have htokens : tokens ("printf" ++ spaced ws ++ ' ' :: "> $TMPF") =
      some command.tokens := by
    rw [tokens_blank (tokens_spaced hname ws), htarget]
    rfl
  have hwords : expandAll tempPath m ("printf".toList.map .plain :: fragmentsOf ws) =
      some ("printf".toList :: format :: args, m) := by
    have hargs : ws.map Prod.snd = format :: args := by simp [ws, Function.comp_def]
    rw [expandAll, expand_plain, Option.bind_some, expandAll_fragmentsOf, hargs]
    rfl
  have hexecute : execute tempPath m command = some (m.write tempPath content) := by
    have hfile : expand tempPath m [.parameter tempName] = some (tempPath, m) := by
      simp [expand, htemp]
    have hparts : splitAssignments command.words = ([], command.words) := rfl
    rw [execute, hparts]
    simp only [command, hwords, Option.bind_some, utility, hfile, hprintf, Option.map_some, if_true]
  rw [hsplit, runOn_andIf htokens hexecute]

theorem runOn_mysqlPassword (password : Text) :
    runOn tempPath m (writeMysqlPasswordTempfile password ++ rest) =
      runOn tempPath ((withTempfile tempPath m).write tempPath
        ("[client]\npassword=" ++ password ++ "\n")) rest := by
  have hsplit : writeMysqlPasswordTempfile password ++ rest = tempfilePrelude ++
      ("printf".toList ++ spaced (["[client]\\npassword=%s\\n".toList, password].map fun w =>
        (.escape, w)) ++ " > $TMPF && " ++ rest) := by
    have hstart : "printf '[client]\\npassword=%s\\n' '" = "printf" ++ (" '" ++
        quoteContent "[client]\\npassword=%s\\n" ++ "'" ++ " '") :=
      rfl
    have hend : "' > $TMPF && " = "'" ++ " > $TMPF && " := rfl
    rw [writeMysqlPasswordTempfile, hstart, hend]
    simp only [map_cons, map_nil, spaced_escape, append_assoc]
    rfl
  have hprintf : printf "[client]\\npassword=%s\\n" [password] =
      some ("[client]\npassword=" ++ password ++ "\n") := by
    apply printf_once
    simp [formatOnce_arg, formatOnce_char, formatOnce_newline, formatOnce_nil]
  rw [hsplit, runOn_tempfilePrelude, runOn_printf _ _ _ hprintf rfl]

theorem isDigit_portText (port : UInt16) : ∀ c ∈ portText port, c.isDigit = true :=
  isDigit_toDigits port.toNat

theorem notMem_portText {c : Char} (hc : c.isDigit = false) (port : UInt16) :
    c ∉ portText port := by
  intro h
  rw [isDigit_portText port c h] at hc
  cases hc

def pgpassLine (dbHost : Text) (dbPort : UInt16) (database dbUser password : Text) : Text :=
  pgpassHost dbHost ++ ':' :: portText dbPort ++ ':' :: pgpassField database ++
    ':' :: pgpassField dbUser ++ ':' :: pgpassField password

theorem runOn_pgPassword (dbHost : Text) (dbPort : UInt16) (database dbUser password : Text) :
    runOn tempPath m (writePgPasswordTempfile dbHost dbPort database dbUser password ++ rest) =
      runOn tempPath ((withTempfile tempPath m).write tempPath
        (pgpassLine dbHost dbPort database dbUser password ++ "\n"))
        ("PGPASSFILE=$TMPF " ++ rest) := by
  let fields := [pgpassHost dbHost, portText dbPort, pgpassField database, pgpassField dbUser,
    pgpassField password]
  have hport : quoteContent (portText dbPort) = portText dbPort :=
    replaceChar_of_notMem _ (notMem_portText (by decide) dbPort)
  have hsplit : writePgPasswordTempfile dbHost dbPort database dbUser password ++ rest =
      tempfilePrelude ++
        ("printf".toList ++ spaced (("%s:%s:%s:%s:%s\\n".toList :: fields).map fun w =>
          (.escape, w)) ++ " > $TMPF && " ++ ("PGPASSFILE=$TMPF " ++ rest)) := by
    have hstart : "printf '%s:%s:%s:%s:%s\\n' '" = "printf" ++ (" '" ++
        quoteContent "%s:%s:%s:%s:%s\\n" ++ "'" ++ " '") :=
      rfl
    have hbetween : "' '" = "'" ++ " '" := rfl
    have hend : "' > $TMPF && PGPASSFILE=$TMPF " =
        "'" ++ " > $TMPF && " ++ "PGPASSFILE=$TMPF " := rfl
    rw [writePgPasswordTempfile, hstart, hbetween, hend]
    simp only [fields, map_cons, map_nil, spaced_escape, hport, append_assoc]
    rfl
  have hprintf : printf "%s:%s:%s:%s:%s\\n" fields =
      some (pgpassLine dbHost dbPort database dbUser password ++ "\n") := by
    apply printf_once
    simp [formatOnce_arg, formatOnce_char, formatOnce_newline, formatOnce_nil, pgpassLine, fields]
  rw [hsplit, runOn_tempfilePrelude, runOn_printf _ _ _ hprintf rfl]

end Prelude

/-- A tail that leaves the words of the command in front as they are. -/
def EndsCommand (after : Text) : Prop :=
  ∀ (tempPath : Text) (m : Machine) (a : Text) (words : List (List Fragment)),
    tokens a = some (words.map .word) →
      runOn tempPath m (a ++ after) = invoke tempPath m ⟨words, []⟩

theorem endsCommand_nil : EndsCommand [] := by
  intro tempPath m a words ha
  have hcommand : tokens a = some (SimpleCommand.mk words []).tokens := by
    simpa [SimpleCommand.tokens] using ha
  rw [append_nil, runOn_command hcommand]

theorem tokens_less : tokens ['<'] = some [.input] := rfl

theorem tokens_greater : tokens ['>'] = some [.output ['1']] := rfl

theorem tokens_redirect {operator : Char} {t : Token} (hoperator : tokens [operator] = some [t])
    (file : Text) : tokens (operator :: ' ' :: escape file .posix) =
      some [t, .word (file.map .quoted)] := by
  have hline := tokens_blank hoperator (escape file .posix)
  rw [tokens_escape] at hline
  exact hline

theorem endsCommand_redirect {operator : Char} {r : List Fragment → Redirect} {t : Token}
    (hoperator : tokens [operator] = some [t]) (hr : ∀ w, (r w).tokens = [t, .word w])
    (file : Text) : EndsCommand (' ' :: operator :: ' ' :: escape file .posix) := by
  intro tempPath m a words ha
  have hcommand : tokens (a ++ ' ' :: operator :: ' ' :: escape file .posix) =
      some (SimpleCommand.mk words [r (file.map .quoted)]).tokens := by
    rw [tokens_blank ha, tokens_redirect hoperator file]
    simp [SimpleCommand.tokens, hr]
  rw [runOn_command hcommand]
  rfl

theorem endsCommand_input (file : Text) : EndsCommand (" < " ++ shellEscape file) :=
  endsCommand_redirect (r := .input) tokens_less (fun _ => rfl) file

theorem endsCommand_output (file : Text) : EndsCommand (" > " ++ shellEscape file) :=
  endsCommand_redirect (r := .output ['1']) tokens_greater (fun _ => rfl) file

theorem endsCommand_pipe {tool : Text} {w : List Fragment} (htool : tokens tool = some [.word w])
    (file : Text) :
    EndsCommand (" | " ++ (tool ++ " > " ++ shellEscape file)) := by
  intro tempPath m a words ha
  have hcommand : tokens a = some (SimpleCommand.mk words []).tokens := by
    simpa [SimpleCommand.tokens] using ha
  have hafter : tokens (tool ++ " > " ++ shellEscape file) =
      some [.word w, .output ['1'], .word (file.map .quoted)] := by
    have hredirect := tokens_redirect tokens_greater file
    have hline := tokens_blank htool ('>' :: ' ' :: escape file .posix)
    rw [hredirect] at hline
    simpa [shellEscape] using hline
  have hparse : (tokens (tool ++ " > " ++ shellEscape file)).bind parseTokens =
      some ⟨⟨[w], [.output ['1'] (file.map .quoted)]⟩, []⟩ := by
    rw [hafter]
    rfl
  rw [← append_assoc]
  exact runOn_pipe hcommand hparse rfl

theorem endsCommand_compression (compress : Option Text) (file : Text) :
    EndsCommand (writeCompressionSuffix compress file) := by
  have hpipe : ∀ tool : Text, ∀ w : List Fragment, tokens tool = some [.word w] →
      EndsCommand (" | " ++ tool ++ " > " ++ shellEscape file) := by
    intro tool w htool
    simpa using endsCommand_pipe htool file
  unfold writeCompressionSuffix
  split_ifs
  · exact hpipe "gzip".toList ("gzip".toList.map .plain) rfl
  · exact hpipe "bzip2".toList ("bzip2".toList.map .plain) rfl
  · exact hpipe "xz".toList ("xz".toList.map .plain) rfl
  · exact endsCommand_output file

def mysqlDefaultsOption (isLocal : Bool) : Text :=
  if isLocal then "--defaults-extra-file=" else "--defaults-file="

def mysqlEnvironment (isLocal : Bool) : List (Text × Text) :=
  if isLocal then []
  else [("HOME", "/nonexistent"), ("MYSQL_TEST_LOGIN_FILE", "/dev/null")]

def mysqlClientWords (isLocal : Bool) (binary : Text) : List (List Fragment) :=
  ((mysqlEnvironment isLocal).map fun v => (v.1 ++ '=' :: v.2).map .plain) ++
    [binary.map .plain, (mysqlDefaultsOption isLocal).map .plain ++ [.parameter tempName]]

section MysqlClient

variable {binary : Text} (hbinary : binary = "mysql" ∨ binary = "mysqldump")
include hbinary

theorem tokens_mysqlClient (isLocal : Bool) :
    tokens ((if isLocal then [] else mysqlRemoteEnv) ++ binary ++ mysqlOptionFileArg true isLocal) =
      some ((mysqlClientWords isLocal binary).map .word) := by
  cases isLocal <;> rcases hbinary with rfl | rfl <;> decide +kernel

theorem invoke_mysqlClient {tempPath : Text} {m : Machine} (isLocal : Bool)
    (htemp : m.bindings.lookup tempName = some tempPath) (args : List (Quoting × Text)) :
    invoke tempPath m ⟨mysqlClientWords isLocal binary ++ fragmentsOf args, []⟩ =
      some ⟨mysqlEnvironment isLocal,
        binary :: (mysqlDefaultsOption isLocal ++ tempPath) :: args.map Prod.snd, m⟩ := by
  have hparts : ∀ rest, splitAssignments (mysqlClientWords isLocal binary ++ rest) =
      ((mysqlEnvironment isLocal).map fun v => (v.1, v.2.map .plain),
        binary.map .plain ::
          ((mysqlDefaultsOption isLocal).map .plain ++ [.parameter tempName]) :: rest) := by
    intro rest
    cases isLocal <;> rcases hbinary with rfl | rfl <;> rfl
  have hvalues : ∀ env : List (Text × Text),
      expandAll tempPath m (env.map fun v => v.2.map .plain) = some (env.map Prod.snd, m) := by
    intro env
    induction env with
    | nil => rfl
    | cons v env ih => simp [expandAll, expand_plain, ih]
  have hoption : expand tempPath m
      ((mysqlDefaultsOption isLocal).map .plain ++ [.parameter tempName]) =
        some (mysqlDefaultsOption isLocal ++ tempPath, m) := by
    rw [expand_plain_append]
    simp [expand, htemp]
  have hzip : ∀ env : List (Text × Text), (env.map Prod.fst).zip (env.map Prod.snd) = env := by
    intro env
    have h := zip_unzip env
    rwa [unzip_eq_map] at h
  rw [invoke, hparts]
  simp only [map_map, Function.comp_def, hvalues, Option.bind_some, expandAll, expand_plain,
    hoption, expandAll_fragmentsOf, Option.map_some, hzip]

/-- The client is run with its arguments and finds the password in the file. -/
theorem run_mysqlClient (tempPath password : Text) (isLocal : Bool) (args : List (Quoting × Text))
    {after : Text} (hafter : EndsCommand after) :
    run tempPath (writeMysqlClient isLocal (some password) binary ++ spaced args ++ after) =
      some ⟨mysqlEnvironment isLocal,
        binary :: (mysqlDefaultsOption isLocal ++ tempPath) :: args.map Prod.snd,
        (withTempfile tempPath .start).write tempPath
          ("[client]\npassword=" ++ password ++ "\n")⟩ := by
  let client := (if isLocal then [] else mysqlRemoteEnv) ++ binary ++ mysqlOptionFileArg true isLocal
  have hunset : tokens "unset MYSQL_PWD" =
      some (SimpleCommand.mk ["unset".toList.map .plain, "MYSQL_PWD".toList.map .plain] []).tokens :=
    rfl
  have hremote : ∀ rest, runOn tempPath .start ((if isLocal then [] else mysqlRemoteUnset) ++ rest) =
      runOn tempPath .start rest := by
    intro rest
    cases isLocal with
    | true => rfl
    | false => exact runOn_andIf hunset rfl rest
  have hsplit : writeMysqlClient isLocal (some password) binary ++ spaced args ++ after =
      (if isLocal then [] else mysqlRemoteUnset) ++
        (writeMysqlPasswordTempfile password ++ (client ++ spaced args ++ after)) := by
    simp [writeMysqlClient, client]
  have htokens := tokens_spaced (tokens_mysqlClient hbinary isLocal) args
  rw [← map_append] at htokens
  rw [run, hsplit, hremote, runOn_mysqlPassword, hafter _ _ _ _ htokens]
  exact invoke_mysqlClient hbinary isLocal rfl args

end MysqlClient

end BridgeMcp.Database
