import BridgeMcp.Lib.Utf8
import BridgeMcp.Shell.Hosts

/-!
The connection arguments of the database tools and their validation
(`domain/use_cases/database.rs`).
-/
namespace BridgeMcp.Database
open CheckLib TextLib BridgeMcp.Shell

inductive DatabaseType where
  | mySql
  | postgreSql
  deriving DecidableEq

def DatabaseType.defaultUser : DatabaseType → Text
  | .mySql => "root"
  | .postgreSql => "postgres"

def defaultHost : Text := "localhost"

def pgSocketDirs : List Text := ["/var/run/postgresql", "/run/postgresql"]

def dbHostMaxLen : ℕ := 253

def dbPasswordMaxLen : ℕ := 1024

def isSocketDir (dbType : DatabaseType) (host : Text) : Bool :=
  dbType == .postgreSql && pgSocketDirs.contains host

/-- The server whose credentials stored on the SSH host may be used. -/
def isLocalDbHost (dbType : DatabaseType) (host : Text) : Bool :=
  isLoopbackHost host || isSocketDir dbType host

def refuseLineBreak (arg value : Text) : Except CommandDenied Unit :=
  if '\n' ∈ value ∨ '\r' ∈ value ∨ '\x00' ∈ value then
    .error
      ⟨'\'' :: arg ++
        "' must not contain a newline, carriage return or NUL: it is written to a line-oriented credentials file"⟩
  else .ok ()

def isHostChar (c : Char) : Bool :=
  c.isAlphanum || c == '.' || c == '-' || c == '_' || c == ':' || c == '%'

def validateDbHost (dbType : DatabaseType) (host : Text) (dbPassword : Option Text) :
    Except CommandDenied Unit :=
  let nameLike := decide (utf8Len host ≤ dbHostMaxLen) && host.all isHostChar
  if host.isEmpty then
    .error ⟨"'db_host' must not be empty: omit it for the local server"⟩
  else if !isSocketDir dbType host && !nameLike then
    let alternative :=
      match dbType with
      | .postgreSql => ", or /var/run/postgresql or /run/postgresql"
      | .mySql => []
    .error
      ⟨"'db_host' must be one host name or IP address: ASCII letters, digits and . - _ : % only, at most 253 bytes" ++
        alternative⟩
  else if !isLocalDbHost dbType host && dbPassword.all List.isEmpty then
    .error
      ⟨"'db_host' names another server: give 'db_password' (the host's stored database credentials are only used for a local server)"⟩
  else .ok ()

def validatePostgresDatabase (database : Text) : Except CommandDenied Unit :=
  let start := lower (database.dropWhile isWhitespace)
  if '=' ∈ database ∨ "postgres://" <+: start ∨ "postgresql://" <+: start then
    .error
      ⟨"'database' must be a database name: a value with '=' or starting with postgres:// or postgresql:// is read as a connection string that can redirect the connection"⟩
  else .ok ()

def refuseEmpty (arg value : Text) : Except CommandDenied Unit :=
  if value.isEmpty then
    .error ⟨'\'' :: arg ++ "' must not be empty when 'db_host' names another server"⟩
  else .ok ()

def checkPassword (password : Text) : Except CommandDenied Unit := do
  refuseLineBreak "db_password" password
  if dbPasswordMaxLen < utf8Len password then
    .error ⟨"'db_password' must be at most 1024 bytes long"⟩
  else .ok ()

def validateConnection (dbType : DatabaseType) (dbHost dbUser : Option Text) (database : Text)
    (dbPassword : Option Text) (tables : Option (List Text)) : Except CommandDenied Unit := do
  [("db_host".toList, dbHost), ("db_user".toList, dbUser),
    ("database".toList, some database)].forM fun (arg, value) =>
      ifGiven value fun v => do
        refuseOptionLike arg v
        refuseLineBreak arg v
  ifGiven dbPassword checkPassword
  ifGiven dbHost fun host => validateDbHost dbType host dbPassword
  match dbType with
  | .postgreSql =>
    validatePostgresDatabase database
    if dbHost.any fun host => !isLocalDbHost dbType host then
      ifGiven dbUser (refuseEmpty "db_user".toList)
      refuseEmpty "database".toList database
    else .ok ()
  | .mySql => (tables.getD []).forM (refuseOptionLike "tables".toList)

def OneLine (value : Text) : Prop := '\n' ∉ value ∧ '\r' ∉ value ∧ '\x00' ∉ value

instance (value : Text) : Decidable (OneLine value) := inferInstanceAs (Decidable (_ ∧ _ ∧ _))

theorem oneLine_of_refuseLineBreak {arg value : Text} (h : refuseLineBreak arg value = .ok ()) :
    OneLine value := by
  unfold refuseLineBreak at h
  split at h
  · cases h
  · next hfree => exact ⟨fun h => hfree (.inl h), fun h => hfree (.inr (.inl h)), fun h => hfree (.inr (.inr h))⟩

theorem validateConnection_oneLine {dbType : DatabaseType} {dbHost dbUser : Option Text}
    {database : Text} {dbPassword : Option Text} {tables : Option (List Text)}
    (h : validateConnection dbType dbHost dbUser database dbPassword tables = .ok ()) :
    (∀ host ∈ dbHost, OneLine host) ∧ (∀ user ∈ dbUser, OneLine user) ∧ OneLine database ∧
      ∀ password ∈ dbPassword, OneLine password := by
  obtain ⟨hargs, h⟩ := ok_of_bind h
  obtain ⟨hpassword, -⟩ := ok_of_bind h
  obtain ⟨hhost, hargs⟩ := ok_of_bind hargs
  obtain ⟨huser, hargs⟩ := ok_of_bind hargs
  obtain ⟨hdatabase, -⟩ := ok_of_bind hargs
  refine ⟨?_, ?_, ?_, ?_⟩
  · rintro host rfl
    exact oneLine_of_refuseLineBreak (ok_of_bind hhost).2
  · rintro user rfl
    exact oneLine_of_refuseLineBreak (ok_of_bind huser).2
  · exact oneLine_of_refuseLineBreak (ok_of_bind hdatabase).2
  · rintro password rfl
    exact oneLine_of_refuseLineBreak (ok_of_bind hpassword).1

end BridgeMcp.Database
