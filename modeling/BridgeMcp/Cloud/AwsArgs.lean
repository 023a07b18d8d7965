import BridgeMcp.Lib.Utf8Bytes
import BridgeMcp.Shell.Hosts
import BridgeMcp.Shell.Script

/-!
The AWS CLI tool (`domain/use_cases/cloud.rs`): the words of `args`, their validation by a
three-state automaton, and the command line built from them.
-/
namespace BridgeMcp.Cloud
open TextLib BridgeMcp.Shell

def awsAllowedOptions : List Text :=
  ["--alarm-name-prefix", "--alarm-names", "--bucket", "--cluster", "--clusters",
    "--db-cluster-identifier", "--db-instance-identifier", "--db-snapshot-identifier",
    "--delimiter", "--dimensions", "--dry-run", "--end-time", "--exclude", "--filter",
    "--filters", "--function-name", "--granularity", "--group-by", "--group-ids",
    "--group-name", "--hosted-zone-id", "--human-readable", "--id", "--image-ids", "--include",
    "--instance-id", "--instance-ids", "--key", "--limit", "--load-balancer-arn",
    "--load-balancer-arns", "--log-group-name", "--log-group-name-prefix", "--log-stream-name",
    "--log-stream-name-prefix", "--max-items", "--max-keys", "--max-records", "--max-results",
    "--metric-name", "--metrics", "--name", "--names", "--namespace", "--next-token",
    "--no-dry-run", "--no-paginate", "--owners", "--page-size", "--period", "--policy-arn",
    "--prefix", "--query", "--queue-name-prefix", "--queue-url", "--recursive", "--region",
    "--repository-name", "--repository-names", "--resource-arn", "--resource-arns",
    "--resource-type-filters", "--role-name", "--service", "--services", "--snapshot-ids",
    "--stack-name", "--stack-status-filter", "--start-time", "--starting-token", "--statistics",
    "--subnet-ids", "--summarize", "--table-name", "--tag-filters", "--target-group-arn",
    "--target-group-arns", "--task", "--tasks", "--time-period", "--topic-arn", "--unit",
    "--user-name", "--version-id", "--volume-ids", "--vpc-ids"].map String.toList

def awsFlagOptions : List Text :=
  ["--dry-run", "--human-readable", "--no-dry-run", "--no-paginate", "--recursive",
    "--summarize"].map String.toList

/-- These take every word up to the next option. -/
def awsListOptions : List Text :=
  ["--alarm-names", "--clusters", "--dimensions", "--filters", "--group-by", "--group-ids",
    "--image-ids", "--instance-ids", "--load-balancer-arns", "--metrics", "--names", "--owners",
    "--repository-names", "--resource-arns", "--resource-type-filters", "--services",
    "--snapshot-ids", "--stack-status-filter", "--statistics", "--subnet-ids", "--tag-filters",
    "--target-group-arns", "--tasks", "--volume-ids", "--vpc-ids"].map String.toList

def awsRefusedGlobalOptions : List Text :=
  ["--ca-bundle", "--cli-auto-prompt", "--cli-binary-format", "--cli-connect-timeout",
    "--cli-input-json", "--cli-input-yaml", "--cli-read-timeout", "--color", "--debug",
    "--endpoint-url", "--generate-cli-skeleton", "--no-cli-auto-prompt", "--no-cli-pager",
    "--no-sign-request", "--no-verify-ssl", "--output", "--profile", "--v2-debug",
    "--version"].map String.toList

def argsDenied (why : Text) : CommandDenied := ⟨"'args' " ++ why⟩

structure ArgState where
  words : List Text
  word : Text
  inWord : Bool
  quote : Option Char
  deriving DecidableEq

def ArgState.start : ArgState := ⟨[], [], false, none⟩

def ArgState.step (st : ArgState) (c : Char) : ArgState :=
  match st.quote with
  | some q => if c = q then { st with quote := none } else { st with word := st.word ++ [c] }
  | none =>
    if c = '\'' ∨ c = '"' then { st with quote := some c, inWord := true }
    else if isWhitespace c then
      if st.inWord then { st with words := st.words ++ [st.word], word := [], inWord := false }
      else st
    else { st with word := st.word ++ [c], inWord := true }

def splitAwsArgs (args : Text) : List Text × Bool :=
  let st := args.foldl ArgState.step ArgState.start
  (if st.inWord then st.words ++ [st.word] else st.words, st.quote.isNone)

def acceptedOptions : Text := [' '].intercalate awsAllowedOptions

def checkOptionName (name : Text) : Except CommandDenied Unit :=
  if name ∈ awsAllowedOptions then .ok ()
  else if name = "--output" then
    .error (argsDenied
      "must not contain --output: '--output json' is appended to every command")
  else if 2 < utf8Len name ∧ "--" <+: name ∧ ∃ g ∈ awsRefusedGlobalOptions, name <+: g then
    .error (argsDenied ("option '" ++ name ++
      "' is refused: it is, or abbreviates, an AWS CLI global option that chooses the endpoint, the profile, the certificate checks, the request signing, the input files or the logging. The tool always uses the AWS identity and the endpoint configured on the host. Accepted options: " ++
      acceptedOptions))
  else
    .error (argsDenied ("option '" ++ name ++
      "' is not accepted: write it in full (abbreviations are not accepted) and use one of: " ++
      acceptedOptions))

def isRegionByte (b : UInt8) : Bool :=
  (97 ≤ b && b ≤ 122) || (48 ≤ b && b ≤ 57) || b == 45

def isRegionName (value : Text) : Bool :=
  2 ≤ utf8Len value && utf8Len value ≤ 32 && (utf8Bytes value).all isRegionByte

/-- The AWS CLI would take the value from a file or a URL. -/
def loadsValue (value : Text) : Bool :=
  contains (lower value) "file://" || contains (lower value) "fileb://" ||
    "http://".toList.isPrefixOf (lower value) || "https://".toList.isPrefixOf (lower value)

def checkValue (option value : Text) : Except CommandDenied Unit :=
  if loadsValue value then
    .error (argsDenied ("value '" ++ value ++
      "' is refused: the AWS CLI would load a parameter that starts with file://, fileb://, http:// or https:// from a file or a URL. Pass the value itself"))
  else if option = "--region" ∧ isRegionName value = false then
    .error (argsDenied ("value '" ++ value ++
      "' of --region is not a region name: lower-case letters, digits and - only (for example eu-west-1)"))
  else .ok ()

def checkLocation (word : Text) : Except CommandDenied Unit :=
  if "s3://".toList.isPrefixOf word then
    if ((word.drop 5).splitOn '/').any fun segment =>
        segment == "." || segment == ".." then
      .error (argsDenied ("word '" ++ word ++
        "' is refused: an s3:// location must not have a '.' or '..' segment. Name the bucket and the key as they are"))
    else .ok ()
  else
    .error (argsDenied ("word '" ++ word ++
      "' is refused: it is neither an option nor the value of the preceding option, and a positional argument must be an s3:// location. ssh_aws_cli does not read or write files of the host: use ssh_exec for transfers to or from the host"))

/-- What the words so far leave to come. -/
inductive Expect where
  | nothing
  | one (name : Text)
  | many (name : Text)
  deriving DecidableEq

def isOption (word : Text) : Bool := word.head? == some '-'

def splitOption (word : Text) : Text × Option Text :=
  match splitFirst ['='] word with
  | some (name, value) => (name, some value)
  | none => (word, none)

def expectAfter (name : Text) : Expect :=
  if name ∈ awsFlagOptions then .nothing
  else if name ∈ awsListOptions then .many name
  else .one name

def checkWords : Expect → List Text → Except CommandDenied Unit
  | _, [] => .ok ()
  | expect, word :: rest =>
    if isOption word then do
      checkOptionName (splitOption word).1
      match (splitOption word).2 with
      | some value => do
          checkValue (splitOption word).1 value
          checkWords .nothing rest
      | none => checkWords (expectAfter (splitOption word).1) rest
    else
      match expect with
      | .one name => do
          checkValue name word
          checkWords .nothing rest
      | .many name => do
          checkValue name word
          checkWords (.many name) rest
      | .nothing => do
          checkValue [] word
          checkLocation word
          checkWords .nothing rest

def validateAwsArgs (args : Text) : Except CommandDenied Unit :=
  let (words, balanced) := splitAwsArgs args
  if !balanced then
    .error (argsDenied
      "has an unterminated quote: close every ' and \" (a quote groups words; a backslash is a plain character)")
  else checkWords .nothing words

def buildAwsCliCommand (service subcommand : Text) (args : Option Text) : Text :=
  "aws " ++ escape service .posix ++ " " ++ escape subcommand .posix ++
    (args.elim [] fun extra => (splitAwsArgs extra).1.flatMap fun word => ' ' :: escape word .posix) ++
    " --output json 2>&1"

end BridgeMcp.Cloud
