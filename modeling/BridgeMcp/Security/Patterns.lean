import BridgeMcp.Lib.RegexLiterals
import BridgeMcp.Lib.Utf8

/-!
The built-in secret patterns of the sanitizer (`security/sanitizer.rs`): the shared value grammars,
the table of patterns in its order, the gates on a captured value, and the keyword list of the
pre-filter. `i` is the flag for case-insensitive matching.
-/
namespace BridgeMcp.Security
open TextLib RegexLib

inductive Category where
  | github | gitlab | slack | discord | openai | aws | k3s | jwt | certificates | kubeconfig
  | docker | database | ansible | azure | gcp | hashicorp | generic
  deriving DecidableEq

/-- The predicate that decides whether a gated capture is masked. -/
inductive Gate where
  | plausibleSecret
  | shape
  | plausibleAndShape
  deriving DecidableEq

structure PatternDef where
  pattern : Regex
  replacement : String
  description : String
  category : Category
  secretGroup : Option ℕ
  gate : Gate
  deriving DecidableEq

def only (s : Text) : List ClassItem := s.map fun c => .range c c

def upper : ClassItem := .range 'A' 'Z'

def lowerCase : ClassItem := .range 'a' 'z'

def asciiDigit : ClassItem := .range '0' '9'

def alnum : List ClassItem := [upper, lowerCase, asciiDigit]

def base64 : List ClassItem := alnum ++ only ['+', '/', '=']

def wordDash : List ClassItem := alnum ++ only ['_', '-']

/-- `[A-Z0-9_ ]`, the characters of a redaction marker. -/
def markerItems : List ClassItem := [upper, asciiDigit] ++ only ['_', ' ']

/-- Any character but a newline. -/
def dot : Regex := notIn false (only ['\n'])

def anyChar : Regex := notIn false []

section
variable (i : Bool)

def blanks : Regex := star (oneOf i [' ', '\t'])

def gap : Regex := plus (oneOf i [' ', '\t'])

def sep : Regex := opt (oneOf i ['_', '-'])

def assign : Regex := seq [blanks i, oneOf i ['=', ':'], blanks i]

/-- The content after an opening bracket that is not shaped like a marker; case-sensitive. -/
def notMarker (outside : Text) : Regex :=
  orElse [notIn false (only outside ++ markerItems)]
    (seq [plus (inClass false markerItems), notIn false (only outside ++ markerItems)])

def doubleQuotedValue : Regex :=
  seq [chr i '"',
    opt (seq [
      orElse [notIn i (only ['"', '\\', '\n', '[']), seq [chr i '\\', dot]]
        (seq [chr i '[', notMarker ['"', '\\', '\n', ']']]),
      star (orElse [notIn i (only ['"', '\\', '\n'])] (seq [chr i '\\', dot]))]),
    chr i '"']

def singleQuotedValue : Regex :=
  seq [chr i '\'',
    opt (seq [
      orElse [notIn i (only ['\'', '\n', '['])]
        (seq [chr i '[', notMarker ['\'', '\n', ']']]),
      star (notIn i (only ['\'', '\n']))]),
    chr i '\'']

def quotedValue : Regex := orElse [doubleQuotedValue i] (singleQuotedValue i)

def braces : Text := ['\x7b', '\x7d']

def scalarValue : Regex :=
  .group 2 (orElse [
    quotedValue i,
    seq [chr i '\x7b', plus (notIn i (only (braces ++ ['"', '\'', '\n', ',', ':']))), chr i '\x7d'],
    seq [chr i '[', notMarker ['[', ']', '"', '\'', '\n', ',', ':'],
      plus (notIn i (only ['[', ']', '"', '\'', '\n', ',', ':'])), chr i ']'],
    seq [chr i '<', plus (notIn i (only ['<', '>', '"', '\'', '\n', ',', ':'] ++ [.space])),
      chr i '>']]
    (seq [opt (oneOf i ['"', '\'']),
      notIn i (.space :: only (['"', '\''] ++ braces ++ ['[', ']', ',', ';', '<'])),
      opt (seq [star (notIn i (.space :: only (['"'] ++ braces))),
        notIn i (.space :: only (['"', '\''] ++ braces ++ ['[', ']', ',', ';']))])]))

end

/-- The weak keyword alternation, case-insensitive wherever it stands. -/
def weakKeyWords : Regex :=
  orElse [lit true "secret", lit true "token",
    seq [lit true "api", sep true, lit true "key"],
    lit true "apikey",
    seq [lit true "access", sep true, lit true "key"],
    seq [lit true "auth", sep true, lit true "token"],
    seq [lit true "access", sep true, lit true "token"],
    seq [lit true "refresh", sep true, lit true "token"],
    seq [lit true "session", sep true, lit true "token"],
    seq [lit true "secret", sep true, lit true "access", sep true, lit true "key"],
    seq [lit true "client", sep true, lit true "secret"],
    seq [lit true "private", sep true, lit true "key"]]
    (seq [lit true "credential", opt (chr true 's')])

/-- A pattern that replaces on every match. -/
def always (pattern : Regex) (replacement description : String) (category : Category) :
    PatternDef :=
  ⟨pattern, replacement, description, category, none, .plausibleSecret⟩

/-- A pattern that replaces when the gate accepts group 2. -/
def gated (gate : Gate) (pattern : Regex) (replacement description : String)
    (category : Category) : PatternDef :=
  ⟨pattern, replacement, description, category, some 2, gate⟩

/-- A case-insensitive key as group 1, up to its value, and a scalar as group 2. -/
def keyed (key : Regex) : Regex := seq [.group 1 (seq [key, assign true]), scalarValue true]

/-- The replacement of most keyed patterns: the key and a marker. -/
def keyMarker : String := "$\x7b1\x7d[REDACTED]"

def keyQuotedMarker : String := "$\x7b1\x7d\"[REDACTED]\""

def tokenAfter (start : String) (rest : Regex) : Regex := .cat (lit false start) rest

def pemBlock (opening closing : Regex) : Regex :=
  seq [lit false "-----BEGIN", gap false, opening, lit false "-----", lazyStar anyChar,
    lit false "-----END", gap false, closing, lit false "-----"]

def privateKey : Regex := seq [lit false "PRIVATE", gap false, lit false "KEY"]

def privateKeyOf (kind : String) : Regex := seq [lit false kind, gap false, privateKey]

/-- The label of a private key that may say it is an RSA one. -/
def rsaPrivateKey (group : ℕ) : Regex :=
  seq [opt (.group group (seq [lit false "RSA", gap false])), privateKey]

def quotedKey (key : Regex) : Regex :=
  seq [.group 1 (seq [oneOf false ['"', '\''], key, oneOf false ['"', '\''], assign false]),
    scalarValue false]

def passwordWords : Regex := orElse [lit true "password", lit true "passwd"] (lit true "pwd")

/-- `pass(?:word)?`. -/
def passOrPassword : Regex := seq [lit true "pass", opt (lit true "word")]

def signatureDefs : List PatternDef := [
  always (tokenAfter "ghp_" (exactly 36 (inClass false alnum)))
    "[GITHUB_PAT_REDACTED]" "GitHub Personal Access Token" .github,
  always (tokenAfter "gho_" (exactly 36 (inClass false alnum)))
    "[GITHUB_OAUTH_TOKEN_REDACTED]" "GitHub OAuth Token" .github,
  always (tokenAfter "ghu_" (exactly 36 (inClass false alnum)))
    "[GITHUB_USER_TOKEN_REDACTED]" "GitHub User-to-Server Token" .github,
  always (tokenAfter "ghs_" (exactly 36 (inClass false alnum)))
    "[GITHUB_SERVER_TOKEN_REDACTED]" "GitHub Server-to-Server Token" .github,
  always (tokenAfter "ghr_" (exactly 36 (inClass false alnum)))
    "[GITHUB_REFRESH_TOKEN_REDACTED]" "GitHub Refresh Token" .github,
  always (tokenAfter "github_pat_" (seq [exactly 22 (inClass false alnum), chr false '_',
      exactly 59 (inClass false alnum)]))
    "[GITHUB_FINE_GRAINED_PAT_REDACTED]" "GitHub Fine-grained PAT" .github,
  always (tokenAfter "glpat-" (atLeast 20 (inClass false (alnum ++ only ['-']))))
    "[GITLAB_PAT_REDACTED]" "GitLab Personal Access Token" .gitlab,
  always (tokenAfter "xox" (seq [oneOf false ['b', 'a', 'p', 'r', 's'], chr false '-',
      atLeast 10 (inClass false (alnum ++ only ['-']))]))
    "[SLACK_TOKEN_REDACTED]" "Slack token" .slack,
  always (seq [lit false "https://", lit false "hooks.slack.com/services/T",
      plus (inClass false [upper, asciiDigit]), lit false "/B",
      plus (inClass false [upper, asciiDigit]), chr false '/', plus (inClass false alnum)])
    "[SLACK_WEBHOOK_REDACTED]" "Slack webhook URL" .slack,
  always (seq [lit false "https://", lit false "discord.com/api/webhooks/",
      plus (inClass false [.digit]), chr false '/', plus (inClass false wordDash)])
    "[DISCORD_WEBHOOK_REDACTED]" "Discord webhook URL" .discord,
  always (tokenAfter "sk-" (atLeast 20 (inClass false alnum)))
    "[OPENAI_API_KEY_REDACTED]" "OpenAI API Key" .openai,
  always (tokenAfter "AKIA" (exactly 16 (inClass false [asciiDigit, upper])))
    "[AWS_ACCESS_KEY_REDACTED]" "AWS Access Key ID" .aws,
  always (tokenAfter "K10" (atLeast 48 (inClass false alnum)))
    "[K3S_TOKEN_REDACTED]" "K3s server token" .k3s,
  always (seq [chr false 'K', atLeast 10 (inClass false [asciiDigit, .range 'a' 'f']),
      lit false "::", plus (inClass false [lowerCase]), chr false ':', plus (inClass false alnum)])
    "[K3S_NODE_TOKEN_REDACTED]" "K3s node token" .k3s,
  always (tokenAfter "eyJ" (seq [atLeast 10 (inClass false wordDash), chr false '.',
      atLeast 10 (inClass false wordDash), chr false '.', atLeast 10 (inClass false wordDash)]))
    "[JWT_TOKEN_REDACTED]" "Generic JWT token" .jwt,
  always (tokenAfter "sk-ant-api" (seq [exactly 2 (inClass false [.digit]), chr false '-',
      atLeast 80 (inClass false wordDash)]))
    "[ANTHROPIC_API_KEY_REDACTED]" "Anthropic API Key (sk-ant- shape)" .openai,
  always (tokenAfter "sk_live_" (atLeast 24 (inClass false alnum)))
    "[STRIPE_SECRET_KEY_REDACTED]" "Stripe Secret Key" .generic,
  always (tokenAfter "pk_live_" (atLeast 24 (inClass false alnum)))
    "[STRIPE_PUBLISHABLE_KEY_REDACTED]" "Stripe Publishable Key" .generic,
  always (tokenAfter "rk_live_" (atLeast 24 (inClass false alnum)))
    "[STRIPE_RESTRICTED_KEY_REDACTED]" "Stripe Restricted Key" .generic,
  always (tokenAfter "npm_" (atLeast 36 (inClass false alnum)))
    "[NPM_TOKEN_REDACTED]" "npm Access Token" .generic,
  always (tokenAfter "pypi-" (atLeast 16 (inClass false wordDash)))
    "[PYPI_TOKEN_REDACTED]" "PyPI API Token" .generic,
  always (tokenAfter "NVAPI" (atLeast 20 (inClass false (alnum ++ only ['-', '_']))))
    "[NVIDIA_API_KEY_REDACTED]" "NVIDIA API Key" .openai]

def certificateDefs : List PatternDef := [
  always (pemBlock (rsaPrivateKey 1) (rsaPrivateKey 2))
    "[PRIVATE_KEY_REDACTED]" "RSA Private Key" .certificates,
  always (pemBlock (privateKeyOf "OPENSSH") (privateKeyOf "OPENSSH"))
    "[OPENSSH_PRIVATE_KEY_REDACTED]" "OpenSSH Private Key" .certificates,
  always (pemBlock (privateKeyOf "EC") (privateKeyOf "EC"))
    "[EC_PRIVATE_KEY_REDACTED]" "EC Private Key" .certificates,
  always (pemBlock (seq [privateKeyOf "PGP", gap false, lit false "BLOCK"])
      (seq [privateKeyOf "PGP", gap false, lit false "BLOCK"]))
    "[PGP_PRIVATE_KEY_REDACTED]" "PGP Private Key" .certificates,
  always (pemBlock privateKey privateKey)
    "[PKCS8_PRIVATE_KEY_REDACTED]" "PKCS#8 Private Key" .certificates,
  always (seq [lit false "$ANSIBLE_VAULT;", plus (inClass false (.digit :: only ['.'])),
      lit false ";AES256\n", plus (inClass false (.range 'a' 'f' :: asciiDigit :: only ['\n']))])
    "[ANSIBLE_VAULT_ENCRYPTED_REDACTED]" "Ansible Vault encrypted content" .ansible]

def kubeField (field : String) : Regex :=
  seq [lit true field, chr true ':', blanks true, plus (inClass true base64)]

def toolDefs : List PatternDef := [
  always (kubeField "client-certificate-data")
    "client-certificate-data: [REDACTED]" "Kubeconfig client certificate" .kubeconfig,
  always (kubeField "client-key-data")
    "client-key-data: [REDACTED]" "Kubeconfig client key" .kubeconfig,
  always (kubeField "certificate-authority-data")
    "certificate-authority-data: [REDACTED]" "Kubeconfig CA certificate" .kubeconfig,
  always (seq [lit true "\"auth\"", blanks true, chr true ':', blanks true, chr true '"',
      atLeast 10 (inClass true base64), chr true '"'])
    "\"auth\": \"[REDACTED]\"" "Docker config auth" .docker,
  always (seq [.group 1 (seq [lit true "docker", gap true, lit true "login", gap true,
        opt (seq [star (notIn true (only ['\n'])), oneOf true [' ', '\t']]), lit true "-p",
        blanks true]),
      scalarValue true])
    keyMarker "Docker login command with password" .docker,
  always (seq [.group 1 (orElse [lit true "mysql", lit true "postgresql", lit true "postgres",
        lit true "mongodb", lit true "redis", lit true "amqp"] (lit true "mariadb")),
      lit true "://", plus (notIn true (only [':'])), chr true ':', plus (notIn true (only ['@'])),
      chr true '@'])
    "$1://[CREDENTIALS]@" "Database connection strings" .database,
  always (seq [.wordBoundary,
      .group 1 (seq [inClass false [lowerCase, upper],
        between 1 15 (inClass false (alnum ++ only ['+', '.', '-']))]),
      lit false "://",
      .group 2 (between 1 64 (notIn false (.space :: only ['/', ':', '@', '\'', '"']))),
      chr false ':',
      .group 3 (between 1 256 (notIn false (.space :: only ['/', '@', '\'', '"', '?', '#']))),
      chr false '@'])
    "$1://$2:[REDACTED]@" "Generic URL embedded credentials" .generic,
  always (seq [lit true "\"sensitive_value\"", blanks true, chr true ':', blanks true,
      chr true '"', plus (notIn true (only ['"', '\n'])), chr true '"'])
    "\"sensitive_value\": \"[REDACTED]\"" "Terraform sensitive values" .generic,
  always (seq [.lineStart,
      .group 1 (orElse [lit true "password", lit true "secret", lit true "token"]
        (seq [lit true "api", sep true, lit true "key"])),
      atLeast 2 (oneOf true [' ', '\t']), plus (notIn true [.space])])
    "$1  [REDACTED]" "Vault KV tabular output secrets" .hashicorp,
  always (seq [lit false "\"requirepass\"", opt (chr false '\r'), lit false "\n\"",
      plus (notIn false (only ['"'])), chr false '"'])
    "\"requirepass\"\n\"[REDACTED]\"" "Redis CONFIG GET requirepass" .database]

/-- Variable-based patterns: a specific name and its value. -/
def variableDefs : List PatternDef := [
  always (keyed (seq [lit true "aws", sep true,
      orElse [seq [lit true "access", sep true, lit true "key", sep true, lit true "id"]]
        (seq [lit true "secret", sep true, lit true "access", sep true, lit true "key"])]))
    keyMarker "AWS credentials" .aws,
  always (keyed (seq [lit true "aws", sep true, lit true "session", sep true, lit true "token"]))
    keyMarker "AWS Session Token" .aws,
  always (keyed (seq [
      orElse [lit true "MYSQL", lit true "POSTGRES", lit true "MONGO", lit true "REDIS",
        lit true "RABBITMQ"] (lit true "MARIADB"),
      sep true,
      orElse [lit true "PASSWORD", lit true "ROOT_PASSWORD"] (lit true "PASS")]))
    keyMarker "Docker compose database passwords" .database,
  always (keyed (orElse [lit true "DATABASE_URL", lit true "DB_URL", lit true "REDIS_URL"]
      (lit true "MONGO_URL")))
    keyMarker "Database URL environment variables" .database,
  always (keyed (seq [orElse [lit true "DB"] (lit true "DATABASE"), sep true,
      orElse [lit true "PASSWORD"] (lit true "PASS")]))
    keyMarker "Database password variables" .database,
  always (keyed (seq [lit true "vault", sep true, passOrPassword]))
    keyMarker "Ansible Vault password" .ansible,
  always (keyed (seq [lit true "ansible", sep true, lit true "become", sep true, passOrPassword]))
    keyMarker "Ansible become password" .ansible,
  gated .shape (seq [.group 1 (seq [lit true "--vault-password-file", gap true]),
      scalarValue true])
    keyMarker "Ansible vault password file path" .ansible,
  always (keyed (seq [lit true "ansible", sep true, lit true "ssh", sep true, lit true "pass"]))
    keyMarker "Ansible SSH password" .ansible,
  always (keyed (orElse [lit true "GITLAB_TOKEN"] (lit true "CI_JOB_TOKEN")))
    keyMarker "GitLab CI tokens" .gitlab,
  always (keyed (orElse [lit true "AZURE_CLIENT_SECRET", lit true "AZURE_TENANT_ID"]
      (lit true "AZURE_SUBSCRIPTION_ID")))
    keyMarker "Azure credentials" .azure,
  always (keyed (orElse [lit true "GOOGLE_APPLICATION_CREDENTIALS",
      lit true "GCP_SERVICE_ACCOUNT"] (lit true "GCLOUD_SERVICE_KEY")))
    keyMarker "GCP credentials" .gcp,
  always (seq [
      .group 1 (seq [orElse [lit true "VAULT_TOKEN"] (lit true "vault_token"), assign true]),
      .group 2 (seq [opt (oneOf true ['"', '\'']),
        orElse [lit true "hvs", lit true "hvb", lit true "hvr", lit true "s", lit true "b"]
          (lit true "r"),
        chr true '.', atLeast 8 (inClass true wordDash), opt (oneOf true ['"', '\''])])])
    "$\x7b1\x7d[VAULT_TOKEN_REDACTED]" "HashiCorp Vault token" .hashicorp,
  always (keyed (lit true "CONSUL_HTTP_TOKEN"))
    keyMarker "Consul HTTP token" .hashicorp,
  always (keyed (orElse [seq [lit true "docker", sep true, lit true "password"]]
      (seq [lit true "registry", sep true, lit true "password"])))
    keyMarker "Docker registry password" .docker,
  always (keyed (orElse [lit true "ANTHROPIC_API_KEY"] (lit true "CLAUDE_API_KEY")))
    keyMarker "Anthropic API Key (env variable name)" .openai]

def genericDefs : List PatternDef := [
  always (quotedKey passwordWords)
    keyQuotedMarker "Quoted JSON/YAML password keys" .generic,
  gated .shape (quotedKey (seq [plus (inClass false (alnum ++ only ['_', '.', '-'])),
      passwordWords]))
    keyQuotedMarker "Quoted JSON/YAML prefixed password keys" .generic,
  gated .plausibleSecret (quotedKey weakKeyWords)
    keyQuotedMarker "Quoted JSON/YAML secret keys" .generic,
  gated .plausibleAndShape (quotedKey (seq [star (inClass false (alnum ++ only ['_', '.', '-'])),
      oneOf false ['_', '.', '-'], weakKeyWords]))
    keyQuotedMarker "Quoted JSON/YAML prefixed secret keys" .generic,
  always (seq [.group 1 (seq [lit true "password", blanks true, chr true '=', blanks true]),
      .group 2 (doubleQuotedValue true)])
    keyQuotedMarker "Terraform HCL secrets with quoted values (strong)" .generic,
  gated .plausibleSecret (seq [
      .group 1 (seq [orElse [lit true "secret", lit true "token"] (lit true "api_key"),
        blanks true, chr true '=', blanks true]),
      .group 2 (doubleQuotedValue true)])
    keyQuotedMarker "Terraform HCL secrets with quoted values (weak)" .generic,
  always (seq [.group 1 (seq [passwordWords, assign true]), .group 2 (quotedValue true)])
    keyQuotedMarker "Generic passwords with quoted values" .generic,
  gated .plausibleSecret (seq [
      .group 1 (seq [orElse [lit true "secret"] (lit true "credential"), assign true]),
      .group 2 (quotedValue true)])
    keyQuotedMarker "Generic secrets with quoted values" .generic,
  always (keyed passwordWords)
    keyMarker "Generic password patterns" .generic,
  always (keyed (orElse [lit true "DIGITALOCEAN_TOKEN"] (lit true "DO_TOKEN")))
    keyMarker "DigitalOcean token" .generic,
  always (keyed (orElse [seq [lit true "ssh", sep true, passOrPassword]]
      (seq [lit true "ssh", sep true, lit true "key", sep true, passOrPassword])))
    keyMarker "SSH password/passphrase" .generic,
  always (keyed (orElse [seq [lit true "smtp", sep true, passOrPassword]]
      (seq [lit true "mail", sep true, passOrPassword])))
    keyMarker "SMTP/Mail password" .generic,
  always (keyed (seq [lit true "npm", sep true, lit true "token"]))
    keyMarker "NPM token" .generic,
  always (keyed (seq [lit true "pypi", sep true, lit true "token"]))
    keyMarker "PyPI token" .generic,
  gated .plausibleSecret (seq [
      .group 1 (seq [orElse [seq [lit true "api", sep true, lit true "key"]]
          (seq [lit true "auth", sep true, lit true "token"]),
        orElse [assign true] (gap true)]),
      scalarValue true])
    keyMarker "Generic API keys and auth tokens" .generic,
  gated .plausibleSecret (keyed (orElse [lit true "secret", lit true "credential"]
      (lit true "token")))
    keyMarker "Generic secrets" .generic,
  always (seq [lit true "bearer", gap true, opt (oneOf true ['\'', '"']),
      atLeast 8 (inClass true (alnum ++ only ['.', '_', '~', '+', '/', '=', '-']))])
    "Bearer [BEARER_TOKEN_REDACTED]" "Opaque Authorization Bearer token" .generic,
  always (seq [lit true "authorization:", blanks true, lit true "basic", gap true,
      atLeast 8 (inClass true base64)])
    "Authorization: Basic [BASIC_AUTH_REDACTED]" "HTTP Basic Authorization header" .generic]

/-- Order matters: specific patterns come before generic ones. -/
def defaultPatternDefs : List PatternDef :=
  signatureDefs ++ certificateDefs ++ toolDefs ++ variableDefs ++ genericDefs

def secretKeywords : List Text :=
  ["password", "passwd", "pwd", "secret", "token", "bearer", "auth", "credential", "api_key",
    "apikey", "api-key", "access_key", "access-key", "private",
    "aws_access", "aws_secret", "AKIA",
    "kubeconfig", "client-certificate-data", "client-key-data", "K10", "K3S_TOKEN",
    "docker_password", "registry_password", "docker login",
    "vault_pass", "ansible_become", "ANSIBLE_VAULT",
    "mysql://", "postgresql://", "postgres://", "mongodb://", "redis://", "DATABASE_URL",
    "DB_PASSWORD", "://",
    "AZURE_", "GCP_", "GOOGLE_APPLICATION_CREDENTIALS",
    "GITHUB_TOKEN", "GITLAB_TOKEN", "CI_JOB_TOKEN", "ghp_", "gho_", "ghu_", "ghs_", "ghr_",
    "glpat-",
    "BEGIN PRIVATE KEY", "BEGIN RSA PRIVATE KEY", "BEGIN OPENSSH PRIVATE KEY",
    "BEGIN CERTIFICATE", "BEGIN EC PRIVATE KEY", "BEGIN PGP",
    "VAULT_TOKEN", "vault_token", "CONSUL_HTTP_TOKEN",
    "eyJ",
    "sk-", "OPENAI", "ANTHROPIC", "CLAUDE",
    "xox", "hooks.slack.com", "discord.com/api/webhooks",
    "ssh_pass", "smtp_pass", "mail_pass", "npm_token", "pypi_token", "NVAPI", "sk-ant-",
    "sk_live_", "pk_live_", "rk_live_", "npm_", "pypi-", "sensitive_value"].map String.toList

end BridgeMcp.Security
