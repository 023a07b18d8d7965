import BridgeMcp.Lib.Utf8Bytes
import BridgeMcp.Shell.Hosts

/-!
Which server an LDAP `uri` designates (`domain/use_cases/ldap.rs`), and the environment a client
gets for it.
-/
namespace BridgeMcp.Ldap
open TextLib IpLib BridgeMcp.Shell

inductive LdapTarget where
  | socket
  | network (host : Text)
  deriving DecidableEq

def ldapUriMaxLen : ℕ := 255

def isNameChar (c : Char) : Bool := c.isAlphanum || c == '.' || c == '-' || c == '_'

/-- The socket path of an `ldapi` authority; every `%` starts a two-digit escape. -/
def isSocketPath : Text → Bool
  | [] => true
  | c :: rest =>
    if c = '%' then
      match rest with
      | a :: b :: rest =>
        (hexDigitValue a).isSome && (hexDigitValue b).isSome && isSocketPath rest
      | _ => false
    else isNameChar c && isSocketPath rest

def isPort (port : Text) : Bool :=
  !port.isEmpty && port.all Char.isDigit &&
    (let n := Nat.ofDigitChars 10 port 0; n ≠ 0 && n < 65536)

/-- The host and the port of an `ldap` or `ldaps` authority. -/
def splitAuthority (authority : Text) : Option (Text × Option Text) :=
  if authority.head? = some '[' then
    (splitFirst [']'] authority.tail).bind fun (address, after) =>
      if (parseIpv6 address).isNone then none
      else if after.isEmpty then some (address, none)
      else if after.head? = some ':' then some (address, some after.tail)
      else none
  else
    let (host, port) :=
      match splitFirst [':'] authority with
      | some (host, port) => (host, some port)
      | none => (authority, none)
    if !host.isEmpty && host.all isNameChar then some (host, port) else none

def parseLdapUri (uri : Text) : Option LdapTarget :=
  if ldapUriMaxLen < utf8Len uri then none
  else
    (splitFirst "://" uri).bind fun (scheme, rest) =>
      let authority := if rest.getLast? = some '/' then rest.dropLast else rest
      if lower scheme = "ldapi" then
        if isSocketPath authority then some .socket else none
      else if lower scheme ≠ "ldap" ∧ lower scheme ≠ "ldaps" then none
      else
        (splitAuthority authority).bind fun (host, port) =>
          if port.all isPort then some (.network host) else none

def isLocalLdapUri (uri : Text) : Bool :=
  match parseLdapUri uri with
  | some .socket => true
  | some (.network host) => isLoopbackHost host
  | none => false

def ldapRemoteEnv : Text := "LDAPTLS_CERT= LDAPTLS_KEY= "

def clientEnv (uri : Option Text) : Text :=
  if uri.any fun u => !isLocalLdapUri u then ldapRemoteEnv else []

end BridgeMcp.Ldap
