import BridgeMcp.Lib.JsonSkip
import BridgeMcp.Mcp.ActiveRequests

/-!
A JSON-RPC message as it comes in: how its text becomes a `JsonRpcMessage`, and which messages are
requests.

The members of the message are read by name. A known name may stand once; a value under any other
name is skipped, not read. Of the errors only the text is a parameter (`describe`).
-/
namespace BridgeMcp.Mcp
open JsonLib TextLib

structure JsonRpcError where
  code : ℤ
  message : Text
  data : Option Json

def JsonRpcError.parseError (message : Text) : JsonRpcError := ⟨-32700, message, none⟩

def JsonRpcError.invalidRequest (message : Text) : JsonRpcError := ⟨-32600, message, none⟩

structure JsonRpcMessage where
  jsonrpc : Text
  id : Option Json
  method : Option Text
  params : Option Json

structure JsonRpcRequest where
  jsonrpc : Text
  id : Option Json
  method : Text
  params : Option Json

def isString : Json → Bool
  | .string _ => true
  | _ => false

def isNullOrString : Json → Bool
  | .null | .string _ => true
  | _ => false

def isNull : Json → Bool
  | .null => true
  | _ => false

def isI32 : Json → Bool
  | .number (.posInt n) => n < 2 ^ 31
  | .number (.negInt n) => n ≤ 2 ^ 31
  | _ => false

/-- `null` in an optional field is the field left out. -/
def nonNull : Json → Option Json
  | .null => none
  | value => some value

def distinctFields (names : List Text) (members : List (Text × Json)) : Bool :=
  names.all fun name => (members.map Prod.fst).count name ≤ 1

def hasFields (names : List Text) (members : List (Text × Json)) : Bool :=
  names.all fun name => (members.map Prod.fst).contains name

/-- The values of a message stand one level deep. -/
def valueDepth : ℕ := maxDepth - 1

def errorDataFields : List Text := ["code", "message", "data"]

def readErrorField (name : Text) : Reader Json :=
  if name = "code" then keep isI32 (readValue (valueDepth - 1))
  else if name = "message" then keep isString (readValue (valueDepth - 1))
  else if name = "data" then readValue (valueDepth - 1)
  else mapped (fun _ => .null) skipValue

def isErrorSequence : List Json → Bool
  | [code, message] | [code, message, _] => isI32 code && isString message
  | _ => false

/-- `Option<JsonRpcErrorData>`. Nothing reads the error of a message, so only its form counts. -/
def readErrorData : Reader Json :=
  readNested
    (mapped (fun _ => .null) (keep isErrorSequence (readBlock (readValue (valueDepth - 1)) ']')))
    (mapped (fun _ => .null)
      (keep (fun members => distinctFields errorDataFields members &&
          hasFields ["code", "message"] members)
        (readBlock (readMember readString readErrorField) '\x7d')))
    (keep isNull readScalar)

def messageFields : List Text :=
  ["jsonrpc", "id", "method", "params", "result",
    "error"]

def readField (name : Text) : Reader Json :=
  if name = "jsonrpc" then keep isString (readValue valueDepth)
  else if name = "id" ∨ name = "params" ∨ name = "result" then
    readValue valueDepth
  else if name = "method" then keep isNullOrString (readValue valueDepth)
  else if name = "error" then readErrorData
  else mapped (fun _ => .null) skipValue

def readMessage : Reader (List (Text × Json)) :=
  andThen (expect '\x7b') fun _ => readBlock (readMember readString readField) '\x7d'

def messageOf (members : List (Text × Json)) : Option JsonRpcMessage :=
  if distinctFields messageFields members then
    (((Json.object members).get "jsonrpc").bind Json.asStr).map fun jsonrpc =>
      { jsonrpc := jsonrpc
        id := ((Json.object members).get "id").bind nonNull
        method := ((Json.object members).get "method").bind Json.asStr
        params := ((Json.object members).get "params").bind nonNull }
  else none

def messageFromStr (s : Text) : Option JsonRpcMessage :=
  (readMessage s).bind fun p => if skipSpace p.2 = [] then messageOf p.1 else none

def batchMessage : Text :=
  "an MCP message must be a single JSON-RPC request or notification; JSON-RPC batching was removed in revision 2025-06-18"

section
variable (describe : Text → Text)

/-- `describe` is the parser's account of what is wrong with a text. -/
def parseIncoming (trimmed : Text) : Except JsonRpcError JsonRpcMessage :=
  let trimmed := trimStart trimmed
  if trimmed.head? = some '[' then .error (.invalidRequest batchMessage)
  else
    match messageFromStr trimmed with
    | some message => .ok message
    | none => .error (.parseError ("Invalid JSON: " ++ describe trimmed))

end

def cancelledMethod : Text := "notifications/cancelled"

section
variable (display : Json → Text)

/-- The request to dispatch, the token that was fired and the map of active requests left. -/
def routeIncomingMessage (active : ActiveRequests) (message : JsonRpcMessage) :
    Option JsonRpcRequest × Option ℕ × ActiveRequests :=
  match message.method with
  | none => (none, none, active)
  | some method =>
    if method = cancelledMethod then
      (none, handleCancellationNotification display active message.params)
    else
      match message.id with
      | none => (none, none, active)
      | some id => (some ⟨message.jsonrpc, some id, method, message.params⟩, none, active)

end

end BridgeMcp.Mcp
