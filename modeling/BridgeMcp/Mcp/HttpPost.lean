import BridgeMcp.Lib.Base64
import BridgeMcp.Lib.Checks
import BridgeMcp.Mcp.MessageText
import BridgeMcp.Mcp.SessionLoop

/-!
`POST /mcp`: what the HTTP transport makes of a body before the request dispatcher gets it, and what
a session on stdio makes of the same text as a line.

A request counts as handed over once it is past the dispatcher's own checks of envelope and revision.
What comes before `handle_post` (body limits, origin, credentials) is not here.
-/
namespace BridgeMcp.Mcp.HttpPost
open JsonLib TextLib Base64Lib CheckLib List Option

/-- The names are in lower case. -/
abbrev HeaderMap := List (Text × List UInt8)

def toStr (value : List UInt8) : Option Text :=
  if value.all fun b => (32 ≤ b && b < 127) || b == 9 then
    some (value.map fun b => Char.ofNat b.toNat)
  else none

def header (headers : HeaderMap) (name : Text) : Option Text := (headers.lookup name).bind toStr

def isJsonContent (headers : HeaderMap) : Bool :=
  let contentType := (header headers "content-type").getD []
  lower (trim (contentType.takeWhile (· ≠ ';'))) = "application/json"

def b64SentinelStart : Text := "=?base64?"

def b64SentinelEnd : Text := "?="

def stripEnd (ending s : Text) : Option Text :=
  if ending <:+ s then some (s.take (s.length - ending.length)) else none

def decodeHeaderSentinel (value : Text) : Except Text Text :=
  match (stripPrefix b64SentinelStart value).bind (stripEnd b64SentinelEnd) with
  | none => .ok value
  | some encoded =>
    match decodeStandard encoded with
    | none => .error "not valid Base64"
    | some bytes =>
      match fromUtf8 bytes with
      | none => .error "not valid UTF-8"
      | some text => .ok text

/-- What `Mcp-Name` stands for. -/
def decodedName (headers : HeaderMap) : Option Text :=
  (header headers "mcp-name").bind fun raw => (decodeHeaderSentinel raw).toOption

def protocolVersionKey : Text := "io.modelcontextprotocol/protocolVersion"

def clientCapabilitiesKey : Text := "io.modelcontextprotocol/clientCapabilities"

def supportedProtocolVersions : List Text := ["2026-07-28"]

def envelopeExemptMethods : List Text := ["server/discover", "initialize"]

structure RequestMeta where
  protocolVersion : Option Text
  clientCapabilities : Option (List (Text × Json))

def RequestMeta.fromParams (params : Option Json) : RequestMeta :=
  match (params.bind (·.get "_meta")).bind Json.asObject with
  | none => ⟨none, none⟩
  | some entries =>
    { protocolVersion := ((Json.object entries).get protocolVersionKey).bind Json.asStr
      clientCapabilities := ((Json.object entries).get clientCapabilitiesKey).bind Json.asObject }

def missingProtocolVersionMsg : Text :=
  "missing `_meta[\"io.modelcontextprotocol/protocolVersion\"]`: MCP 2026-07-28 requires it on every client-to-server request. Declare the revision this request speaks; Modern MCP deleted the connection-scoped handshake, so there is no earlier negotiation for the server to fall back on."

def missingClientCapabilitiesMsg : Text :=
  "missing `_meta[\"io.modelcontextprotocol/clientCapabilities\"]`: MCP 2026-07-28 requires it on every client-to-server request. Send `\x7b\x7d` to declare no capabilities; omitting the key entirely is a malformed request."

def missingRequiredEnvelopeField (method : Text) (hasId : Bool) (params : Option Json) :
    Option Text :=
  if !hasId || envelopeExemptMethods.contains method then none
  else
    let envelope := RequestMeta.fromParams params
    if envelope.protocolVersion.isNone then some missingProtocolVersionMsg
    else if envelope.clientCapabilities.isNone then some missingClientCapabilitiesMsg
    else none

def invalidParams (message : Text) : JsonRpcError := ⟨-32602, message, none⟩

def headerMismatch (message : Text) : JsonRpcError := ⟨-32020, message, none⟩

def unsupportedProtocolVersion (requested : Text) : JsonRpcError :=
  { code := -32022
    message := "Unsupported protocol version"
    data := some (.object [("supported", .array (supportedProtocolVersions.map .string)),
      ("requested", .string requested)]) }

/-- The checks that `dispatch_request` begins with. -/
def dispatchCheck (r : JsonRpcRequest) : Except JsonRpcError Unit :=
  match missingRequiredEnvelopeField r.method r.id.isSome r.params with
  | some detail => .error (invalidParams detail)
  | none =>
    if envelopeExemptMethods.contains r.method then .ok ()
    else
      match (RequestMeta.fromParams r.params).protocolVersion with
      | none => .ok ()
      | some declared =>
        if supportedProtocolVersions.contains declared then .ok ()
        else .error (unsupportedProtocolVersion declared)

def mcpNameMethods : List (Text × Text) :=
  [("tools/call", "name"), ("resources/read", "uri"),
    ("prompts/get", "name")]

def stringAt (params : Option Json) (field : Text) : Option Text :=
  (params.bind (·.get field)).bind Json.asStr

def declaredVersion (params : Option Json) : Option Text :=
  ((params.bind (·.get "_meta")).bind (·.get protocolVersionKey)).bind Json.asStr

def checkName (headers : HeaderMap) (body : Json) (bodyMethod field : Text) :
    Except JsonRpcError Unit :=
  match header headers "mcp-name" with
  | none =>
    .error (headerMismatch
      ("missing required header `Mcp-Name` for `" ++ bodyMethod ++ "`"))
  | some raw =>
    let bodyName := (stringAt (body.get "params") field).getD []
    match decodeHeaderSentinel raw with
    | .error why =>
      .error (headerMismatch
        ("`Mcp-Name` carries the Base64 sentinel but its payload is " ++ why))
    | .ok name =>
      if name = bodyName then .ok ()
      else
        .error (headerMismatch ("`Mcp-Name: " ++ name ++
          "` does not match the body's `params." ++ field ++ "` `" ++ bodyName ++
          "`"))

def checkMethod (headers : HeaderMap) (body : Json) : Except JsonRpcError Unit :=
  match header headers "mcp-method" with
  | none => .error (headerMismatch "missing required header `Mcp-Method`")
  | some method =>
    let bodyMethod := ((body.get "method").bind Json.asStr).getD []
    if method = bodyMethod then
      match mcpNameMethods.lookup bodyMethod with
      | none => .ok ()
      | some field => checkName headers body bodyMethod field
    else
      .error (headerMismatch ("`Mcp-Method: " ++ method ++
        "` does not match the body's method `" ++ bodyMethod ++ "`"))

def checkVersion (version : Text) (body : Json) : Except JsonRpcError Unit :=
  let supported :=
    if supportedProtocolVersions.contains version then .ok ()
    else .error (unsupportedProtocolVersion version)
  match declaredVersion (body.get "params") with
  | none => supported
  | some declared =>
    if declared = version then supported
    else
      .error (headerMismatch ("`MCP-Protocol-Version: " ++ version ++
        "` does not match the body's `_meta` protocolVersion `" ++ declared ++
        "`"))

def checkModernHeaders (headers : HeaderMap) (body : Json) : Except JsonRpcError Unit :=
  match header headers "mcp-protocol-version" with
  | none => .error (headerMismatch "missing required header `MCP-Protocol-Version`")
  | some version => do
      if body.asArray.isNone then checkMethod headers body
      checkVersion version body

/-- What becomes of a POST. All but `dispatched` are answers that `handle_post` gives itself. -/
inductive Outcome where
  | badRequest (id : Option Json) (e : JsonRpcError)
  | failed (e : JsonRpcError)
  | noContent
  | dispatched (r : JsonRpcRequest)

section
variable (describe describeValue : Text → Text) (display : Json → Text) (active : ActiveRequests)

/-- `describeValue` and `describe` are the parser's accounts of a text that is no JSON value, or no
message. A request for `subscriptions/listen` is answered by a stream, but goes to the dispatcher
like the others. -/
def handlePost (headers : HeaderMap) (rawBody : Text) : Outcome :=
  if isJsonContent headers then
    match parse rawBody with
    | none => .badRequest none (.parseError ("Invalid JSON: " ++ describeValue rawBody))
    | some body =>
      if body.asArray.isSome then
        .badRequest none (.invalidRequest
          "the body of an MCP POST must be a single JSON-RPC request or notification; JSON-RPC batching was removed in revision 2025-06-18")
      else
        match checkModernHeaders headers body with
        | .error e => .badRequest (body.get "id") e
        | .ok () =>
          match parseIncoming describe rawBody with
          | .error e => .failed e
          | .ok message =>
            match message.method with
            | none => .noContent
            | some method =>
              match missingRequiredEnvelopeField method message.id.isSome message.params with
              | some detail => .badRequest message.id (invalidParams detail)
              | none => .dispatched ⟨message.jsonrpc, message.id, method, message.params⟩
  else
    .badRequest none (.invalidRequest
      "the body of an MCP POST must be sent as `Content-Type: application/json`")

def stdioRequest (t : Text) : Option JsonRpcRequest :=
  match SessionLoop.receive describe (utf8Bytes t) with
  | .message message =>
    (routeIncomingMessage display active message).1.filter fun r => (dispatchCheck r).isOk
  | _ => none

end

theorem checkName_ok_iff (headers : HeaderMap) (body : Json) (bodyMethod field : Text) :
    checkName headers body bodyMethod field = .ok () ↔
      decodedName headers = some ((stringAt (body.get "params") field).getD []) := by
  rw [checkName, decodedName]
  cases header headers "mcp-name" with
  | none => exact ⟨nofun, nofun⟩
  | some raw =>
    rw [bind_some]
    dsimp only
    cases decodeHeaderSentinel raw with
    | error why => exact ⟨nofun, nofun⟩
    | ok name =>
      dsimp only [Except.toOption]
      rw [some_inj]
      split_ifs with hname
      · exact ⟨fun _ => hname, fun _ => rfl⟩
      · exact ⟨nofun, fun h => absurd h hname⟩

theorem checkMethod_ok_iff (headers : HeaderMap) (body : Json) {method : Text}
    (hmethod : (body.get "method").bind Json.asStr = some method) :
    checkMethod headers body = .ok () ↔
      header headers "mcp-method" = some method ∧
        ∀ field, mcpNameMethods.lookup method = some field →
          decodedName headers = some ((stringAt (body.get "params") field).getD []) := by
  rw [checkMethod, hmethod]
  cases header headers "mcp-method" with
  | none => exact ⟨nofun, fun h => nomatch h.1⟩
  | some declared =>
    dsimp only [getD_some]
    rw [some_inj]
    split_ifs with hsame
    · cases mcpNameMethods.lookup method with
      | none => exact ⟨fun _ => ⟨hsame, nofun⟩, fun _ => rfl⟩
      | some field =>
        dsimp only
        rw [checkName_ok_iff]
        refine ⟨fun h => ⟨hsame, fun field' hfield => ?_⟩, fun h => h.2 field rfl⟩
        obtain rfl := some.inj hfield
        exact h
    · exact ⟨nofun, fun h => absurd h.1 hsame⟩

theorem checkVersion_ok_iff (version : Text) (body : Json) :
    checkVersion version body = .ok () ↔
      version ∈ supportedProtocolVersions ∧
        ∀ declared, declaredVersion (body.get "params") = some declared →
          declared = version := by
  have hsupported : (if supportedProtocolVersions.contains version then (.ok () : Except _ Unit)
      else .error (unsupportedProtocolVersion version)) = .ok () ↔
        version ∈ supportedProtocolVersions := by
    rw [← contains_iff_mem]
    split_ifs with h
    · exact ⟨fun _ => h, fun _ => rfl⟩
    · exact ⟨nofun, fun hcontains => absurd hcontains h⟩
  rw [checkVersion]
  cases declaredVersion (body.get "params") with
  | none =>
    dsimp only
    rw [hsupported]
    exact ⟨fun h => ⟨h, nofun⟩, And.left⟩
  | some declared =>
    dsimp only
    by_cases hsame : declared = version
    · rw [if_pos hsame, hsupported]
      refine ⟨fun h => ⟨h, fun declared' hdeclared => ?_⟩, And.left⟩
      obtain rfl := some.inj hdeclared
      exact hsame
    · rw [if_neg hsame]
      exact ⟨nofun, fun h => absurd (h.2 declared rfl) hsame⟩

theorem bind_nonNull_get (value : Option Json) (name : Text) :
    (value.bind nonNull).bind (·.get name) = value.bind (·.get name) := by
  rcases value with _ | value
  · rfl
  · cases value <;> rfl

theorem stringAt_nonNull (value : Option Json) (field : Text) :
    stringAt (value.bind nonNull) field = stringAt value field := by
  rw [stringAt, stringAt, bind_nonNull_get]

theorem declaredVersion_nonNull (value : Option Json) :
    declaredVersion (value.bind nonNull) = declaredVersion value := by
  rw [declaredVersion, declaredVersion, bind_nonNull_get]

theorem fromParams_protocolVersion (params : Option Json) :
    (RequestMeta.fromParams params).protocolVersion = declaredVersion params := by
  rw [RequestMeta.fromParams, declaredVersion]
  rcases params.bind (·.get "_meta") with _ | envelope
  · rfl
  · cases envelope <;> rfl

def toMessage (r : JsonRpcRequest) : JsonRpcMessage := ⟨r.jsonrpc, r.id, some r.method, r.params⟩

/-- The headers that `check_modern_headers` takes with a request. A name that the parameters do not
have counts as empty. -/
structure Checked (headers : HeaderMap) (r : JsonRpcRequest) (version : Text) : Prop where
  version_eq : header headers "mcp-protocol-version" = some version
  supported : version ∈ supportedProtocolVersions
  declared : ∀ declared, declaredVersion r.params = some declared → declared = version
  method : header headers "mcp-method" = some r.method
  name : ∀ field, mcpNameMethods.lookup r.method = some field →
    decodedName headers = some ((stringAt r.params field).getD [])

variable {headers : HeaderMap} {r : JsonRpcRequest}

theorem checkModernHeaders_ok_iff {s : Text} {body : Json} (hbody : parse s = some body)
    (hr : messageFromStr s = some (toMessage r)) :
    checkModernHeaders headers body = .ok () ↔ ∃ version, Checked headers r version := by
  obtain ⟨hmethod, -, hparams⟩ := message_of_body hbody hr
  replace hparams : r.params = (body.get "params").bind nonNull := hparams
  obtain ⟨members, hmembers⟩ := exists_members hbody hr
  have harray : body.asArray.isNone = true := by rw [hmembers]; rfl
  rw [checkModernHeaders]
  cases hversion : header headers "mcp-protocol-version" with
  | none =>
    refine ⟨nofun, fun ⟨version, h⟩ => ?_⟩
    cases hversion.symm.trans h.version_eq
  | some version =>
    dsimp only
    rw [if_pos harray]
    constructor
    · intro h
      obtain ⟨hcheck, hlast⟩ := ok_of_bind h
      rw [checkMethod_ok_iff headers body hmethod.symm] at hcheck
      rw [checkVersion_ok_iff] at hlast
      refine ⟨version, hversion, hlast.1, ?_, hcheck.1, ?_⟩
      · rw [hparams, declaredVersion_nonNull]
        exact hlast.2
      · rw [hparams]
        simpa only [stringAt_nonNull] using hcheck.2
    · rintro ⟨version', h⟩
      obtain rfl := some.inj (hversion.symm.trans h.version_eq)
      have hcheck : checkMethod headers body = .ok () := by
        rw [checkMethod_ok_iff headers body hmethod.symm]
        refine ⟨h.method, fun field hfield => ?_⟩
        rw [h.name field hfield, hparams, stringAt_nonNull]
      have hlast : checkVersion version body = .ok () := by
        rw [checkVersion_ok_iff, ← declaredVersion_nonNull, ← hparams]
        exact ⟨h.supported, h.declared⟩
      rw [bind_of_ok hcheck, hlast]

theorem parseIncoming_ok_iff (describe : Text → Text) (s : Text) (m : JsonRpcMessage) :
    parseIncoming describe s = .ok m ↔ messageFromStr (trimStart s) = some m := by
  rw [parseIncoming]
  split_ifs with harray
  · -- A message starts with a brace, so the early refusal of arrays changes nothing.
    refine ⟨nofun, fun hm => ?_⟩
    obtain ⟨members, r, hread, -, -⟩ := messageFromStr_eq_some.mp hm
    obtain ⟨rest, hs, -⟩ := readMessage_eq_some hread
    obtain ⟨tail, htail⟩ := head?_eq_some_iff.mp harray
    rw [htail, skipSpace_of_head rfl] at hs
    cases hs
  · cases messageFromStr (trimStart s) with
    | none => exact ⟨nofun, nofun⟩
    | some message => exact ⟨fun h => congrArg some (Except.ok.inj h), fun h =>
      congrArg Except.ok (some.inj h)⟩

theorem dispatchCheck_ok_iff (r : JsonRpcRequest) :
    dispatchCheck r = .ok () ↔
      missingRequiredEnvelopeField r.method r.id.isSome r.params = none ∧
        (r.method ∉ envelopeExemptMethods → ∀ declared, declaredVersion r.params = some declared →
          declared ∈ supportedProtocolVersions) := by
  rw [dispatchCheck, fromParams_protocolVersion]
  cases missingRequiredEnvelopeField r.method r.id.isSome r.params with
  | some detail => exact ⟨nofun, fun h => nomatch h.1⟩
  | none =>
    dsimp only
    by_cases hexempt : r.method ∈ envelopeExemptMethods
    · rw [if_pos (contains_iff_mem.mpr hexempt)]
      exact ⟨fun _ => ⟨rfl, fun h => absurd hexempt h⟩, fun _ => rfl⟩
    · rw [if_neg fun h => hexempt (contains_iff_mem.mp h)]
      cases declaredVersion r.params with
      | none => exact ⟨fun _ => ⟨rfl, nofun⟩, fun _ => rfl⟩
      | some declared =>
        dsimp only
        split_ifs with hsupported
        · refine ⟨fun _ => ⟨rfl, fun _ _ h => ?_⟩, fun _ => rfl⟩
          obtain rfl := some.inj h
          exact contains_iff_mem.mp hsupported
        · refine ⟨nofun, fun h => absurd ?_ hsupported⟩
          exact contains_iff_mem.mpr (h.2 hexempt declared rfl)

theorem exists_declaredVersion (hid : r.id ≠ none) (hexempt : r.method ∉ envelopeExemptMethods)
    (h : missingRequiredEnvelopeField r.method r.id.isSome r.params = none) :
    ∃ declared, declaredVersion r.params = some declared := by
  rw [missingRequiredEnvelopeField, if_neg] at h
  · dsimp only at h
    rw [fromParams_protocolVersion] at h
    cases hdeclared : declaredVersion r.params with
    | none =>
      rw [hdeclared] at h
      cases h
    | some declared => exact ⟨declared, rfl⟩
  · rw [isSome_iff_ne_none.mpr hid, Bool.or_eq_true, contains_iff_mem]
    exact fun hor => hor.elim nofun hexempt

section
variable (describe describeValue : Text → Text) (display : Json → Text) (active : ActiveRequests)

theorem handlePost_dispatched_iff (hjson : isJsonContent headers = true)
    (t : Text) (r : JsonRpcRequest) :
    handlePost describe describeValue headers t = .dispatched r ↔
      (∃ body, parse t = some body ∧ checkModernHeaders headers body = .ok ()) ∧
        messageFromStr (trimStart t) = some (toMessage r) ∧
        missingRequiredEnvelopeField r.method r.id.isSome r.params = none := by
  rw [handlePost, if_pos hjson]
  constructor
  · intro h
    split at h
    · cases h
    next body hbody =>
    split_ifs at h with harray
    split at h
    · cases h
    next hcheck =>
    split at h
    · cases h
    next message hmessage =>
    split at h
    · cases h
    next method hmethod =>
    split at h
    · cases h
    next henvelope =>
    cases h
    refine ⟨⟨body, hbody, hcheck⟩, ?_, henvelope⟩
    rw [(parseIncoming_ok_iff describe t message).mp hmessage]
    obtain ⟨jsonrpc, id, _, params⟩ := message
    cases hmethod
    rfl
  · rintro ⟨⟨body, hbody, hcheck⟩, hr, henvelope⟩
    obtain ⟨members, hmembers⟩ := exists_members (parse_trimStart hbody) hr
    have harray : ¬ body.asArray.isSome = true := by
      rw [hmembers]
      exact Bool.false_ne_true
    rw [hbody]
    dsimp only
    rw [if_neg harray, hcheck]
    dsimp only
    rw [(parseIncoming_ok_iff describe t _).mpr hr]
    dsimp only [toMessage]
    rw [henvelope]

theorem receive_message_iff (t : Text) (m : JsonRpcMessage) :
    SessionLoop.receive describe (utf8Bytes t) = .message m ↔ messageFromStr (trim t) = some m := by
  have hline : utf8Bytes t ++ [SessionLoop.newline] = utf8Bytes (t ++ ['\n']) := by
    rw [utf8Bytes_append]
    rfl
  have htrim : trim (t ++ ['\n']) = trim t := trim_append t (forall_mem_singleton.mpr rfl)
  rw [SessionLoop.receive, hline, fromUtf8_utf8Bytes]
  dsimp only
  rw [htrim]
  split_ifs with hblank
  · rw [hblank]
    exact ⟨nofun, nofun⟩
  · rw [← trimStart_trim t, ← parseIncoming_ok_iff describe, trimStart_trim]
    cases parseIncoming describe (trim t) with
    | error e => exact ⟨nofun, nofun⟩
    | ok message => exact ⟨fun h => congrArg Except.ok (SessionLoop.Received.message.inj h), fun h =>
      congrArg SessionLoop.Received.message (Except.ok.inj h)⟩

theorem route_eq_some_iff (m : JsonRpcMessage) (r : JsonRpcRequest) :
    (routeIncomingMessage display active m).1 = some r ↔
      m = toMessage r ∧ r.id ≠ none ∧ r.method ≠ cancelledMethod := by
  obtain ⟨jsonrpc, id, method, params⟩ := m
  rw [routeIncomingMessage]
  constructor
  · intro h
    split at h
    · cases h
    next name hname =>
    split_ifs at h with hcancelled
    split at h
    · cases h
    next value hvalue =>
    cases h
    cases hname
    cases hvalue
    exact ⟨rfl, nofun, hcancelled⟩
  · rintro ⟨hm, hid, hmethod⟩
    cases hm
    dsimp only
    rw [if_neg hmethod]
    obtain ⟨id, hid⟩ := ne_none_iff_exists'.mp hid
    obtain ⟨jsonrpc, _, method, params⟩ := r
    cases hid
    rfl

theorem stdioRequest_eq_some_iff (t : Text) (r : JsonRpcRequest) :
    stdioRequest describe display active t = some r ↔
      messageFromStr (trim t) = some (toMessage r) ∧ r.id ≠ none ∧ r.method ≠ cancelledMethod ∧
        dispatchCheck r = .ok () := by
  have hok : (dispatchCheck r).isOk = true ↔ dispatchCheck r = .ok () := by
    cases dispatchCheck r with
    | error e => exact ⟨nofun, nofun⟩
    | ok _ => exact ⟨fun _ => rfl, fun _ => rfl⟩
  rw [← receive_message_iff describe, stdioRequest]
  constructor
  · intro h
    split at h
    · next message hmessage =>
      obtain ⟨hroute, hcheck⟩ := filter_eq_some_iff.mp h
      obtain ⟨rfl, hid, hmethod⟩ := (route_eq_some_iff display active message r).mp hroute
      exact ⟨hmessage, hid, hmethod, hok.mp hcheck⟩
    · cases h
  · rintro ⟨hmessage, hid, hmethod, hcheck⟩
    rw [hmessage]
    exact filter_eq_some_iff.mpr
      ⟨(route_eq_some_iff display active _ r).mpr ⟨rfl, hid, hmethod⟩, hok.mpr hcheck⟩

end

/-- The required headers say the same as the request: they are there, the revision is the one it
declares if it declares one, and the method and the name are its own. -/
structure HeadersAgree (headers : HeaderMap) (r : JsonRpcRequest) : Prop where
  version : ∃ version, header headers "mcp-protocol-version" = some version ∧
    ∀ declared, declaredVersion r.params = some declared → declared = version
  method : header headers "mcp-method" = some r.method
  name : ∀ field, mcpNameMethods.lookup r.method = some field →
    ∃ name, decodedName headers = some name ∧ stringAt r.params field = some name

section
variable (describe describeValue : Text → Text) (display : Json → Text) (active : ActiveRequests)

/-- A POST of `t` has the effect of the line `t`, and the effect its headers announce. -/
structure SameEffect (headers : HeaderMap) (t : Text) : Prop where
  sound : ∀ r, handlePost describe describeValue headers t = .dispatched r →
    stdioRequest describe display active t = some r
  complete : ∀ r, stdioRequest describe display active t = some r → HeadersAgree headers r →
    handlePost describe describeValue headers t = .dispatched r
  announced : ∀ r field, handlePost describe describeValue headers t = .dispatched r →
    mcpNameMethods.lookup r.method = some field →
      header headers "mcp-method" = some r.method ∧
        ∃ name, decodedName headers = some name ∧ stringAt r.params field = some name

end

/-- What the transports need to agree on `t`. A message that passes the checks of the POST is a
request with an id, not a cancellation, with a name where the headers have one. A request whose
headers agree is a JSON value in all its members, unknown ones too, and where the envelope may be
left out, the revision in the header is a supported one. -/
structure Regular (headers : HeaderMap) (t : Text) : Prop where
  posted : ∀ body r, parse t = some body → checkModernHeaders headers body = .ok () →
    messageFromStr (trimStart t) = some (toMessage r) →
    missingRequiredEnvelopeField r.method r.id.isSome r.params = none →
      r.id ≠ none ∧ r.method ≠ cancelledMethod ∧
        ∀ field, mcpNameMethods.lookup r.method = some field → stringAt r.params field ≠ none
  line : ∀ r, messageFromStr (trim t) = some (toMessage r) → r.id ≠ none →
    r.method ≠ cancelledMethod → dispatchCheck r = .ok () → HeadersAgree headers r →
      (∃ body, parse t = some body) ∧
        (r.method ∈ envelopeExemptMethods →
          ∃ version ∈ supportedProtocolVersions,
            header headers "mcp-protocol-version" = some version)

theorem dispatchCheck_of_checked {version : Text} (h : Checked headers r version)
    (henvelope : missingRequiredEnvelopeField r.method r.id.isSome r.params = none) :
    dispatchCheck r = .ok () := by
  rw [dispatchCheck_ok_iff]
  refine ⟨henvelope, fun _ declared hdeclared => ?_⟩
  rw [h.declared declared hdeclared]
  exact h.supported

theorem checked_of_headersAgree
    (h : HeadersAgree headers r) (hid : r.id ≠ none) (hcheck : dispatchCheck r = .ok ())
    (hexempt : r.method ∈ envelopeExemptMethods →
      ∃ version ∈ supportedProtocolVersions,
        header headers "mcp-protocol-version" = some version) :
    ∃ version, Checked headers r version := by
  obtain ⟨version, hversion, hdeclared⟩ := h.version
  obtain ⟨henvelope, hrevision⟩ := (dispatchCheck_ok_iff r).mp hcheck
  have hsupported : version ∈ supportedProtocolVersions := by
    by_cases hmethod : r.method ∈ envelopeExemptMethods
    · obtain ⟨version', hmem, hversion'⟩ := hexempt hmethod
      obtain rfl := some.inj (hversion.symm.trans hversion')
      exact hmem
    · obtain ⟨declared, hsome⟩ := exists_declaredVersion hid hmethod henvelope
      rw [← hdeclared declared hsome]
      exact hrevision hmethod declared hsome
  refine ⟨version, hversion, hsupported, hdeclared, h.method, fun field hfield => ?_⟩
  obtain ⟨name, hname, hparam⟩ := h.name field hfield
  rw [hname, hparam, getD_some]

theorem sameEffect_iff_regular (describe describeValue : Text → Text) (display : Json → Text)
    (active : ActiveRequests) (headers : HeaderMap) (t : Text)
    (hjson : isJsonContent headers = true) :
    SameEffect describe describeValue display active headers t ↔ Regular headers t := by
  constructor
  · intro h
    constructor
    · intro body r hbody hheaders hr henvelope
      have hpost := (handlePost_dispatched_iff describe describeValue hjson t r).mpr ⟨⟨body, hbody, hheaders⟩, hr, henvelope⟩
      obtain ⟨-, hid, hmethod, -⟩ := (stdioRequest_eq_some_iff describe display active t r).mp (h.sound r hpost)
      refine ⟨hid, hmethod, fun field hfield => ?_⟩
      obtain ⟨-, name, -, hname⟩ := h.announced r field hpost hfield
      rw [hname]
      exact some_ne_none name
    · intro r hr hid hmethod hcheck hagree
      have hstdio := (stdioRequest_eq_some_iff describe display active t r).mpr ⟨hr, hid, hmethod, hcheck⟩
      obtain ⟨⟨body, hbody, hheaders⟩, hpost, -⟩ :=
        (handlePost_dispatched_iff describe describeValue hjson t r).mp (h.complete r hstdio hagree)
      refine ⟨⟨body, hbody⟩, fun _ => ?_⟩
      obtain ⟨version, hchecked⟩ :=
        (checkModernHeaders_ok_iff (parse_trimStart hbody) hpost).mp hheaders
      exact ⟨version, hchecked.supported, hchecked.version_eq⟩
  · intro h
    have hposted : ∀ r, handlePost describe describeValue headers t = .dispatched r →
        (stdioRequest describe display active t = some r) ∧ (∃ version, Checked headers r version) ∧
          ∀ field, mcpNameMethods.lookup r.method = some field →
            stringAt r.params field ≠ none := by
      intro r hpost
      obtain ⟨⟨body, hbody, hheaders⟩, hr, henvelope⟩ :=
        (handlePost_dispatched_iff describe describeValue hjson t r).mp hpost
      obtain ⟨hid, hmethod, hnamed⟩ := h.posted body r hbody hheaders hr henvelope
      obtain ⟨version, hchecked⟩ :=
        (checkModernHeaders_ok_iff (parse_trimStart hbody) hr).mp hheaders
      refine ⟨(stdioRequest_eq_some_iff describe display active t r).mpr ⟨?_, hid, hmethod, ?_⟩, ⟨version, hchecked⟩,
        hnamed⟩
      · exact (messageFromStr_trim hbody _).mpr hr
      · exact dispatchCheck_of_checked hchecked henvelope
    constructor
    · exact fun r hpost => (hposted r hpost).1
    · intro r hstdio hagree
      obtain ⟨hr, hid, hmethod, hcheck⟩ := (stdioRequest_eq_some_iff describe display active t r).mp hstdio
      obtain ⟨⟨body, hbody⟩, hexempt⟩ := h.line r hr hid hmethod hcheck hagree
      have hread := (messageFromStr_trim hbody _).mp hr
      refine (handlePost_dispatched_iff describe describeValue hjson t r).mpr ⟨⟨body, hbody, ?_⟩, hread, ?_⟩
      · exact (checkModernHeaders_ok_iff (parse_trimStart hbody) hread).mpr
          (checked_of_headersAgree hagree hid hcheck hexempt)
      · exact ((dispatchCheck_ok_iff r).mp hcheck).1
    · intro r field hpost hfield
      obtain ⟨-, ⟨version, hchecked⟩, hnamed⟩ := hposted r hpost
      obtain ⟨name, hname⟩ := ne_none_iff_exists'.mp (hnamed field hfield)
      refine ⟨hchecked.method, name, ?_, hname⟩
      rw [hchecked.name field hfield, hname, getD_some]

def headersFor (method : Text) : HeaderMap :=
  [("content-type", utf8Bytes "application/json"),
    ("mcp-protocol-version", utf8Bytes "2026-07-28"),
    ("mcp-method", utf8Bytes method),
    ("mcp-name", utf8Bytes "=?base64?c3NoX2V4ZWM=?=")]

def discoverText : Text :=
  "\x7b\"jsonrpc\":\"2.0\",\"id\":1,\"method\":\"server/discover\"\x7d"

def discoverRequest : JsonRpcRequest :=
  ⟨"2.0", some (.number (.posInt 1)), "server/discover", none⟩

theorem regular_discover : Regular (headersFor "server/discover") discoverText := by
  have hline : messageFromStr (trim discoverText) = some (toMessage discoverRequest) := rfl
  have hread {r : JsonRpcRequest} (h : some (toMessage discoverRequest) = some (toMessage r)) :
      r = discoverRequest := by
    obtain ⟨jsonrpc, id, method, params⟩ := r
    cases h
    rfl
  constructor
  · intro body r hbody _ hr _
    obtain rfl := hread (hline.symm.trans ((messageFromStr_trim hbody _).mpr hr))
    exact ⟨nofun, by decide, nofun⟩
  · intro r hr _ _ _ _
    obtain rfl := hread (hline.symm.trans hr)
    exact ⟨isSome_iff_exists.mp rfl, fun _ => ⟨"2026-07-28", by decide, rfl⟩⟩

theorem sameEffect_discover :
    isJsonContent (headersFor "server/discover") = true ∧
      SameEffect id id (fun _ => []) ∅ (headersFor "server/discover") discoverText ∧
      stdioRequest id (fun _ => []) ∅ discoverText = some discoverRequest :=
  ⟨by decide, (sameEffect_iff_regular id id _ ∅ _ _ (by decide)).mpr regular_discover, rfl⟩

def notificationText : Text :=
  "\x7b\"jsonrpc\":\"2.0\",\"method\":\"tools/call\",\"params\":\x7b\"name\":\"ssh_exec\"\x7d\x7d"

/-- A call without an id is thrown away on stdio. Over HTTP it reaches the dispatcher, which runs the
tool. -/
theorem notification_dispatched :
    handlePost id id (headersFor "tools/call") notificationText =
        .dispatched ⟨"2.0", none, "tools/call",
          some (.object [("name", .string "ssh_exec")])⟩ ∧
      stdioRequest id (fun _ => []) ∅ notificationText = none :=
  ⟨rfl, rfl⟩

end BridgeMcp.Mcp.HttpPost
