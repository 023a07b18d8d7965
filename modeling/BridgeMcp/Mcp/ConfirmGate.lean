import BridgeMcp.Lib.Utf8
import BridgeMcp.Mcp.RequestState

/-!
The gate in front of every `tools/call` (`mcp/server.rs`): the confirmation of destructive tools,
the question for the client's roots, and the answer of a retry from a result sealed into its state.

A `serde_json` map is the list of its members in key order. The readings of the wall clock are
arguments; `serde_json::to_string` and the params digest belong to the `Server`.
-/
namespace BridgeMcp.Mcp
open TextLib JsonLib RequestState

/-- The tools registered with `annotation = "destructive"`. -/
def destructiveTools : List Text :=
  ["ssh_ansible_adhoc", "ssh_ansible_playbook", "ssh_aws_cli", "ssh_awx_adhoc_launch",
    "ssh_awx_approval_deny", "ssh_awx_job_cancel", "ssh_awx_workflow_cancel",
    "ssh_backup_restore", "ssh_crictl_rmi", "ssh_cron_remove", "ssh_db_restore",
    "ssh_docker_compose", "ssh_esxi_snapshot", "ssh_exec", "ssh_file_patch", "ssh_file_write",
    "ssh_files_write", "ssh_firewall_deny", "ssh_group_delete", "ssh_helm_repo_remove",
    "ssh_helm_rollback", "ssh_helm_uninstall", "ssh_hyperv_vm_stop", "ssh_k3s_cert_rotate",
    "ssh_k3s_etcd_snapshot_restore", "ssh_k3s_killall", "ssh_k3s_uninstall", "ssh_k3s_upgrade",
    "ssh_k8s_delete", "ssh_k8s_drain", "ssh_k8s_localpath_gc", "ssh_ldap_modify",
    "ssh_net_equip_config", "ssh_pkg_remove", "ssh_pkg_update", "ssh_podman_compose",
    "ssh_process_kill", "ssh_reg_delete", "ssh_runbook_execute", "ssh_service_stop",
    "ssh_template_apply", "ssh_user_delete", "ssh_vault_write", "ssh_win_feature_remove",
    "ssh_win_firewall_remove", "ssh_win_process_kill", "ssh_win_service_stop"].map String.toList

def destructiveHint (name : Text) : Bool := destructiveTools.contains name

def rootScopedTools : List Text :=
  ["ssh_download", "ssh_file_chmod", "ssh_file_chown", "ssh_file_diff", "ssh_file_patch",
    "ssh_file_read", "ssh_file_stat", "ssh_file_template", "ssh_file_write", "ssh_files_write",
    "ssh_find", "ssh_ls", "ssh_sync", "ssh_upload"].map String.toList

/-- The tools whose handlers call `request_summary`. -/
def summaryTools : List Text :=
  ["ssh_compare_state", "ssh_compliance_check", "ssh_compliance_report", "ssh_compliance_score",
    "ssh_diagnose", "ssh_env_diff", "ssh_env_drift", "ssh_incident_correlate",
    "ssh_incident_triage", "ssh_journal_query", "ssh_log_aggregate", "ssh_security_audit",
    "ssh_vuln_scan"].map String.toList

def longRunningTools : List Text :=
  ["ssh_awx_job_follow", "ssh_vuln_scan", "ssh_log_aggregate"].map String.toList

def callTool : Text := "mcp_call_tool"

def isMetaTool (name : Text) : Bool :=
  (["mcp_list_tool_groups", "mcp_search_tools", "mcp_describe_tool"].map String.toList).contains
    name

/-- What the gate reads of a session: the capabilities declared with this request. -/
structure SessionContext where
  supportsElicitation : Bool
  supportsRoots : Bool
  declaresTasks : Bool

structure ToolCallParams (Token : Type) where
  name : Text
  arguments : Option Json
  inputResponses : Option (List (Text × Json))
  requestState : Option Token

structure InputRequiredResult (Token : Type) where
  inputRequests : List (Text × Json)
  requestState : Token

/-- The parts of a finished result that are sealed: its text contents, put together, and these. -/
structure SealedResult where
  text : Text
  structured : Option Json
  isError : Bool
  remoteExitCode : Option ℤ

structure RootEntry where
  uri : Text
  name : Option Text

def requestPrincipal (_session : Option SessionContext) : Text := []

def confirmKey : Text := "confirm_destructive"

def rootsKey : Text := "client_roots"

def sealedKey : Text := "result"

def sampleKeyPrefix : Text := "sample_"

def toolsCallMethod : Text := "tools/call"

/-- The outside world of the gate: keys, digests, the JSON writer, and the one setting it reads. -/
structure Server (Token Digest : Type) where
  signer : Signer Token Digest
  paramsDigest : Json → Digest
  render : Json → Text
  requireElicitationOnDestructive : Bool

def salient (name : Text) (arguments : Option Json) : Json :=
  .object [("arguments", arguments.getD .null), ("name", .string name)]

theorem salient_inj {name name' : Text} {arguments arguments' : Option Json}
    (h : salient name arguments = salient name' arguments') :
    name = name' ∧ arguments.getD .null = arguments'.getD .null := by
  simp only [salient, Json.object.injEq, List.cons.injEq, Prod.mk.injEq, true_and, and_true,
    Json.string.injEq] at h
  exact ⟨h.2, h.1⟩

def answerTo (answers : List (Text × Json)) (key : Text) : Option Json :=
  (Json.object answers).get key

theorem answerTo_append_self (answers : List (Text × Json)) (key : Text) (answer : Json) :
    answerTo (answers ++ [(key, answer)]) key = some answer := by
  simp [answerTo, Json.get]

theorem answerTo_append_ne (answers : List (Text × Json)) {key other : Text} (answer : Json)
    (h : key ≠ other) : answerTo (answers ++ [(other, answer)]) key = answerTo answers key := by
  simp [answerTo, Json.get, List.lookup_cons, beq_false_of_ne h]

theorem confirmKey_ne_rootsKey : confirmKey ≠ rootsKey := by decide

def longestTicks : ℕ → ℕ → Text → ℕ
  | longest, _, [] => longest
  | longest, run, c :: s =>
    if c = '\x60' then longestTicks (max longest (run + 1)) (run + 1) s
    else longestTicks longest 0 s

def fenced (content info : Text) : Text :=
  let fence := List.replicate (max (longestTicks 0 0 content) 2 + 1) '\x60'
  fence ++ info ++ '\n' :: content ++ '\n' :: fence

def named (toolName : Text) : Text :=
  if toolName ≠ [] ∧
      toolName.all fun c => c.isAlphanum || c == '_' || c == '-' || c == '.' then
    '\x60' :: toolName ++ ['\x60']
  else '\n' :: fenced toolName []

def confirmMessage (toolName summary : Text) (command : Option Text) : Text :=
  "Confirm destructive operation: " ++ named toolName ++ "\n\n**Arguments:**\n" ++
    fenced summary "json" ++ ['\n'] ++
    (match command with
      | some cmd => "\n**Command:**\n" ++ fenced cmd "sh" ++ ['\n']
      | none => []) ++
    "\nProceed?"

def confirmDestructiveRequest (toolName summary : Text) (command : Option Text) : Json :=
  .object
    [("message", .string (confirmMessage toolName summary command)),
      ("mode", .string "form"),
      ("requestedSchema", .object
        [("properties", .object
          [("confirm", .object
            [("default", .bool false),
              ("description",
                .string "Set to true to execute the destructive operation"),
              ("type", .string "boolean")])]),
          ("required", .array [.string "confirm"]),
          ("type", .string "object")])]

/-- Both halves are needed: the form was accepted and its box was ticked. -/
def destructiveConfirmationGranted (answer : Json) : Bool :=
  if (answer.get "action".toList).bind Json.asStr ≠ some "accept".toList then false
  else (((answer.get "content".toList).bind (Json.get · "confirm".toList)).bind
    Json.asBool).getD false

def truncateChars (s : Text) (maxChars : ℕ) : Text :=
  if s.length ≤ maxChars then s else s.take maxChars

def argumentsSummary (render : Json → Text) : Option Json → Text
  | none => "(no arguments)"
  | some v =>
    if (render v).length > 300 then truncateChars (render v) 300 ++ "… (truncated)"
    else render v

def planCommandFromArgs (arguments : Option Json) : Option Text :=
  ((arguments.bind (Json.get · "command")).bind Json.asStr).map fun cmd =>
    if cmd.length > 2000 then truncateChars cmd 2000 ++ "\n… (command truncated)" else cmd

section
variable {Token Digest : Type}

inductive Confirmation where
  | notRequired
  | granted
  | ask (request : Json)
  | refused (message : Text)

def ticked (name : Text) : Text := '\x60' :: name ++ ['\x60']

def refusalText (name : Text) (answer : Json) : Text :=
  match (answer.get "action").bind Json.asStr with
  | some action =>
    if action = "decline" then
      "User declined execution of destructive tool " ++ ticked name ++ ['.']
    else if action = "cancel" then
      "User cancelled confirmation for destructive tool " ++ ticked name ++ ['.']
    else
      "Confirmation for destructive tool " ++ ticked name ++
        " was not granted; the operation was not run."
  | none =>
    "Confirmation for destructive tool " ++ ticked name ++
      " was not granted; the operation was not run."

def confirmationNeeded (server : Server Token Digest) (call : ToolCallParams Token)
    (session : Option SessionContext) (answers : List (Text × Json)) : Confirmation :=
  if !server.requireElicitationOnDestructive then .notRequired
  else if !destructiveHint call.name then .notRequired
  else
    match answerTo answers confirmKey with
    | some answer =>
      if destructiveConfirmationGranted answer then .granted
      else .refused (refusalText call.name answer)
    | none =>
      match session with
      | none =>
        .refused ("Tool " ++ ticked call.name ++
          (" is destructive and `require_elicitation_on_destructive` is enabled, but no " ++
            "session context is available — the operation cannot be confirmed.").toList)
      | some session =>
        if !session.supportsElicitation then
          .refused ("Tool " ++ ticked call.name ++
            (" is destructive and `require_elicitation_on_destructive` is enabled, but the " ++
              "client did not declare the `elicitation` capability on this request. Either " ++
              "declare it in `_meta` or set `security.require_elicitation_on_destructive: " ++
              "false`.").toList)
        else
          .ask (.object [("method", .string "elicitation/create"),
            ("params", confirmDestructiveRequest call.name
              (argumentsSummary server.render call.arguments)
              (planCommandFromArgs call.arguments))])

def optionString : Option Json → Option (Option Text)
  | none => some none
  | some .null => some none
  | some (.string s) => some (some s)
  | some _ => none

/-- A struct is read from an object or from the sequence of its fields. -/
def RootEntry.fromValue : Json → Option RootEntry
  | .object members => do
      let uri ← ((Json.object members).get "uri").bind Json.asStr
      let name ← optionString ((Json.object members).get "name")
      some ⟨uri, name⟩
  | .array [uri, name] => do
      let uri ← uri.asStr
      let name ← optionString (some name)
      some ⟨uri, name⟩
  | _ => none

def rootsOf (answer : Json) : List RootEntry :=
  let items := match answer with
    | .array [items] => items.asArray
    | answer => (answer.get "roots").bind Json.asArray
  ((items.bind fun items => items.mapM RootEntry.fromValue)).getD []

inductive ConfirmGate (Token : Type) where
  | proceed (roots : List RootEntry)
  | needInput (result : InputRequiredResult Token)
  | refuse (message : Text)
  | badState (message : Text)

/-- The wall clock as one request reads it, in seconds. -/
structure Clock where
  resume : ℕ
  verify : ℕ
  issue : ℕ

def callDigest (server : Server Token Digest) (name : Text) (arguments : Option Json) : Digest :=
  server.paramsDigest (salient name arguments)

def rootsAsked (call : ToolCallParams Token) (session : Option SessionContext) : Bool :=
  rootScopedTools.contains call.name && (session.map SessionContext.supportsRoots).getD false

/-- The answers that count: those that came with a state that verifies. -/
def verifiedAnswers [DecidableEq Digest] (server : Server Token Digest) (clock : Clock)
    (call : ToolCallParams Token) (session : Option SessionContext) :
    Except StateError (List (Text × Json)) :=
  match call.requestState with
  | some state =>
    match verify server.signer clock.verify state (requestPrincipal session) toolsCallMethod
        (callDigest server call.name call.arguments) with
    | .error e => .error e
    | .ok _ => .ok (call.inputResponses.getD [])
  | none => .ok []

def pendingRequests (confirm : Option Json) (askRoots : Bool) : List (Text × Json) :=
  (if askRoots then
    [(rootsKey, .object [("method", .string "roots/list"),
      ("params", .object [])])]
  else []) ++ (confirm.map fun request => (confirmKey, request)).toList

theorem pendingRequests_none : pendingRequests none false = [] := rfl

theorem mem_pendingRequests (request : Json) (askRoots : Bool) :
    (confirmKey, request) ∈ pendingRequests (some request) askRoots :=
  List.mem_append_right _ List.mem_cons_self

theorem pendingRequests_some (request : Json) (askRoots : Bool) :
    ¬ (pendingRequests (some request) askRoots).isEmpty = true := by
  intro hempty
  have hmem := mem_pendingRequests request askRoots
  rw [List.isEmpty_iff.mp hempty] at hmem
  cases hmem

def gateState (server : Server Token Digest) (now : ℕ) (session : Option SessionContext)
    (name : Text) (arguments : Option Json) : Token :=
  issue server.signer now (requestPrincipal session) toolsCallMethod
    (callDigest server name arguments) (.object [("tool", .string name)])

def askOrProceed (server : Server Token Digest) (clock : Clock) (call : ToolCallParams Token)
    (session : Option SessionContext) (answers : List (Text × Json)) (confirm : Option Json) :
    ConfirmGate Token :=
  let rootsAnswer := answerTo answers rootsKey
  let pending := pendingRequests confirm (rootsAsked call session && rootsAnswer.isNone)
  if pending.isEmpty then
    .proceed (if rootsAsked call session then (rootsAnswer.map rootsOf).getD [] else [])
  else
    .needInput
      { inputRequests := pending
        requestState := gateState server clock.issue session call.name call.arguments }

def checkDestructiveElicitation [DecidableEq Digest] (server : Server Token Digest)
    (clock : Clock) (call : ToolCallParams Token) (session : Option SessionContext) :
    ConfirmGate Token :=
  match verifiedAnswers server clock call session with
  | .error e => .badState e.clientMessage
  | .ok answers =>
    match confirmationNeeded server call session answers with
    | .notRequired | .granted => askOrProceed server clock call session answers none
    | .refused message => .refuse message
    | .ask request => askOrProceed server clock call session answers (some request)

def samplingAnswerText (answer : Json) : Option Text :=
  ((answer.get "content").bind (Json.get · "text")).bind Json.asStr

def appendSummary (result : SealedResult) (summary : Text) : SealedResult :=
  { result with
    text := result.text ++ (if ['\n'].isSuffixOf result.text then [] else ['\n']) ++
      "\n=== LLM SUMMARY ===\n" ++ summary }

def i32OfJson : Json → Option ℤ
  | .number (.posInt n) => if n < 2 ^ 31 then some n else none
  | .number (.negInt n) => if n ≤ 2 ^ 31 then some (-n) else none
  | _ => none

def i32ToJson (z : ℤ) : Json :=
  .number (if z < 0 then .negInt z.natAbs else .posInt z.natAbs)

def SealedResult.toValue (r : SealedResult) : Json :=
  .object ([("is_error".toList, .bool r.isError)] ++
    (r.remoteExitCode.map fun code => ("remote_exit_code".toList, i32ToJson code)).toList ++
    (r.structured.map fun v => ("structured".toList, v)).toList ++
    [("text".toList, .string r.text)])

/-- An absent member takes the default; `null` is an absent `Option` and a bad `bool`. Only what
`toValue` wrote, an object, is ever read back. -/
def SealedResult.fromValue (v : Json) : Option SealedResult := do
  let text ← (v.get "text").bind Json.asStr
  let structured := match v.get "structured" with
    | some .null => none
    | structured => structured
  let isError ← match v.get "is_error" with
    | none => some false
    | some b => b.asBool
  let remoteExitCode ← match v.get "remote_exit_code" with
    | none | some .null => some none
    | some code => (i32OfJson code).map some
  some { text, structured, isError, remoteExitCode }

inductive SealedResume where
  | none
  | done (result : SealedResult)
  | badState (message : Text)

def isSampleAnswer (member : Text × Json) : Bool := sampleKeyPrefix.isPrefixOf member.1

/-- `resume_sealed_result`: a retry is answered from its own state when that carries a result. -/
def resumeSealedResult [DecidableEq Digest] (server : Server Token Digest) (clock : Clock)
    (call : ToolCallParams Token) (session : Option SessionContext) : SealedResume :=
  match call.requestState, call.inputResponses with
  | some state, some answers =>
    if !answers.any isSampleAnswer then .none
    else
      match verify server.signer clock.resume state (requestPrincipal session) toolsCallMethod
          (callDigest server call.name call.arguments) with
      | .error e => .badState e.clientMessage
      | .ok context =>
        match (context.get sealedKey).bind SealedResult.fromValue with
        | none => .none
        | some result => .done <|
            ((answers.filter isSampleAnswer).filterMap fun member =>
              samplingAnswerText member.2).foldl appendSummary result
  | _, _ => .none

def maxSealedResultBytes : ℕ := 48 * 1024

def sampleRequests (requests : List Json) : List (Text × Json) :=
  requests.mapIdx fun i request => (sampleKeyPrefix ++ Nat.toDigits 10 i, request)

def sealForInput (server : Server Token Digest) (now : ℕ) (name : Text)
    (arguments : Option Json) (session : Option SessionContext) (result : SealedResult)
    (requests : List Json) : Option (InputRequiredResult Token) :=
  if requests.isEmpty then none
  else if utf8Len (server.render result.toValue) > maxSealedResultBytes then none
  else some
    { inputRequests := sampleRequests requests
      requestState := issue server.signer now (requestPrincipal session) toolsCallMethod
        (callDigest server name arguments) (.object [(sealedKey, result.toValue)]) }

def unwrapCallTool : Option Json → Except Text (Text × Option Json)
  | none => .error (callTool ++
      (": missing arguments — expected \x7b\"name\": \"<tool>\", \"arguments\": " ++
        "\x7b…\x7d\x7d").toList)
  | some obj =>
    match (obj.get "name").bind Json.asStr with
    | some name =>
      if trim name ≠ [] then .ok (trim name, obj.get "arguments")
      else .error unnamed
    | none => .error unnamed
where
  unnamed : Text := callTool ++
    (": `name` (string, non-empty) is required. Use mcp_search_tools to discover tool " ++
      "names.").toList

/-- The call the gate sees: that of the inner tool for the generic dispatcher. -/
def innerCall (call : ToolCallParams Token) : Except Text (ToolCallParams Token) :=
  if call.name = callTool then
    match unwrapCallTool call.arguments with
    | .ok (name, arguments) => .ok { call with name, arguments }
    | .error message => .error message
  else .ok call

inductive Reply (Token : Type) where
  | invalidParams (message : Text)
  | toolError (message : Text)
  | metaTool
  | resumed (result : SealedResult)
  | inputRequired (result : InputRequiredResult Token)
  | started (roots : List RootEntry) (asTask : Bool)

/-- `handle_tools_call` up to the start of the tool, for params that are absent, did not decode or
are those of a call. -/
def handleToolsCall [DecidableEq Digest] (server : Server Token Digest) (clock : Clock)
    (session : Option SessionContext) (params : Option (Except Text (ToolCallParams Token))) :
    Reply Token :=
  match params with
  | none => .invalidParams "Missing params"
  | some (.error e) => .invalidParams ("Invalid params: " ++ e)
  | some (.ok call) =>
    match innerCall call with
    | .error message => .toolError message
    | .ok call =>
      if isMetaTool call.name then .metaTool
      else
        match resumeSealedResult server clock call session with
        | .done result => .resumed result
        | .badState message => .invalidParams message
        | .none =>
          match checkDestructiveElicitation server clock call session with
          | .proceed roots => .started roots
              (longRunningTools.contains call.name &&
                (session.map SessionContext.declaresTasks).getD false)
          | .needInput result => .inputRequired result
          | .refuse message => .toolError message
          | .badState message => .invalidParams message

end

end BridgeMcp.Mcp
