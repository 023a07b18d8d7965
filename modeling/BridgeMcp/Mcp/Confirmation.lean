import BridgeMcp.Lib.Transition
import BridgeMcp.Mcp.ConfirmGate

/-!
Runs of the server as its clients drive it: any sequence of `tools/call` requests with any states
and answers, and tools that finish whenever they do. The history records each question that was put
to a client and each call that got past the gate.
-/
namespace BridgeMcp.Mcp
open TextLib JsonLib RequestState TransitionLib List Option

variable {Token Digest : Type}

/-- An `input_required` answer to a call. -/
structure Asked (Token : Type) where
  time : ℕ
  principal : Text
  name : Text
  arguments : Option Json
  result : InputRequiredResult Token

/-- A call that got past the gate, after the dispatcher was unwrapped. -/
structure Passed (Token : Type) where
  time : ℕ
  session : Option SessionContext
  call : ToolCallParams Token

inductive Happening (Token : Type) where
  | asked (question : Asked Token)
  | passed (call : Passed Token)

/-- The calls that are executing synchronously and all that happened, the latest first. -/
structure ServerState (Token : Type) where
  running : List (Passed Token)
  history : List (Happening Token)

/-- Clients send any request at any time; a tool that is running finishes with any result, having
recorded any requests for its client. -/
inductive Event (Token : Type) where
  | toolsCall (clock : Clock) (session : Option SessionContext)
      (params : Option (Except Text (ToolCallParams Token)))
  | finished (now : ℕ) (slot : ℕ) (result : SealedResult) (requests : List Json)

def initial : ServerState Token := ⟨[], []⟩

def ServerState.replied (s : ServerState Token) (clock : Clock) (session : Option SessionContext)
    (call : ToolCallParams Token) : Reply Token → ServerState Token
  | .inputRequired result =>
    let question : Asked Token :=
      ⟨clock.issue, requestPrincipal session, call.name, call.arguments, result⟩
    { s with history := .asked question :: s.history }
  | .started _ asTask =>
    let passed : Passed Token := ⟨clock.verify, session, call⟩
    { running := if asTask then s.running else passed :: s.running
      history := .passed passed :: s.history }
  | _ => s

/-- The end of a synchronous call: only the handlers of `summaryTools` record requests. -/
def ServerState.finished (server : Server Token Digest) (s : ServerState Token) (now slot : ℕ)
    (result : SealedResult) (requests : List Json) : Option (ServerState Token) :=
  match s.running[slot]? with
  | none => none
  | some p =>
    if requests ≠ [] ∧ p.call.name ∉ summaryTools then none
    else
      match sealForInput server now p.call.name p.call.arguments p.session result requests with
      | none => some { s with running := s.running.eraseIdx slot }
      | some asking =>
        let question : Asked Token :=
          ⟨now, requestPrincipal p.session, p.call.name, p.call.arguments, asking⟩
        some { running := s.running.eraseIdx slot, history := .asked question :: s.history }

def step [DecidableEq Digest] (server : Server Token Digest) (s : ServerState Token) :
    Event Token → Option (ServerState Token)
  | .toolsCall clock session params =>
    match params with
    | some (.ok call) =>
      match innerCall call with
      | .ok inner =>
        some (s.replied clock session inner (handleToolsCall server clock session params))
      | .error _ => some s
    | _ => some s
  | .finished now slot result requests => s.finished server now slot result requests

def CarriesGrant (call : ToolCallParams Token) : Prop :=
  ∃ answer, answerTo (call.inputResponses.getD []) confirmKey = some answer ∧
    destructiveConfirmationGranted answer = true

def AsksConfirmation (result : InputRequiredResult Token) : Prop :=
  ∃ params, (confirmKey, Json.object [("method", .string "elicitation/create"),
    ("params", params)]) ∈ result.inputRequests

/-- The call was confirmed, in answer to a question put not long before. -/
def FreshlyConfirmed (earlier : List (Happening Token)) (p : Passed Token) : Prop :=
  CarriesGrant p.call ∧
    ∃ q, Happening.asked q ∈ earlier ∧ q.principal = requestPrincipal p.session ∧
      q.name = p.call.name ∧ q.arguments.getD .null = p.call.arguments.getD .null ∧
      AsksConfirmation q.result ∧ p.time ≤ q.time + ttlSecs

def AllConfirmed (history : List (Happening Token)) : Prop :=
  ∀ later p earlier, history = later ++ .passed p :: earlier → destructiveHint p.call.name = true →
    FreshlyConfirmed earlier p

/-- A state verifies only if this server issued it. -/
def Unforged [DecidableEq Digest] (server : Server Token Digest) (s : ServerState Token) :
    Event Token → Prop
  | .toolsCall _ _ (some (.ok call)) =>
    ∀ state now principal method digest context, call.requestState = some state →
      verify server.signer now state principal method digest = .ok context →
      ∃ q, Happening.asked q ∈ s.history ∧ q.result.requestState = state
  | _ => True

/-- A call that is asked for its roots does not grant its confirmation without giving them. -/
def RootsAnswered (session : Option SessionContext) (call : ToolCallParams Token) : Prop :=
  destructiveHint call.name = true → rootsAsked call session = true → CarriesGrant call →
    (answerTo (call.inputResponses.getD []) rootsKey).isSome = true

def Event.RootsAnswered : Event Token → Prop
  | .toolsCall _ session (some (.ok call)) =>
    ∀ inner, innerCall call = .ok inner → Mcp.RootsAnswered session inner
  | _ => True

section
variable {server : Server Token Digest} {clock : Clock} {call : ToolCallParams Token}
  {session : Option SessionContext}

theorem confirmationNeeded_cases (session : Option SessionContext) (answers : List (Text × Json))
    (hrequire : server.requireElicitationOnDestructive = true)
    (hdestructive : destructiveHint call.name = true) :
    (confirmationNeeded server call session answers = .granted ∧
      ∃ answer, answerTo answers confirmKey = some answer ∧
        destructiveConfirmationGranted answer = true) ∨
    (∃ message, confirmationNeeded server call session answers = .refused message) ∨
    ∃ params, confirmationNeeded server call session answers =
      .ask (.object [("method", .string "elicitation/create"),
        ("params", params)]) := by
  unfold confirmationNeeded
  simp only [hrequire, hdestructive, Bool.not_true, Bool.false_eq_true, if_false]
  cases hanswer : answerTo answers confirmKey with
  | some answer =>
    cases hgranted : destructiveConfirmationGranted answer with
    | true => exact .inl ⟨if_pos hgranted, answer, rfl, hgranted⟩
    | false => exact .inr (.inl ⟨_, if_neg (by simp [hgranted])⟩)
  | none =>
    cases session with
    | none => exact .inr (.inl ⟨_, rfl⟩)
    | some session =>
      cases helicitation : session.supportsElicitation with
      | true => exact .inr (.inr ⟨_, if_neg (by simp [helicitation])⟩)
      | false => exact .inr (.inl ⟨_, if_pos (by simp [helicitation])⟩)

variable {answers : List (Text × Json)} {result : InputRequiredResult Token}

theorem askOrProceed_needInput {confirm : Option Json}
    (h : askOrProceed server clock call session answers confirm = .needInput result) :
    result.inputRequests = pendingRequests confirm
        (rootsAsked call session && (answerTo answers rootsKey).isNone) ∧
      result.inputRequests ≠ [] ∧
      result.requestState = gateState server clock.issue session call.name call.arguments := by
  unfold askOrProceed at h
  dsimp only at h
  split at h
  · cases h
  · next hpending =>
      obtain rfl := ConfirmGate.needInput.inj h
      exact ⟨rfl, mt isEmpty_iff.mpr hpending, rfl⟩

variable {roots : List RootEntry}

theorem askOrProceed_proceed {confirm : Option Json}
    (h : askOrProceed server clock call session answers confirm = .proceed roots) :
    confirm = none := by
  unfold askOrProceed at h
  dsimp only at h
  split at h
  · next hpending =>
      cases confirm with
      | none => rfl
      | some request => exact absurd hpending (pendingRequests_some _ _)
  · cases h

variable [DecidableEq Digest]

theorem verifiedAnswers_ok (h : verifiedAnswers server clock call session = .ok answers) :
    (call.requestState = none ∧ answers = []) ∨
    ∃ state context, call.requestState = some state ∧
      verify server.signer clock.verify state (requestPrincipal session) toolsCallMethod
        (callDigest server call.name call.arguments) = .ok context ∧
      answers = call.inputResponses.getD [] := by
  unfold verifiedAnswers at h
  cases hstate : call.requestState with
  | none =>
    rw [hstate] at h
    exact .inl ⟨rfl, (Except.ok.inj h).symm⟩
  | some state =>
    rw [hstate] at h
    dsimp only at h
    split at h
    · cases h
    · next context hverify =>
        exact .inr ⟨state, context, rfl, hverify, (Except.ok.inj h).symm⟩

theorem gate_proceed (hrequire : server.requireElicitationOnDestructive = true)
    (hdestructive : destructiveHint call.name = true)
    (h : checkDestructiveElicitation server clock call session = .proceed roots) :
    CarriesGrant call ∧ ∃ state context, call.requestState = some state ∧
      verify server.signer clock.verify state (requestPrincipal session) toolsCallMethod
        (callDigest server call.name call.arguments) = .ok context := by
  unfold checkDestructiveElicitation at h
  split at h
  · cases h
  · next answers hanswers =>
      rcases confirmationNeeded_cases session answers hrequire hdestructive with
        ⟨hgranted, answer, hanswer, hyes⟩ | ⟨message, hrefused⟩ | ⟨params, hask⟩
      · rcases verifiedAnswers_ok hanswers with ⟨_, rfl⟩ | ⟨state, context, hstate, hverify, rfl⟩
        · cases hanswer
        · exact ⟨⟨answer, hanswer, hyes⟩, state, context, hstate, hverify⟩
      · rw [hrefused] at h
        cases h
      · rw [hask] at h
        cases askOrProceed_proceed h

theorem gate_needInput
    (h : checkDestructiveElicitation server clock call session = .needInput result) :
    (∃ context, result.requestState = issue server.signer clock.issue (requestPrincipal session)
        toolsCallMethod (callDigest server call.name call.arguments) context) ∧
      (server.requireElicitationOnDestructive = true → destructiveHint call.name = true →
        RootsAnswered session call → AsksConfirmation result) := by
  unfold checkDestructiveElicitation at h
  split at h
  · cases h
  · next answers hanswers =>
      refine ⟨?_, fun hrequire hdestructive hroots => ?_⟩
      · split at h
        · exact ⟨_, (askOrProceed_needInput h).2.2⟩
        · exact ⟨_, (askOrProceed_needInput h).2.2⟩
        · cases h
        · exact ⟨_, (askOrProceed_needInput h).2.2⟩
      · rcases confirmationNeeded_cases session answers hrequire hdestructive with
          ⟨hgranted, answer, hanswer, hyes⟩ | ⟨message, hrefused⟩ | ⟨params, hask⟩
        · -- granted and still stopped: the roots were asked for, and not answered
          rw [hgranted] at h
          obtain ⟨hrequests, hne, _⟩ := askOrProceed_needInput h
          rcases verifiedAnswers_ok hanswers with ⟨_, rfl⟩ | ⟨_, _, _, _, rfl⟩
          · cases hanswer
          · have hsettled : (rootsAsked call session &&
                (answerTo (call.inputResponses.getD []) rootsKey).isNone) = false := by
              cases hasked : rootsAsked call session with
              | false => rfl
              | true =>
                have hsome := hroots hdestructive hasked ⟨answer, hanswer, hyes⟩
                rw [Bool.true_and, ← not_isSome, hsome, Bool.not_true]
            rw [hrequests, hsettled] at hne
            exact absurd pendingRequests_none hne
        · rw [hrefused] at h
          cases h
        · rw [hask] at h
          refine ⟨params, ?_⟩
          rw [(askOrProceed_needInput h).1]
          exact mem_pendingRequests _ _

variable {call inner : ToolCallParams Token}

theorem handleToolsCall_inner (hinner : innerCall call = .ok inner)
    (h : handleToolsCall server clock session (some (.ok call)) = .inputRequired result) :
    checkDestructiveElicitation server clock inner session = .needInput result := by
  unfold handleToolsCall at h
  simp only [hinner] at h
  split_ifs at h
  split at h
  · cases h
  · cases h
  · split at h
    · cases h
    · next hgate =>
        rw [hgate, Reply.inputRequired.inj h]
    · cases h
    · cases h

theorem handleToolsCall_started (hinner : innerCall call = .ok inner) {asTask : Bool}
    (h : handleToolsCall server clock session (some (.ok call)) = .started roots asTask) :
    checkDestructiveElicitation server clock inner session = .proceed roots := by
  unfold handleToolsCall at h
  simp only [hinner] at h
  split_ifs at h
  split at h
  · cases h
  · cases h
  · split at h
    · next hgate =>
        rw [hgate, (Reply.started.inj h).1]
    · cases h
    · cases h
    · cases h

theorem innerCall_requestState
    (h : innerCall call = .ok inner) : inner.requestState = call.requestState := by
  unfold innerCall at h
  split at h
  · split at h
    · rw [← Except.ok.inj h]
    · cases h
  · rw [← Except.ok.inj h]

/-- A question the server put, with a state bound to the call it was put for. -/
def Asked.Issued (server : Server Token Digest) (q : Asked Token) : Prop :=
  ∃ context, q.result.requestState = issue server.signer q.time q.principal toolsCallMethod
    (callDigest server q.name q.arguments) context

theorem summaryTools_not_destructive {name : Text} (h : name ∈ summaryTools) :
    destructiveHint name = false := by
  have hall : summaryTools.all (fun name => !destructiveHint name) = true := by decide +kernel
  simpa using all_eq_true.mp hall name h

inductive Adds (server : Server Token Digest) (s : ServerState Token) (e : Event Token) :
    List (Happening Token) → Prop where
  | nothing : Adds server s e s.history
  | asked (q : Asked Token) (hissued : q.Issued server)
      (hasks : server.requireElicitationOnDestructive = true → e.RootsAnswered →
        destructiveHint q.name = true → AsksConfirmation q.result) :
      Adds server s e (.asked q :: s.history)
  | passed (p : Passed Token)
      (hverified : server.requireElicitationOnDestructive = true → Unforged server s e →
        destructiveHint p.call.name = true → CarriesGrant p.call ∧
          ∃ q, Happening.asked q ∈ s.history ∧ ∃ context,
            verify server.signer p.time q.result.requestState (requestPrincipal p.session)
              toolsCallMethod (callDigest server p.call.name p.call.arguments) = .ok context) :
      Adds server s e (.passed p :: s.history)

variable {s s' : ServerState Token} {e : Event Token}

theorem toolsCall_adds (hinner : innerCall call = .ok inner) :
    Adds server s (.toolsCall clock session (some (.ok call)))
      (s.replied clock session inner
        (handleToolsCall server clock session (some (.ok call)))).history := by
  cases hreply : handleToolsCall server clock session (some (.ok call)) with
  | inputRequired result =>
    obtain ⟨hissued, hasks⟩ := gate_needInput (handleToolsCall_inner hinner hreply)
    exact .asked _ hissued fun hrequire hroots hdestructive =>
      hasks hrequire hdestructive (hroots inner hinner)
  | started roots asTask =>
    apply Adds.passed
    intro hrequire hunforged hdestructive
    obtain ⟨hgrant, state, context, hstate, hverify⟩ :=
      gate_proceed hrequire hdestructive (handleToolsCall_started hinner hreply)
    rw [innerCall_requestState hinner] at hstate
    obtain ⟨q, hq, rfl⟩ := hunforged state _ _ _ _ _ hstate hverify
    exact ⟨hgrant, q, hq, context, hverify⟩
  | invalidParams message => exact .nothing
  | toolError message => exact .nothing
  | metaTool => exact .nothing
  | resumed result => exact .nothing

theorem finished_adds {now slot : ℕ} {result : SealedResult} {requests : List Json}
    (h : s.finished server now slot result requests = some s') :
    Adds server s (.finished now slot result requests) s'.history := by
  unfold ServerState.finished at h
  split at h
  · cases h
  · next p hp =>
      split_ifs at h with hsummary
      split at h
      · rw [← some.inj h]
        exact .nothing
      · next asking hseal =>
          rw [← some.inj h]
          unfold sealForInput at hseal
          split_ifs at hseal with hrequests hsize
          -- a sealed result is bound to its call, and its tool is not a destructive one
          refine .asked _ ⟨_, (congrArg _ (some.inj hseal)).symm⟩ fun _ _ hdestructive => ?_
          have hmem : p.call.name ∈ summaryTools := by
            by_contra hout
            exact hsummary ⟨mt isEmpty_iff.mpr hrequests, hout⟩
          rw [summaryTools_not_destructive hmem] at hdestructive
          cases hdestructive

theorem step_adds (h : step server s e = some s') : Adds server s e s'.history := by
  cases e with
  | toolsCall clock session params =>
    unfold step at h
    dsimp only at h
    split at h
    · next call =>
        split at h
        · next inner hinner =>
            rw [← some.inj h]
            exact toolsCall_adds hinner
        · rw [← some.inj h]
          exact .nothing
    · rw [← some.inj h]
      exact .nothing
  | finished now slot result requests => exact finished_adds h

variable {history : List (Happening Token)}

theorem allConfirmed_asked {q : Asked Token} (h : AllConfirmed history) :
    AllConfirmed (.asked q :: history) := by
  intro later p earlier hsplit hdestructive
  cases later with
  | nil => cases hsplit
  | cons _ later => exact h later p earlier (cons.inj hsplit).2 hdestructive

theorem allConfirmed_passed {p : Passed Token} (h : AllConfirmed history)
    (hp : destructiveHint p.call.name = true → FreshlyConfirmed history p) :
    AllConfirmed (.passed p :: history) := by
  intro later p' earlier hsplit hdestructive
  cases later with
  | nil =>
    obtain ⟨hhead, rfl⟩ := cons.inj hsplit
    obtain rfl := Happening.passed.inj hhead
    exact hp hdestructive
  | cons _ later => exact h later p' earlier (cons.inj hsplit).2 hdestructive

/-- What the history keeps: questions carry their own states, those about destructive tools ask
for the confirmation, and every destructive call that passed was confirmed. -/
structure Sound (server : Server Token Digest) (history : List (Happening Token)) : Prop where
  issued : ∀ q, Happening.asked q ∈ history → q.Issued server
  asks : ∀ q, Happening.asked q ∈ history → destructiveHint q.name = true →
    AsksConfirmation q.result
  confirmed : AllConfirmed history

theorem freshlyConfirmed_of_verify {history : List (Happening Token)} {p : Passed Token}
    {q : Asked Token} {context : Json} (hdigest : Function.Injective server.paramsDigest)
    (hsound : Sound server history) (hdestructive : destructiveHint p.call.name = true)
    (hgrant : CarriesGrant p.call) (hq : Happening.asked q ∈ history)
    (hverify : verify server.signer p.time q.result.requestState (requestPrincipal p.session)
      toolsCallMethod (callDigest server p.call.name p.call.arguments) = .ok context) :
    FreshlyConfirmed history p := by
  obtain ⟨issuedWith, hstate⟩ := hsound.issued q hq
  rw [hstate] at hverify
  obtain ⟨htime, hprincipal, _, hsame, _⟩ := issued_of_verify_issue hverify
  obtain ⟨hname, harguments⟩ := salient_inj (hdigest hsame)
  refine ⟨hgrant, q, hq, hprincipal, hname, harguments, ?_, htime.le⟩
  exact hsound.asks q hq (hname ▸ hdestructive)

theorem Sound.step (hrequire : server.requireElicitationOnDestructive = true)
    (hdigest : Function.Injective server.paramsDigest) (hsound : Sound server s.history)
    (hunforged : Unforged server s e) (hroots : e.RootsAnswered)
    (h : step server s e = some s') : Sound server s'.history := by
  have hadds := step_adds h
  generalize s'.history = history at hadds ⊢
  cases hadds with
  | nothing => exact hsound
  | asked q hissued hasks =>
    constructor
    · intro q' hq'
      rcases mem_cons.mp hq' with heq | hq'
      · exact Happening.asked.inj heq ▸ hissued
      · exact hsound.issued q' hq'
    · intro q' hq'
      rcases mem_cons.mp hq' with heq | hq'
      · exact Happening.asked.inj heq ▸ hasks hrequire hroots
      · exact hsound.asks q' hq'
    · exact allConfirmed_asked hsound.confirmed
  | passed p hverified =>
    constructor
    · intro q hq
      exact hsound.issued q ((mem_cons.mp hq).resolve_left nofun)
    · intro q hq
      exact hsound.asks q ((mem_cons.mp hq).resolve_left nofun)
    · apply allConfirmed_passed hsound.confirmed
      intro hdestructive
      obtain ⟨hgrant, q, hq, context, hverify⟩ := hverified hrequire hunforged hdestructive
      exact freshlyConfirmed_of_verify hdigest hsound hdestructive hgrant hq hverify

omit [DecidableEq Digest] in
theorem sound_initial : Sound server (initial : ServerState Token).history where
  issued := nofun
  asks := nofun
  confirmed := by
    intro later p earlier hsplit
    cases later <;> cases hsplit

end

end BridgeMcp.Mcp
