import BridgeMcp.Mcp.Confirmation

/-!
How long a granted confirmation lasts.

The gate asks for a confirmation and for the client's roots at once, and issues one state for both
questions. A retry that answers only the first gets a fresh state with the second, so the grant
outlives the state it was asked with, by another `ttlSecs` at each such retry.
-/
namespace BridgeMcp.Mcp
open TextLib JsonLib RequestState TransitionLib List

section
variable {Token Digest : Type} {server : Server Token Digest} {clock : Clock}
  {call : ToolCallParams Token} {session : Option SessionContext} {s : ServerState Token}
  [DecidableEq Digest]

theorem destructive_name {name : Text} (h : destructiveHint name = true) :
    name ≠ callTool ∧ isMetaTool name = false := by
  have hall : destructiveTools.all (fun name => name != callTool && !isMetaTool name) = true := by
    decide +kernel
  have hname := all_eq_true.mp hall name (elem_iff.mp h)
  simpa using hname

theorem innerCall_of_ne (h : call.name ≠ callTool) : innerCall call = .ok call := if_neg h

theorem innerCall_withState {inner : ToolCallParams Token} (state : Token)
    (h : innerCall call = .ok inner) :
    innerCall { call with requestState := some state } =
      .ok { inner with requestState := some state } := by
  unfold innerCall at h ⊢
  dsimp only
  split at h
  · next hname =>
      rw [if_pos hname]
      split at h
      · next hunwrap => rw [← Except.ok.inj h]
      · cases h
  · next hname => rw [if_neg hname, ← Except.ok.inj h]

theorem resumeSealedResult_gateState {issued : ℕ}
    (hstate : call.requestState = some (gateState server issued session call.name call.arguments))
    (hlive : clock.resume < min (issued + ttlSecs) (2 ^ 64 - 1)) :
    resumeSealedResult server clock call session = .none := by
  unfold resumeSealedResult
  rw [hstate]
  cases call.inputResponses with
  | none => rfl
  | some answers =>
    dsimp only
    rw [gateState, verify_issue hlive]
    split
    · rfl
    · rfl

section
variable {inner : ToolCallParams Token} (hinner : innerCall call = .ok inner)
  (hdestructive : destructiveHint inner.name = true)
  (hresume : resumeSealedResult server clock inner session = .none)
include hinner hdestructive hresume

theorem step_asked {result : InputRequiredResult Token}
    (hgate : checkDestructiveElicitation server clock inner session = .needInput result) :
    step server s (.toolsCall clock session (some (.ok call))) =
      some ⟨s.running, .asked
        ⟨clock.issue, requestPrincipal session, inner.name, inner.arguments, result⟩ ::
          s.history⟩ := by
  have hreply : handleToolsCall server clock session (some (.ok call)) = .inputRequired result := by
    unfold handleToolsCall
    simp only [hinner, (destructive_name hdestructive).2, hresume, hgate, Bool.false_eq_true,
      if_false]
  unfold step
  simp only [hinner, hreply, ServerState.replied]

theorem step_passed {roots : List RootEntry}
    (hgate : checkDestructiveElicitation server clock inner session = .proceed roots) :
    ∃ s', step server s (.toolsCall clock session (some (.ok call))) = some s' ∧
      s'.history = .passed ⟨clock.verify, session, inner⟩ :: s.history := by
  have hreply : ∃ asTask, handleToolsCall server clock session (some (.ok call)) =
      .started roots asTask := by
    unfold handleToolsCall
    simp only [hinner, (destructive_name hdestructive).2, hresume, hgate, Bool.false_eq_true,
      if_false]
    exact ⟨_, rfl⟩
  obtain ⟨asTask, hreply⟩ := hreply
  refine ⟨s.replied clock session inner (.started roots asTask), ?_, rfl⟩
  unfold step
  simp only [hinner, hreply]

end

theorem gate_first (hrequire : server.requireElicitationOnDestructive = true)
    (hdestructive : destructiveHint call.name = true) (hstate : call.requestState = none)
    (helicitation : (session.map SessionContext.supportsElicitation) = some true) :
    ∃ requests, checkDestructiveElicitation server clock call session =
      .needInput ⟨requests, gateState server clock.issue session call.name call.arguments⟩ := by
  have hanswers : verifiedAnswers server clock call session = .ok [] := by
    unfold verifiedAnswers
    rw [hstate]
  obtain ⟨session, rfl, hsession⟩ := Option.map_eq_some_iff.mp helicitation
  have hnone : answerTo [] confirmKey = none := rfl
  unfold checkDestructiveElicitation confirmationNeeded
  simp only [hanswers, hrequire, hdestructive, hnone, hsession, Bool.not_true, Bool.false_eq_true,
    if_false]
  exact ⟨_, if_neg (pendingRequests_some _ _)⟩

def Clock.still (now : ℕ) : Clock := ⟨now, now, now⟩

def capable : SessionContext := ⟨true, true, false⟩

def plainCall (Token : Type) (name : Text) (arguments : Option Json) : ToolCallParams Token :=
  ⟨name, arguments, none, none⟩

theorem step_plainCall (hrequire : server.requireElicitationOnDestructive = true) {name : Text}
    (arguments : Option Json) (hdestructive : destructiveHint name = true) (now : ℕ) :
    ∃ requests, step server s (.toolsCall (.still now) (some capable)
        (some (.ok (plainCall Token name arguments)))) =
      some ⟨s.running, .asked ⟨now, [], name, arguments,
        ⟨requests, gateState server now (some capable) name arguments⟩⟩ :: s.history⟩ := by
  have hgate : ∃ requests, checkDestructiveElicitation server (.still now)
      (plainCall Token name arguments) (some capable) =
        .needInput ⟨requests, gateState server now (some capable) name arguments⟩ :=
    gate_first hrequire hdestructive rfl rfl
  obtain ⟨requests, hgate⟩ := hgate
  have hdirect : innerCall (plainCall Token name arguments) = .ok (plainCall Token name arguments) :=
    innerCall_of_ne (destructive_name hdestructive).1
  exact ⟨requests, step_asked hdirect hdestructive rfl hgate⟩

section
variable (session call) (hrequire : server.requireElicitationOnDestructive = true)
  (hdestructive : destructiveHint call.name = true) (hgrant : CarriesGrant call) {issued now : ℕ}
  (hstate : call.requestState = some (gateState server issued session call.name call.arguments))
  (hlive : now < min (issued + ttlSecs) (2 ^ 64 - 1))
include hrequire hdestructive hgrant hstate hlive

theorem gate_granted : checkDestructiveElicitation server (.still now) call session =
    askOrProceed server (.still now) call session (call.inputResponses.getD []) none := by
  obtain ⟨answer, hanswer, hyes⟩ := hgrant
  have hanswers : verifiedAnswers server (.still now) call session =
      .ok (call.inputResponses.getD []) := by
    unfold verifiedAnswers
    rw [hstate]
    dsimp only
    rw [gateState, verify_issue (show (Clock.still now).verify < _ from hlive)]
  unfold checkDestructiveElicitation confirmationNeeded
  simp only [hanswers, hrequire, hdestructive, hanswer, hyes, Bool.not_true, Bool.false_eq_true,
    if_false, if_true]

theorem step_grantedOnly {outer : ToolCallParams Token} (hinner : innerCall outer = .ok call)
    (hasked : rootsAsked call session = true)
    (hmissing : answerTo (call.inputResponses.getD []) rootsKey = none) :
    step server s (.toolsCall (.still now) session (some (.ok outer))) =
      some ⟨s.running, .asked ⟨now, requestPrincipal session, call.name, call.arguments,
        ⟨pendingRequests none true, gateState server now session call.name call.arguments⟩⟩ ::
          s.history⟩ := by
  refine step_asked hinner hdestructive (resumeSealedResult_gateState hstate hlive) ?_
  rw [gate_granted call session hrequire hdestructive hgrant hstate hlive]
  unfold askOrProceed
  simp only [hasked, hmissing, Option.isNone_none, Bool.and_self]
  exact if_neg nofun

theorem step_grantedAll {answer : Json}
    (hroots : answerTo (call.inputResponses.getD []) rootsKey = some answer) :
    ∃ s', step server s (.toolsCall (.still now) session (some (.ok call))) = some s' ∧
      s'.history = .passed ⟨now, session, call⟩ :: s.history := by
  have hgate := gate_granted call session hrequire hdestructive hgrant hstate hlive
  unfold askOrProceed at hgate
  simp only [hroots, Option.isNone_some, Bool.and_false, pendingRequests_none, isEmpty_nil,
    if_true] at hgate
  exact step_passed (innerCall_of_ne (destructive_name hdestructive).1) hdestructive
    (resumeSealedResult_gateState hstate hlive) hgate

end

omit [DecidableEq Digest] in
theorem not_asksConfirmation_roots (state : Token) :
    ¬ AsksConfirmation ⟨pendingRequests none true, state⟩ := by
  rintro ⟨params, hmem⟩
  exact confirmKey_ne_rootsKey (congrArg Prod.fst (mem_singleton.mp hmem))

theorem unforged_of_asked {q : Asked Token} (hq : Happening.asked q ∈ s.history)
    (hstate : call.requestState = some q.result.requestState) :
    Unforged server s (.toolsCall clock session (some (.ok call))) := by
  intro state now principal method digest context hsome _
  exact ⟨q, hq, Option.some.inj (hstate.symm.trans hsome)⟩

omit [DecidableEq Digest] in
theorem rootsAnswered_direct (hdestructive : destructiveHint call.name = true)
    (h : CarriesGrant call → (answerTo (call.inputResponses.getD []) rootsKey).isSome = true) :
    (Event.toolsCall clock session (some (.ok call))).RootsAnswered := by
  intro inner hinner
  have hname := innerCall_of_ne (destructive_name hdestructive).1
  rw [← Except.ok.inj (hname.symm.trans hinner)]
  exact fun _ _ => h

omit [DecidableEq Digest] in
theorem not_carriesGrant_plainCall (name : Text) (arguments : Option Json) :
    ¬ CarriesGrant (plainCall Token name arguments) := by
  rintro ⟨answer, hanswer, _⟩
  cases hanswer

def withRoots (call : ToolCallParams Token) (state : Token) : ToolCallParams Token :=
  { call with
    requestState := some state
    inputResponses := some (call.inputResponses.getD [] ++ [(rootsKey, .null)]) }

omit [DecidableEq Digest] in
theorem answerTo_withRoots (call : ToolCallParams Token) (state : Token) :
    answerTo ((withRoots call state).inputResponses.getD []) rootsKey = some .null :=
  answerTo_append_self _ _ _

omit [DecidableEq Digest] in
theorem CarriesGrant.withRoots (h : CarriesGrant call) (state : Token) :
    CarriesGrant (withRoots call state) := by
  obtain ⟨answer, hanswer, hyes⟩ := h
  exact ⟨answer, (answerTo_append_ne _ _ confirmKey_ne_rootsKey).trans hanswer, hyes⟩

/-- The question at 0, the grant without the roots at 299, and the same grant with them at 598. -/
def chainHistory (server : Server Token Digest) (session : Option SessionContext)
    (call : ToolCallParams Token) (requests : List (Text × Json)) : List (Happening Token) :=
  let last := gateState server 299 session call.name call.arguments
  [.passed ⟨598, session, withRoots call last⟩,
    .asked ⟨299, [], call.name, call.arguments, ⟨pendingRequests none true, last⟩⟩,
    .asked ⟨0, [], call.name, call.arguments,
      ⟨requests, gateState server 0 (some capable) call.name call.arguments⟩⟩]

omit [DecidableEq Digest] in
theorem not_allConfirmed_chainHistory (requests : List (Text × Json))
    (hdestructive : destructiveHint call.name = true) :
    ¬ AllConfirmed (chainHistory server session call requests) := by
  intro hall
  obtain ⟨_, q, hq, _, _, _, hasks, htime⟩ := hall [] _ _ rfl hdestructive
  rcases mem_cons.mp hq with heq | hq
  · obtain rfl := Happening.asked.inj heq
    exact not_asksConfirmation_roots _ hasks
  · obtain rfl := Happening.asked.inj (mem_singleton.mp hq)
    have hlate : 598 ≤ 0 + 300 := htime
    exact absurd hlate (by decide)

theorem reaches_chainHistory (hrequire : server.requireElicitationOnDestructive = true)
    {inner : ToolCallParams Token} (hinner : innerCall call = .ok inner)
    (hbad : ¬ RootsAnswered session inner) :
    ∃ s requests, Reaches (step server) (fun s e => Unforged server s e ∧ (e.RootsAnswered ∨
        ∃ clock state, e = .toolsCall clock session
          (some (.ok { call with requestState := some state })))) initial s ∧
      s.history = chainHistory server session inner requests ∧
      destructiveHint inner.name = true := by
  simp only [RootsAnswered, Classical.not_imp, Option.isSome_iff_ne_none, not_not] at hbad
  obtain ⟨hdestructive, hasked, hgrant, hmissing⟩ := hbad
  obtain ⟨requests, hfirst⟩ := step_plainCall (s := initial) hrequire inner.arguments hdestructive 0
  set asked : Asked Token := ⟨0, [], inner.name, inner.arguments,
    ⟨requests, gateState server 0 (some capable) inner.name inner.arguments⟩⟩
  have hlive : 299 < min (0 + ttlSecs) (2 ^ 64 - 1) := by decide
  have hsecond := step_grantedOnly (s := ⟨[], [.asked asked]⟩)
    { inner with requestState := some asked.result.requestState } session hrequire hdestructive
    hgrant rfl hlive (innerCall_withState asked.result.requestState hinner) hasked hmissing
  set again : Asked Token := ⟨299, [], inner.name, inner.arguments,
    ⟨pendingRequests none true, gateState server 299 session inner.name inner.arguments⟩⟩
  have hlive : 598 < min (299 + ttlSecs) (2 ^ 64 - 1) := by decide
  obtain ⟨s, hthird, hhistory⟩ := step_grantedAll (s := ⟨[], [.asked again, .asked asked]⟩)
    (withRoots inner again.result.requestState) session hrequire hdestructive (hgrant.withRoots _)
    rfl hlive (answerTo_withRoots inner _)
  refine ⟨s, requests, ((Reaches.refl.tail ?first hfirst).tail ?second hsecond).tail ?third hthird,
    hhistory, hdestructive⟩
  case first =>
    refine ⟨nofun, .inl (rootsAnswered_direct hdestructive fun hgrant => ?_)⟩
    exact absurd hgrant (not_carriesGrant_plainCall _ _)
  case second => exact ⟨unforged_of_asked (q := asked) mem_cons_self rfl, .inr ⟨_, _, rfl⟩⟩
  case third =>
    refine ⟨unforged_of_asked (q := again) mem_cons_self rfl,
      .inl (rootsAnswered_direct hdestructive fun _ => ?_)⟩
    exact Option.isSome_of_eq_some (answerTo_withRoots inner _)

/-- In a run without a retry that grants its confirmation and leaves its roots open, every
destructive call that passes the gate was confirmed in answer to a question put at most `ttlSecs`
before. Any such retry, with a state of the client's choice, can be led to the contrary. -/
theorem destructive_calls_confirmed (server : Server Token Digest)
    (hrequire : server.requireElicitationOnDestructive = true)
    (hdigest : Function.Injective server.paramsDigest) :
    (∀ s, Reaches (step server) (fun s e => Unforged server s e ∧ e.RootsAnswered) initial s →
      AllConfirmed s.history) ∧
    ∀ clock session call,
      ¬ (Event.toolsCall clock session (some (.ok call)) : Event Token).RootsAnswered →
      ∃ s, Reaches (step server) (fun s e => Unforged server s e ∧ (e.RootsAnswered ∨
          ∃ clock state, e = .toolsCall clock session
            (some (.ok { call with requestState := some state })))) initial s ∧
        ¬ AllConfirmed s.history := by
  constructor
  · intro s hreaches
    have hsound : Sound server s.history := by
      apply hreaches.invariant (P := fun s => Sound server s.history) sound_initial
      intro s e s' hsound hallowed hstep
      exact hsound.step hrequire hdigest hallowed.1 hallowed.2 hstep
    exact hsound.confirmed
  · intro clock session call hbad
    simp only [Event.RootsAnswered, not_forall] at hbad
    obtain ⟨inner, hinner, hbad⟩ := hbad
    obtain ⟨s, requests, hreaches, hhistory, hdestructive⟩ :=
      reaches_chainHistory hrequire hinner hbad
    refine ⟨s, hreaches, ?_⟩
    rw [hhistory]
    exact not_allConfirmed_chainHistory requests hdestructive

end

/-! A server whose digest is the parameters themselves and whose states are their payloads, asked
to write a file -/

noncomputable instance : DecidableEq Json := Classical.decEq Json

def plainSigner : Signer (Payload Json) Json := ⟨id, .ok, fun _ => rfl⟩

def writeArguments : Json :=
  .object [("content", .string "x"), ("host", .string "prod"),
    ("path", .string "/etc/motd")]

def plainServer : Server (Payload Json) Json where
  signer := plainSigner
  paramsDigest := id
  render _ := "\x7b\"content\":\"x\",\"host\":\"prod\",\"path\":\"/etc/motd\"\x7d"
  requireElicitationOnDestructive := true

def grantedWrite : ToolCallParams (Payload Json) where
  name := "ssh_file_write"
  arguments := some writeArguments
  inputResponses := some [(confirmKey, .object [("action", .string "accept"),
    ("content", .object [("confirm", .bool true)])])]
  requestState := none

theorem grantedWrite_carriesGrant : CarriesGrant grantedWrite := ⟨_, rfl, by decide +kernel⟩

theorem destructiveHint_grantedWrite : destructiveHint grantedWrite.name = true := by
  decide +kernel

theorem destructive_calls_confirmed_write :
    plainServer.requireElicitationOnDestructive = true ∧
      Function.Injective plainServer.paramsDigest ∧
      ∃ s p, Reaches (step plainServer) (fun s e => Unforged plainServer s e ∧ e.RootsAnswered)
          initial s ∧ s.history.head? = some (.passed p) ∧ p.call.name = grantedWrite.name ∧
        AllConfirmed s.history := by
  have hrequire : plainServer.requireElicitationOnDestructive = true := rfl
  have hdigest : Function.Injective plainServer.paramsDigest := Function.injective_id
  have hdestructive := destructiveHint_grantedWrite
  obtain ⟨requests, hfirst⟩ := step_plainCall (s := initial) hrequire (some writeArguments)
    hdestructive 0
  set asked : Asked (Payload Json) := ⟨0, [], grantedWrite.name, some writeArguments,
    ⟨requests, gateState plainServer 0 (some capable) grantedWrite.name (some writeArguments)⟩⟩
  have hlive : 10 < min (0 + ttlSecs) (2 ^ 64 - 1) := by decide
  obtain ⟨s, hsecond, hhistory⟩ := step_grantedAll (s := ⟨[], [.asked asked]⟩)
    (withRoots grantedWrite asked.result.requestState) (some capable) hrequire hdestructive
    (grantedWrite_carriesGrant.withRoots _) rfl hlive (answerTo_withRoots _ _)
  have hreaches : Reaches (step plainServer)
      (fun s e => Unforged plainServer s e ∧ e.RootsAnswered) initial s := by
    refine (Reaches.refl.tail ?first hfirst).tail ?second hsecond
    case first =>
      refine ⟨nofun, rootsAnswered_direct hdestructive fun hgrant => ?_⟩
      exact absurd hgrant (not_carriesGrant_plainCall _ _)
    case second =>
      refine ⟨unforged_of_asked (q := asked) mem_cons_self rfl,
        rootsAnswered_direct hdestructive fun _ => ?_⟩
      exact Option.isSome_of_eq_some (answerTo_withRoots _ _)
  exact ⟨hrequire, hdigest, s, _, hreaches, congrArg head? hhistory, rfl,
    (destructive_calls_confirmed plainServer hrequire hdigest).1 s hreaches⟩

/-- Granted without roots at 299 and with them at 598: the write passes on a question put 598
seconds before. -/
theorem grant_outlives_question :
    plainServer.requireElicitationOnDestructive = true ∧
      Function.Injective plainServer.paramsDigest ∧
      ∃ s requests, Reaches (step plainServer) (Unforged plainServer) initial s ∧
        s.history = chainHistory plainServer (some capable) grantedWrite requests ∧
        ¬ AllConfirmed s.history := by
  have hbad : ¬ RootsAnswered (some capable) grantedWrite := by
    intro hroots
    have hasked : rootsAsked grantedWrite (some capable) = true := by decide +kernel
    have hsome := hroots destructiveHint_grantedWrite hasked grantedWrite_carriesGrant
    exact absurd hsome (by decide +kernel)
  have hrequire : plainServer.requireElicitationOnDestructive = true := rfl
  have hdirect := innerCall_of_ne (destructive_name destructiveHint_grantedWrite).1
  obtain ⟨s, requests, hreaches, hhistory, hdestructive⟩ :=
    reaches_chainHistory hrequire hdirect hbad
  refine ⟨hrequire, Function.injective_id, s, requests, hreaches.mono fun _ _ h => h.1, hhistory, ?_⟩
  rw [hhistory]
  exact not_allConfirmed_chainHistory requests hdestructive

end BridgeMcp.Mcp
