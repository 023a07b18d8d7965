import BridgeMcp.Lib.Json

/-!
The signed `requestState` (`mcp/request_state.rs`): what the server binds into it and which checks
a presented state has to pass.

How a payload is spelled as a string and signed is kept in a `Signer`; the checks below read the
payload only.
-/
namespace BridgeMcp.Mcp.RequestState
open TextLib JsonLib

def ttlSecs : ℕ := 300

inductive StateError where
  | malformed
  | badSignature
  | expired
  | wrongPrincipal
  | wrongRequest
  deriving DecidableEq

def StateError.clientMessage : StateError → Text
  | .expired =>
    ("`requestState` has expired. Re-send the original request with no `requestState` and no " ++
      "`inputResponses` to start a fresh round trip.").toList
  | _ =>
    ("`requestState` is not valid for this request. Re-send the original request with no " ++
      "`requestState` and no `inputResponses` to start a fresh round trip.").toList

structure Payload (Digest : Type) where
  p : Text
  exp : ℕ
  m : Text
  d : Digest
  s : Json

/-- The string form of a payload: serialised, encoded and carrying a MAC. Opening a string checks
its shape and its MAC before the payload is looked at. -/
structure Signer (Token Digest : Type) where
  sign : Payload Digest → Token
  opened : Token → Except StateError (Payload Digest)
  opened_sign : ∀ payload, opened (sign payload) = .ok payload

variable {Token Digest : Type} {signer : Signer Token Digest} {now : ℕ} {state : Token}
  {principal method : Text} {paramsDigest : Digest} {context : Json}

/-- The payload of a state issued at `now`; the expiry saturates at the largest `u64`. -/
def payloadAt (now : ℕ) (principal method : Text) (paramsDigest : Digest) (context : Json) :
    Payload Digest where
  p := principal
  exp := min (now + ttlSecs) (2 ^ 64 - 1)
  m := method
  d := paramsDigest
  s := context

def issue (signer : Signer Token Digest) (now : ℕ) (principal method : Text)
    (paramsDigest : Digest) (context : Json) : Token :=
  signer.sign (payloadAt now principal method paramsDigest context)

/-- `verify`: the signature comes first, then expiry, principal and request, in this order. -/
def verify [DecidableEq Digest] (signer : Signer Token Digest) (now : ℕ) (state : Token)
    (principal method : Text) (paramsDigest : Digest) : Except StateError Json :=
  match signer.opened state with
  | .error e => .error e
  | .ok payload =>
    if payload.exp ≤ now then .error .expired
    else if payload.p ≠ principal then .error .wrongPrincipal
    else if payload.m ≠ method ∨ payload.d ≠ paramsDigest then .error .wrongRequest
    else .ok payload.s

theorem verify_ok [DecidableEq Digest]
    (h : verify signer now state principal method paramsDigest = .ok context) :
    ∃ payload, signer.opened state = .ok payload ∧ now < payload.exp ∧ payload.p = principal ∧
      payload.m = method ∧ payload.d = paramsDigest ∧ payload.s = context := by
  rw [verify] at h
  cases hopened : signer.opened state with
  | error e => simp [hopened] at h
  | ok payload =>
    rw [hopened] at h
    dsimp only at h
    split_ifs at h with hexp hp hreq
    obtain ⟨hm, hd⟩ := not_or.mp hreq
    refine ⟨payload, rfl, not_le.mp hexp, not_not.mp hp, not_not.mp hm, not_not.mp hd, ?_⟩
    exact Except.ok.inj h

theorem verify_issue [DecidableEq Digest] {issued : ℕ}
    (hlive : now < min (issued + ttlSecs) (2 ^ 64 - 1)) :
    verify signer now (issue signer issued principal method paramsDigest context) principal method
      paramsDigest = .ok context := by
  rw [verify, issue, signer.opened_sign]
  simpa [payloadAt] using hlive

theorem issued_of_verify_issue [DecidableEq Digest] {issued : ℕ} {principal' method' : Text}
    {digest' : Digest} {context' : Json}
    (h : verify signer now (issue signer issued principal' method' digest' context') principal
      method paramsDigest = .ok context) :
    now < issued + ttlSecs ∧ principal' = principal ∧ method' = method ∧
      digest' = paramsDigest ∧ context' = context := by
  obtain ⟨payload, hopened, hexp, hrest⟩ := verify_ok h
  rw [issue, signer.opened_sign] at hopened
  obtain rfl := Except.ok.inj hopened
  exact ⟨lt_of_lt_of_le hexp (min_le_left _ _), hrest⟩

end BridgeMcp.Mcp.RequestState
