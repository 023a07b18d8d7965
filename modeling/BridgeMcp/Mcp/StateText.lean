import BridgeMcp.Lib.Base64
import BridgeMcp.Lib.TextScan
import BridgeMcp.Lib.Utf8Bytes
import BridgeMcp.Mcp.RequestState

/-!
The text of a `requestState` (`mcp/request_state.rs`): `v1.`, the payload in base64url, a dot and
the MAC of all that stands before it in base64url. The MAC is checked before anything of the payload
is read.
-/
namespace BridgeMcp.Mcp.RequestState
open TextLib JsonLib Base64Lib

/-- What the signer gets from outside: HMAC-SHA256 under its key, and the JSON form of a payload. -/
structure Sealing where
  mac : List UInt8 → List UInt8
  mac_length : ∀ data, (mac data).length = 32
  toVec : Payload Text → List UInt8
  fromSlice : List UInt8 → Option (Payload Text)

def formatVersion : Text := "v1"

def signedText (sealing : Sealing) (payload : Payload Text) : Text :=
  formatVersion ++ '.' :: encode (sealing.toVec payload)

def stateText (sealing : Sealing) (payload : Payload Text) : Text :=
  let signed := signedText sealing payload
  signed ++ '.' :: encode (sealing.mac (utf8Bytes signed))

/-- The checks of `verify` up to the payload: shape, MAC, encoding. -/
def openText (sealing : Sealing) (state : Text) : Except StateError (Payload Text) :=
  match splitLast '.' state with
  | none => .error .malformed
  | some (signed, mac) =>
    match (stripPrefix formatVersion signed).bind (stripPrefix ['.']) with
    | none => .error .malformed
    | some encoded =>
      match decode mac with
      | none => .error .malformed
      | some presented =>
        let expected := sealing.mac (utf8Bytes signed)
        if expected = [] then .error .badSignature
        else if presented ≠ expected then .error .badSignature
        else
          match (decode encoded).bind sealing.fromSlice with
          | none => .error .malformed
          | some payload => .ok payload

def verifyText (sealing : Sealing) (now : ℕ) (state principal method paramsDigest : Text) :
    Except StateError Json :=
  match openText sealing state with
  | .error e => .error e
  | .ok payload =>
    if payload.exp ≤ now then .error .expired
    else if payload.p ≠ principal then .error .wrongPrincipal
    else if payload.m ≠ method ∨ payload.d ≠ paramsDigest then .error .wrongRequest
    else .ok payload.s

section
variable {sealing : Sealing} {state : Text} {payload : Payload Text}

theorem mac_ne_nil (data : List UInt8) : sealing.mac data ≠ [] := by
  intro hnil
  have hlength := sealing.mac_length data
  rw [hnil] at hlength
  cases hlength

theorem splitLast_stateText :
    splitLast '.' (stateText sealing payload) =
      some (signedText sealing payload,
        encode (sealing.mac (utf8Bytes (signedText sealing payload)))) :=
  splitLast_append (dot_notMem_encode _) _

theorem strip_signedText :
    (stripPrefix formatVersion (signedText sealing payload)).bind (stripPrefix ['.']) =
      some (encode (sealing.toVec payload)) := by
  rw [signedText, stripPrefix_append, Option.bind_some]
  exact stripPrefix_append ['.'] _

theorem openText_stateText (hjson : sealing.fromSlice (sealing.toVec payload) = some payload) :
    openText sealing (stateText sealing payload) = .ok payload := by
  rw [openText, splitLast_stateText]
  dsimp only
  rw [strip_signedText]
  dsimp only
  rw [decode_encode]
  dsimp only
  rw [if_neg (mac_ne_nil _), if_neg (not_not.mpr rfl), decode_encode, Option.bind_some, hjson]

theorem openText_ok (h : openText sealing state = .ok payload) :
    ∃ signed mac, splitLast '.' state = some (signed, mac) ∧
      decode mac = some (sealing.mac (utf8Bytes signed)) ∧
      ∃ encoded, (stripPrefix formatVersion signed).bind (stripPrefix ['.']) = some encoded ∧
        (decode encoded).bind sealing.fromSlice = some payload := by
  unfold openText at h
  split at h
  · cases h
  next signed mac hsplit =>
    split at h
    · cases h
    next encoded hencoded =>
      split at h
      · cases h
      next presented hpresented =>
        dsimp only at h
        split_ifs at h with hempty htag
        split at h
        · cases h
        next read hread =>
          obtain rfl := Except.ok.inj h
          refine ⟨signed, mac, hsplit, ?_, encoded, hencoded, hread⟩
          rw [hpresented, not_not.mp htag]

theorem eq_stateText {mac : Text}
    (hsplit : splitLast '.' state = some (signedText sealing payload, mac))
    (hmac : decode mac = some (sealing.mac (utf8Bytes (signedText sealing payload)))) :
    state = stateText sealing payload := by
  rw [splitLast_spec hsplit, ← encode_of_decode hmac]
  rfl

/-- Where the JSON reader gives every payload back, the texts are a signer. -/
def Sealing.signer (sealing : Sealing)
    (hjson : ∀ payload, sealing.fromSlice (sealing.toVec payload) = some payload) :
    Signer Text Text where
  sign := stateText sealing
  opened := openText sealing
  opened_sign payload := openText_stateText (hjson payload)

theorem verifyText_eq_verify (now : ℕ) (principal method paramsDigest : Text)
    (hjson : ∀ payload, sealing.fromSlice (sealing.toVec payload) = some payload) :
    verifyText sealing now state principal method paramsDigest =
      verify (sealing.signer hjson) now state principal method paramsDigest := by
  have hopened : (sealing.signer hjson).opened state = openText sealing state := rfl
  rw [verifyText, verify, hopened]
  cases openText sealing state with
  | error e => rfl
  | ok payload => rfl

end

/-- Seconds since the epoch: a system clock keeps them in 63 bits. -/
abbrev Seconds := {seconds : ℕ // seconds < 2 ^ 63}

structure Issued where
  time : Seconds
  principal : Text
  method : Text
  paramsDigest : Text
  context : Json

def Issued.payload (call : Issued) : Payload Text :=
  payloadAt call.time call.principal call.method call.paramsDigest call.context

def Issued.state (sealing : Sealing) (call : Issued) : Text := stateText sealing call.payload

/-- The calls of `issue` so far, latest first; the clock never goes back. -/
structure History where
  now : Seconds
  calls : List Issued
  ordered : calls.Pairwise fun later earlier => earlier.time ≤ later.time
  past : ∀ call ∈ calls, call.time ≤ now

namespace History

def start (now : Seconds) : History := ⟨now, [], .nil, nofun⟩

def wait (history : History) (now : Seconds) (h : history.now ≤ now) : History where
  now := now
  calls := history.calls
  ordered := history.ordered
  past call hcall := (history.past call hcall).trans h

def issue (history : History) (principal method paramsDigest : Text) (context : Json) : History where
  now := history.now
  calls := ⟨history.now, principal, method, paramsDigest, context⟩ :: history.calls
  ordered := .cons history.past history.ordered
  past := List.forall_mem_cons.mpr ⟨le_rfl, history.past⟩

/-- The JSON reader gives the payloads of this history back. -/
def ReadsBack (sealing : Sealing) (history : History) : Prop :=
  ∀ call ∈ history.calls, sealing.fromSlice (sealing.toVec call.payload) = some call.payload

/-- The MAC is not forged: the tag of the string is right only for a text that `issue` signed. -/
def Unforged (sealing : Sealing) (history : History) (state : Text) : Prop :=
  ∀ signed mac, splitLast '.' state = some (signed, mac) →
    decode mac = some (sealing.mac (utf8Bytes signed)) →
    ∃ call ∈ history.calls, signed = signedText sealing call.payload

theorem issued_of_openText {sealing : Sealing} {history : History} {state : Text}
    {payload : Payload Text} (hjson : history.ReadsBack sealing)
    (hunforged : history.Unforged sealing state) (h : openText sealing state = .ok payload) :
    ∃ call ∈ history.calls, state = call.state sealing ∧ payload = call.payload := by
  obtain ⟨signed, mac, hsplit, hmac, encoded, hencoded, hread⟩ := openText_ok h
  obtain ⟨call, hcall, rfl⟩ := hunforged signed mac hsplit hmac
  rw [strip_signedText] at hencoded
  rw [← Option.some.inj hencoded, decode_encode, Option.bind_some, hjson call hcall] at hread
  exact ⟨call, hcall, eq_stateText hsplit hmac, (Option.some.inj hread).symm⟩

theorem exp_payload (call : Issued) : call.payload.exp = call.time.val + ttlSecs := by
  have hfits : call.time.val + ttlSecs ≤ 2 ^ 64 - 1 := by
    have := call.time.property
    unfold ttlSecs
    omega
  exact min_eq_left hfits

/-- A string verifies exactly for the principal, method and digest of an `issue` that returned it
less than `ttlSecs` ago, and gives back the context of that call. -/
theorem request_state_bound (sealing : Sealing) (history : History)
    (hjson : history.ReadsBack sealing) (state principal method paramsDigest : Text)
    (context : Json) (hunforged : history.Unforged sealing state) :
    verifyText sealing history.now state principal method paramsDigest = .ok context ↔
      ∃ call ∈ history.calls, state = call.state sealing ∧ call.principal = principal ∧
        call.method = method ∧ call.paramsDigest = paramsDigest ∧
        history.now.val - call.time.val < ttlSecs ∧ call.context = context := by
  constructor
  · intro h
    unfold verifyText at h
    split at h
    · cases h
    next payload hopen =>
      obtain ⟨call, hcall, hstate, rfl⟩ := issued_of_openText hjson hunforged hopen
      split_ifs at h with hexp hprincipal hrequest
      obtain ⟨hmethod, hdigest⟩ := not_or.mp hrequest
      have hlive : history.now.val - call.time.val < ttlSecs := by
        have hpast : call.time.val ≤ history.now.val := history.past call hcall
        rw [exp_payload] at hexp
        omega
      exact ⟨call, hcall, hstate, not_not.mp hprincipal, not_not.mp hmethod, not_not.mp hdigest,
        hlive, Except.ok.inj h⟩
  · rintro ⟨call, hcall, rfl, rfl, rfl, rfl, hlive, rfl⟩
    have hpast : call.time.val ≤ history.now.val := history.past call hcall
    have hexp : ¬ call.payload.exp ≤ history.now.val := by
      rw [exp_payload]
      omega
    rw [verifyText, Issued.state, openText_stateText (hjson call hcall)]
    dsimp only
    rw [if_neg hexp]
    simp [Issued.payload, payloadAt]

def sampleTag : List UInt8 :=
  [133, 55, 88, 199, 203, 156, 18, 109, 183, 217, 123, 127, 186, 138, 62, 147, 126, 156, 245, 165,
    21, 138, 144, 172, 237, 115, 192, 118, 41, 75, 210, 166]

def sampleBody : List UInt8 :=
  utf8Bytes "\x7b\"p\":\"alice\",\"exp\":1300,\"m\":\"tools/call\",\"d\":\"\",\"s\":null\x7d"

def sampleHistory : History :=
  ((start ⟨1000, by decide⟩).issue "alice" "tools/call" [] .null).wait
    ⟨1060, by decide⟩ (Nat.le_add_right 1000 60)

def sampleSealing : Sealing where
  mac _ := sampleTag
  mac_length _ := rfl
  toVec _ := sampleBody
  fromSlice body :=
    if body = sampleBody then some ⟨"alice", 1300, "tools/call", [], .null⟩ else none

theorem request_state_bound_minute_old :
    ∃ state, verifyText sampleSealing 1060 state "alice" "tools/call" [] = .ok .null := by
  let call : Issued := ⟨⟨1000, by decide⟩, "alice", "tools/call", [], .null⟩
  have hcalls : sampleHistory.calls = [call] := rfl
  have hjson : sampleHistory.ReadsBack sampleSealing := by
    intro e he
    rw [hcalls, List.mem_singleton] at he
    subst he
    change (if sampleBody = sampleBody then _ else none) = _
    rw [if_pos rfl]
    rfl
  have hunforged : sampleHistory.Unforged sampleSealing (call.state sampleSealing) := by
    intro signed mac hsplit _
    rw [Issued.state, splitLast_stateText] at hsplit
    cases hsplit
    exact ⟨call, List.mem_singleton.mpr rfl, rfl⟩
  refine ⟨call.state sampleSealing, (request_state_bound sampleSealing sampleHistory hjson _ _ _ _ _
    hunforged).mpr ⟨call, List.mem_singleton.mpr rfl, rfl, rfl, rfl, rfl, ?_, rfl⟩⟩
  decide

end History

end BridgeMcp.Mcp.RequestState
