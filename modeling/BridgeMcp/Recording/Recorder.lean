import BridgeMcp.Lib.JsonText
import BridgeMcp.Lib.Utf8Bytes

/-!
Session recordings (`security/recording.rs`): the asciinema v2 file a session is written to, one
line for each event, and how it is read back and checked against its hash chain.

SHA-256 with its hexadecimal rendering is a parameter, and so is the type `f64` of the times.
-/
namespace BridgeMcp.Recording
open TextLib JsonLib

/-- What the code uses of `f64`: how a JSON number is read as one, and how `{:.6}` prints it. A time
that was printed prints the same again when it is read back. -/
class Floats where
  F64 : Type
  zero : F64
  ofNumber : Number → F64
  formatSix : F64 → Text
  prints_back : ∀ x micros, formatSix x = fixedPoint 6 micros →
    formatSix (ofNumber (.float ⟨false, NNRat.divNat micros (10 ^ 6)⟩)) = fixedPoint 6 micros

open Floats

variable [Floats]

structure RecordingHeader where
  version : ℕ
  width : ℕ
  height : ℕ
  timestamp : ℤ
  title : Option Text
  env : List (Text × Text)

structure RecordingEvent where
  time : F64
  eventType : Text
  data : Text
  hash : Option Text

/-- `Instant::elapsed` as an `f64`, and the microseconds it is printed as. A `Duration` holds less than
`2 ^ 64` seconds. -/
structure Elapsed where
  time : F64
  micros : ℕ
  prints : formatSix time = fixedPoint 6 micros
  inRange : micros < 1000000 * 2 ^ 64

def Elapsed.number (elapsed : Elapsed) : Number :=
  .float ⟨false, NNRat.divNat elapsed.micros (10 ^ 6)⟩

/-- The time as it reads back. -/
def Elapsed.seconds (elapsed : Elapsed) : F64 := ofNumber elapsed.number

def eventData (time : F64) (eventType data : Text) : Text :=
  formatSix time ++ ':' :: eventType ++ ':' :: data

section Writer

variable (sha256Hex : List UInt8 → Text)

def computeHash (key : List UInt8) (previousHash data : Text) : Text :=
  sha256Hex (key ++ utf8Bytes previousHash ++ utf8Bytes data)

def genesis : Text := "genesis"

def initialHash (key : List UInt8) : Text := computeHash sha256Hex key genesis []

/-- The session and the file behind its handle. -/
structure ActiveSession where
  host : Text
  file : Text
  eventCount : ℕ
  lastHash : Text
  hashChainEnabled : Bool
  hashKey : List UInt8

def recordingEnv (host : Text) (order : Equiv.Perm (Fin 3)) : List (Text × Text) :=
  let env := [("SHELL".toList, "/bin/bash".toList), ("TERM".toList, "xterm-256color".toList),
    ("MCP_HOST".toList, host)]
  List.ofFn fun i => env.get (order i)

def RecordingHeader.text (header : RecordingHeader) : Text :=
  objectText
    ([("version".toList, Nat.toDigits 10 header.version),
      ("width".toList, Nat.toDigits 10 header.width),
      ("height".toList, Nat.toDigits 10 header.height),
      ("timestamp".toList, decimal header.timestamp)] ++
    (header.title.map fun title => ("title".toList, encodeString title)).toList ++
    [("env".toList, objectText (header.env.map fun member => (member.1, encodeString member.2)))])

structure Timestamp where
  seconds : ℤ
  inRange : -2 ^ 63 ≤ seconds ∧ seconds < 2 ^ 63

def sessionHeader (host : Text) (title : Option Text) (timestamp : Timestamp)
    (order : Equiv.Perm (Fin 3)) : RecordingHeader where
  version := 2
  width := 120
  height := 40
  timestamp := timestamp.seconds
  title := title
  env := recordingEnv host order

def startSession (hashChainEnabled : Bool) (hashKey : List UInt8) (host : Text)
    (header : RecordingHeader) : ActiveSession where
  host := host
  file := header.text ++ ['\n']
  eventCount := 0
  lastHash := initialHash sha256Hex hashKey
  hashChainEnabled := hashChainEnabled
  hashKey := hashKey

def eventLine (elapsed : Elapsed) (eventType data : Text) (hash : Option Text) : Text :=
  arrayText
    ([formatSix elapsed.time, ' ' :: encodeString eventType, ' ' :: encodeString data] ++
      (hash.map fun h => ' ' :: encodeString h).toList)

structure Recorded where
  elapsed : Elapsed
  eventType : Text
  data : Text

/-- `record_event`, with the outcome of its write: the chain has moved on when the write fails. -/
def recordEvent (session : ActiveSession) (event : Recorded) (written : Bool) :
    ActiveSession × Except Unit Unit :=
  let newHash := computeHash sha256Hex session.hashKey session.lastHash
    (eventData event.elapsed.time event.eventType event.data)
  let hash := if session.hashChainEnabled then some newHash else none
  let session := { session with lastHash := hash.getD session.lastHash }
  if written then
    ({ session with
        file := session.file ++ eventLine event.elapsed event.eventType event.data hash ++ ['\n']
        eventCount := session.eventCount + 1 },
      .ok ())
  else (session, .error ())

def recordAll (session : ActiveSession) (events : List Recorded) : ActiveSession :=
  events.foldl (fun session event => (recordEvent sha256Hex session event true).1) session

end Writer

inductive RecordingError where
  | emptyFile
  | readHeader
  | invalidHeader
  | readLine
  | invalidEventLine
  deriving DecidableEq

def asF64 : Json → Option F64
  | .number n => some (ofNumber n)
  | _ => none

def asU32 : Json → Option ℕ
  | .number (.posInt n) => if n < 2 ^ 32 then some n else none
  | _ => none

def asI64 : Json → Option ℤ
  | .number (.posInt n) => if n < 2 ^ 63 then some n else none
  | .number (.negInt n) => if n ≤ 2 ^ 63 then some (-n) else none
  | _ => none

def asOptionString : Json → Option (Option Text)
  | .null => some none
  | .string s => some (some s)
  | _ => none

def asStringMap : Json → Option (List (Text × Text))
  | .object members => members.mapM fun member => member.2.asStr.map (member.1, ·)
  | _ => none

/-- A field of a derived `Deserialize`: refused when it stands twice, `missing` when it does not
stand at all. -/
def field {α : Type} (members : List (Text × Json)) (name : Text) (read : Json → Option α)
    (missing : Option α) : Option α :=
  match members.filter (fun member => member.1 = name) with
  | [] => missing
  | [member] => read member.2
  | _ => none

/-- `RecordingHeader` from an object, or from an array of its fields in order. -/
def readHeader : Json → Option RecordingHeader
  | .object members => do
      let version ← field members "version" asU32 none
      let width ← field members "width" asU32 none
      let height ← field members "height" asU32 none
      let timestamp ← field members "timestamp" asI64 none
      let title ← field members "title" asOptionString (some none)
      let env ← field members "env" asStringMap (some [])
      some ⟨version, width, height, timestamp, title, env⟩
  | .array (version :: width :: height :: timestamp :: title :: rest) => do
      let version ← asU32 version
      let width ← asU32 width
      let height ← asU32 height
      let timestamp ← asI64 timestamp
      let title ← asOptionString title
      let env ← match rest with
        | [] => some []
        | [env] => asStringMap env
        | _ => none
      some ⟨version, width, height, timestamp, title, env⟩
  | _ => none

def readEvent : List Json → Option RecordingEvent
  | time :: eventType :: data :: rest =>
    some
      { time := (asF64 time).getD zero
        eventType := eventType.asStr.getD ['o']
        data := data.asStr.getD []
        hash := rest.head?.bind Json.asStr }
  | _ => none

/-- The lines of a file as `BufRead::lines` gives them; `none` is a line that is not UTF-8. -/
abbrev FileLines := List (Option Text)

/-- Blank lines and arrays of fewer than three elements are passed over. -/
def replayEvents : FileLines → Except RecordingError (List RecordingEvent)
  | [] => .ok []
  | none :: _ => .error .readLine
  | some line :: rest =>
    if trim line = [] then replayEvents rest
    else
      match (parse line).bind Json.asArray with
      | none => .error .invalidEventLine
      | some items => (replayEvents rest).map ((readEvent items).toList ++ ·)

def replayRecording : FileLines → Except RecordingError (RecordingHeader × List RecordingEvent)
  | [] => .error .emptyFile
  | none :: _ => .error .readHeader
  | some headerLine :: rest =>
    match (parse headerLine).bind readHeader with
    | none => .error .invalidHeader
    | some header => (replayEvents rest).map (header, ·)

structure VerifyResult where
  valid : Bool
  totalEvents : ℕ
  verifiedEvents : ℕ
  firstInvalidIndex : Option ℕ
  deriving DecidableEq

section Verify

variable (sha256Hex : List UInt8 → Text)

/-- The loop of `verify_recording` at event `i`. -/
def verifyFrom (key : List UInt8) (total : ℕ) :
    ℕ → ℕ → Text → List RecordingEvent → VerifyResult
  | _, verified, _, [] => ⟨true, total, verified, none⟩
  | i, verified, lastHash, event :: rest =>
    let expectedHash := computeHash sha256Hex key lastHash
      (eventData event.time event.eventType event.data)
    if event.hash = some expectedHash then
      verifyFrom key total (i + 1) (verified + 1) expectedHash rest
    else ⟨false, total, verified, some i⟩

def verifyEvents (key : List UInt8) (events : List RecordingEvent) : VerifyResult :=
  match events with
  | [] => ⟨true, 0, 0, none⟩
  | first :: _ =>
    if first.hash = none then ⟨true, events.length, 0, none⟩
    else verifyFrom sha256Hex key events.length 0 0 (initialHash sha256Hex key) events

def verifyRecording (file : FileLines) (key : List UInt8) : Except RecordingError VerifyResult :=
  (replayRecording file).map fun (_, events) => verifyEvents sha256Hex key events

end Verify

end BridgeMcp.Recording
