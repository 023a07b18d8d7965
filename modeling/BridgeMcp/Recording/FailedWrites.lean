import BridgeMcp.Lib.Transition
import BridgeMcp.Recording.Tampering

/-!
Calls of `record_event` whose write fails. The hash chain moves on before the write, so a failed call
leaves a session that goes on from an event its file does not have.
-/
namespace BridgeMcp.Recording
open TextLib JsonLib TransitionLib List Floats

section
variable [Floats]

/-- A call, and whether its write went through. A failed write leaves nothing in the file. -/
structure Call where
  event : Recorded
  written : Bool

def writtenEvents (calls : List Call) : List Recorded :=
  (calls.filter Call.written).map Call.event

section Calls
variable (sha256Hex : List UInt8 → Text)

def runCall (session : ActiveSession) (call : Call) : ActiveSession :=
  (recordEvent sha256Hex session call.event call.written).1

def runCalls (session : ActiveSession) (calls : List Call) : ActiveSession :=
  calls.foldl (runCall sha256Hex) session

/-- The call does not move the chain without writing: the write succeeds, there is no chain, or the
event hashes to the very hash the chain stands at. -/
def Harmless (session : ActiveSession) (call : Call) : Prop :=
  call.written = true ∨ session.hashChainEnabled = false ∨
    computeHash sha256Hex session.hashKey session.lastHash
      (eventData call.event.elapsed.time call.event.eventType call.event.data) =
        session.lastHash

variable {sha256Hex}

theorem runCall_failed_iff (session : ActiveSession) (event : Recorded) :
    runCall sha256Hex session ⟨event, false⟩ = session ↔
      Harmless sha256Hex session ⟨event, false⟩ := by
  obtain ⟨host, file, eventCount, lastHash, hashChainEnabled, hashKey⟩ := session
  cases hashChainEnabled with
  | false => exact ⟨fun _ => .inr (.inl rfl), fun _ => rfl⟩
  | true =>
    constructor
    · intro h
      exact .inr (.inr (congrArg ActiveSession.lastHash h))
    · rintro (h | h | h)
      · cases h
      · cases h
      · dsimp only at h
        rw [runCall, recordEvent, if_neg Bool.false_ne_true]
        dsimp only
        rw [if_pos rfl, Option.getD_some, h]

theorem runCalls_of_harmless {session : ActiveSession} {calls : List Call}
    (h : Along (runCall sha256Hex) (Harmless sha256Hex) session calls) :
    runCalls sha256Hex session calls = recordAll sha256Hex session (writtenEvents calls) := by
  induction calls generalizing session with
  | nil => rfl
  | cons call calls ih =>
    obtain ⟨hcall, hrest⟩ := along_cons.mp h
    have hrun := ih hrest
    obtain ⟨event, written⟩ := call
    cases written with
    | true => exact hrun
    | false =>
      rw [(runCall_failed_iff session event).mpr hcall] at hrun
      rw [runCalls, foldl_cons, (runCall_failed_iff session event).mpr hcall]
      exact hrun

end Calls

variable (sha256Hex : List UInt8 → Text)

theorem recordAll_file_unchained (session : ActiveSession)
    (hchain : session.hashChainEnabled = false) (events : List Recorded) :
    (recordAll sha256Hex session events).file =
      session.file ++
        (events.map fun e => eventLine e.elapsed e.eventType e.data none).flatMap (· ++ ['\n']) := by
  induction events generalizing session with
  | nil => simp [recordAll]
  | cons event events ih =>
    have hfile : (recordEvent sha256Hex session event true).1.file =
        session.file ++ (eventLine event.elapsed event.eventType event.data none ++ ['\n']) := by
      simp [recordEvent, hchain]
    have hrest := ih (recordEvent sha256Hex session event true).1 hchain
    rw [recordAll, foldl_cons, ← recordAll, hrest, hfile, map_cons, flatMap_cons,
      append_assoc]

theorem replayEvents_unchained (events : List Recorded) :
    replayEvents ((events.map fun e => eventLine e.elapsed e.eventType e.data none).map some) =
      .ok (events.map fun e => ⟨e.elapsed.seconds, e.eventType, e.data, none⟩) := by
  induction events with
  | nil => rfl
  | cons event events ih =>
    rw [map_cons, map_cons, replayEvents_eventLine, ih]
    rfl

theorem recordAll_verifies (hashChainEnabled : Bool)
    (key : List UInt8) (host : Text) (title : Option Text) (timestamp : Timestamp)
    (order : Equiv.Perm (Fin 3)) (events : List Recorded) :
    let header := sessionHeader host title timestamp order
    let file := fileLines
      (recordAll sha256Hex (startSession sha256Hex hashChainEnabled key host header) events).file
    ∃ replayed, replayRecording file = .ok (header, replayed) ∧
      contents replayed = events.map (fun r => (r.elapsed.seconds, r.eventType, r.data)) ∧
      (verifyEvents sha256Hex key replayed).valid = true := by
  intro header file
  cases hashChainEnabled with
  | true =>
    refine ⟨chained sha256Hex key (initialHash sha256Hex key) events, ?_, ?_, ?_⟩
    · change replayRecording (fileLines _) = _
      rw [fileLines_recorded, replayRecording, parse_header]
      simp only [replayEvents_chainedLines]
      rfl
    · exact chained_contents sha256Hex key _ events
    · rw [verifyEvents_chained]
  | false =>
    have hlines : ∀ line ∈ events.map fun e => eventLine e.elapsed e.eventType e.data none,
        OneLine line := by
      intro line hline
      obtain ⟨event, -, rfl⟩ := mem_map.mp hline
      exact oneLine_eventLine _ _ _ _
    have hfile : file = some header.text ::
        (events.map fun e => eventLine e.elapsed e.eventType e.data none).map some := by
      change fileLines _ = _
      rw [recordAll_file_unchained sha256Hex _ rfl]
      change (lines (header.text ++ ['\n'] ++ _)).map some = _
      rw [append_assoc, singleton_append, lines_of_oneLine (oneLine_header header),
        lines_flatMap hlines, map_cons]
    refine ⟨events.map fun e => ⟨e.elapsed.seconds, e.eventType, e.data, none⟩, ?_, ?_, ?_⟩
    · rw [hfile, replayRecording, parse_header]
      simp only [replayEvents_unchained]
      rfl
    · rw [contents, map_map]
      rfl
    · cases events with
      | nil => rfl
      | cons event events => rfl

/-- Failed calls change nothing, and the file has exactly the events that were written and
verifies. -/
structure StaysConsistent (sha256Hex : List UInt8 → Text) (header : RecordingHeader)
    (session : ActiveSession) (calls : List Call) : Prop where
  unchanged : Along (runCall sha256Hex)
    (fun before call => call.written = false → runCall sha256Hex before call = before) session calls
  verifies : ∃ replayed result,
    replayRecording (fileLines (runCalls sha256Hex session calls).file) = .ok (header, replayed) ∧
    contents replayed =
      (writtenEvents calls).map (fun r => (r.elapsed.seconds, r.eventType, r.data)) ∧
    verifyRecording sha256Hex (fileLines (runCalls sha256Hex session calls).file)
      session.hashKey = .ok result ∧
    result.valid = true

theorem staysConsistent_iff_harmless (sha256Hex : List UInt8 → Text) (hashChainEnabled : Bool)
    (key : List UInt8) (host : Text) (title : Option Text) (timestamp : Timestamp)
    (order : Equiv.Perm (Fin 3)) (calls : List Call) :
    let header := sessionHeader host title timestamp order
    let session := startSession sha256Hex hashChainEnabled key host header
    StaysConsistent sha256Hex header session calls ↔
      Along (runCall sha256Hex) (Harmless sha256Hex) session calls := by
  intro header session
  constructor
  · intro h before call after hsplit
    have hsame := h.unchanged before call after hsplit
    obtain ⟨event, written⟩ := call
    cases written with
    | true => exact .inl rfl
    | false => exact (runCall_failed_iff _ event).mp (hsame rfl)
  · intro h
    obtain ⟨replayed, hreplay, hcontents, hvalid⟩ :=
      recordAll_verifies sha256Hex hashChainEnabled key host title timestamp order
        (writtenEvents calls)
    rw [← runCalls_of_harmless h] at hreplay
    refine ⟨fun before call after hsplit hfailed => ?_, replayed,
      verifyEvents sha256Hex key replayed, hreplay, hcontents, ?_, hvalid⟩
    · have hcall := h before call after hsplit
      obtain ⟨event, written⟩ := call
      obtain rfl : written = false := hfailed
      exact (runCall_failed_iff _ event).mpr hcall
    · rw [verifyRecording, hreplay]
      rfl

theorem verifyRecording_of_lost (key : List UInt8) (host : Text)
    (title : Option Text) (timestamp : Timestamp) (order : Equiv.Perm (Fin 3))
    (lost kept : Recorded)
    (h : let prior := initialHash sha256Hex key
      let moved := computeHash sha256Hex key prior
        (eventData lost.elapsed.time lost.eventType lost.data)
      let data := eventData kept.elapsed.time kept.eventType kept.data
      computeHash sha256Hex key moved data ≠ computeHash sha256Hex key prior data) :
    let session := startSession sha256Hex true key host (sessionHeader host title timestamp order)
    verifyRecording sha256Hex
        (fileLines (runCalls sha256Hex session [⟨lost, false⟩, ⟨kept, true⟩]).file) key =
      .ok ⟨false, 1, 0, some 0⟩ := by
  intro session
  have hlines := fileLines_recordAll sha256Hex (runCall sha256Hex session ⟨lost, false⟩)
    (sessionHeader host title timestamp order) rfl rfl [kept]
  have hverify : verifyEvents sha256Hex key (chained sha256Hex key
      (runCall sha256Hex session ⟨lost, false⟩).lastHash [kept]) = ⟨false, 1, 0, some 0⟩ := by
    rw [chained, verifyEvents, if_neg (by simp), verifyFrom, eventData_seconds]
    exact if_neg fun hhash => h (Option.some.inj hhash)
  change verifyRecording sha256Hex (fileLines
    (recordAll sha256Hex (runCall sha256Hex session ⟨lost, false⟩) [kept]).file) key = _
  rw [verifyRecording, hlines, replayRecording, parse_header]
  simp only [replayEvents_chainedLines]
  exact congrArg Except.ok hverify

end

/-- SHA-256 on the inputs of the recording below. -/
def auditDigests : List (Text × Text) :=
  [("keygenesis",
      "069e4abbc0f649c858d8bdf5daaab2dc49a404a4450ab281d9c7791f4898f5ca"),
    ("key069e4abbc0f649c858d8bdf5daaab2dc49a404a4450ab281d9c7791f4898f5ca0.500000:o:ls",
      "a9172572005030623a7ac2fb07a9dee8c0ce26910dae62adc08f79d4b59ad8fe"),
    ("keya9172572005030623a7ac2fb07a9dee8c0ce26910dae62adc08f79d4b59ad8fe1.250000:i:exit",
      "6d92ca8fddeceb81701c11fee0a2156f28ba52d822064f953abd0465ee3584b6"),
    ("key069e4abbc0f649c858d8bdf5daaab2dc49a404a4450ab281d9c7791f4898f5ca1.250000:i:exit",
      "1ee6e21145b8172e9af7612f66ea1ac18b1528e9fe8a5b4d77ae72dda13fb9fb")]

def auditDigest (input : List UInt8) : Text :=
  (auditDigests.find? fun entry => utf8Bytes entry.1 = input).elim (spelled input) Prod.snd

/-- The write of the first event fails, that of the second succeeds. -/
theorem lost_event_breaks_chain :
    verifyRecording auditDigest
        (fileLines (runCalls auditDigest
          (startSession auditDigest true sampleKey "web" sampleHeader)
          [⟨listing, false⟩, ⟨leaving, true⟩]).file) sampleKey =
      .ok ⟨false, 1, 0, some 0⟩ :=
  verifyRecording_of_lost auditDigest sampleKey "web" none ⟨1735689600, by decide⟩
    (Equiv.refl _) listing leaving (by decide +kernel)

end BridgeMcp.Recording
