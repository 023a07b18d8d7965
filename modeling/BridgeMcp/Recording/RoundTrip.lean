import BridgeMcp.Recording.Recorder

/-!
A session that was recorded with the hash chain reads back as the events that were recorded, and
its chain verifies under the key it was recorded with.
-/
namespace BridgeMcp.Recording
open TextLib JsonLib Floats List Option

/-- A text that stays one line when it is written with a newline. -/
structure OneLine (line : Text) : Prop where
  noBreak : '\n' ∉ line
  noReturn : line.getLast? ≠ some '\r'

theorem lines_of_oneLine {line : Text} (h : OneLine line) (s : Text) :
    lines (line ++ '\n' :: s) = line :: lines s := by
  have := lines_line h.noBreak h.noReturn .lf s
  rwa [append_assoc] at this

theorem lines_flatMap {texts : List Text} (h : ∀ line ∈ texts, OneLine line) :
    lines (texts.flatMap (· ++ ['\n'])) = texts := by
  induction texts with
  | nil => rfl
  | cons line texts ih =>
    rw [flatMap_cons, append_assoc, singleton_append,
      lines_of_oneLine (h line mem_cons_self),
      ih fun line hline => h line (mem_cons_of_mem _ hline)]

theorem newline_notMem_fixedPoint (width n : ℕ) : '\n' ∉ fixedPoint width n := by
  intro h
  rcases mem_append.mp h with h | h
  · exact absurd (isDigit_toDigits _ _ h) (by decide)
  · rcases mem_cons.mp h with h | h
    · exact absurd h (by decide)
    · exact absurd (isDigit_fixedDigits _ _ _ h) (by decide)

theorem oneLine_arrayText {items : List Text} (h : ∀ t ∈ items, '\n' ∉ t) :
    OneLine (arrayText items) where
  noBreak := by
    simp only [arrayText, mem_cons, mem_append, mem_nil_iff, or_false, not_or]
    exact ⟨by decide, notMem_intercalate (by decide) h, by decide⟩
  noReturn := by
    rw [arrayText, ← cons_append, getLast?_append_cons]
    simp

section
variable [Floats]

theorem formatSix_seconds (elapsed : Elapsed) :
    formatSix elapsed.seconds = formatSix elapsed.time :=
  (prints_back _ _ elapsed.prints).trans elapsed.prints.symm

theorem denotes_time (depth : ℕ) (elapsed : Elapsed) :
    Denotes depth (formatSix elapsed.time) (.number elapsed.number) := by
  rw [elapsed.prints]
  apply denotes_fixedPoint depth (by decide)
  have hlimit : 1000000 * 2 ^ 64 ≤ f64Limit * 10 ^ 6 := by decide +kernel
  exact elapsed.inRange.trans_le hlimit

variable (elapsed : Elapsed) (eventType data : Text) (hash : Option Text)
include elapsed eventType data hash

theorem oneLine_eventLine :
    OneLine (eventLine elapsed eventType data hash) := by
  apply oneLine_arrayText
  have hspaced : ∀ s, '\n' ∉ ' ' :: encodeString s := fun s =>
    not_mem_cons_of_ne_of_not_mem (by decide) (newline_notMem_encodeString s)
  intro t ht
  rcases mem_append.mp ht with ht | ht
  · simp only [mem_cons, mem_nil_iff, or_false] at ht
    rcases ht with rfl | rfl | rfl
    · rw [elapsed.prints]
      exact newline_notMem_fixedPoint _ _
    · exact hspaced _
    · exact hspaced _
  · obtain ⟨h, -, rfl⟩ := map_eq_some_iff.mp (mem_toList.mp ht)
    exact hspaced h

theorem trim_eventLine :
    trim (eventLine elapsed eventType data hash) ≠ [] := by
  have hstart : isWhitespace '[' = false := by decide
  intro h
  rw [eventLine, arrayText, trim, dropWhile_cons_of_neg (by simp [hstart]), trimEnd,
    rdropWhile_eq_nil_iff] at h
  rw [h '[' mem_cons_self] at hstart
  cases hstart

theorem parse_eventLine :
    parse (eventLine elapsed eventType data hash) =
      some (.array ([.number elapsed.number, .string eventType, .string data] ++
        (hash.map Json.string).toList)) := by
  have hhash : List.Forall₂ (Denotes 126) (hash.map fun h => ' ' :: encodeString h).toList
      (hash.map Json.string).toList := by
    cases hash with
    | none => exact .nil
    | some h => exact .cons (denotes_string 126 h).space .nil
  apply parse_of_denotes
  exact denotes_array <| .cons (denotes_time 126 elapsed) <|
    .cons (denotes_string 126 eventType).space <| .cons (denotes_string 126 data).space hhash

theorem readEvent_eventLine :
    readEvent ([.number elapsed.number, .string eventType, .string data] ++
      (hash.map Json.string).toList) = some ⟨elapsed.seconds, eventType, data, hash⟩ := by
  cases hash <;> rfl

theorem replayEvents_eventLine (rest : FileLines) :
    replayEvents (some (eventLine elapsed eventType data hash) :: rest) =
      (replayEvents rest).map (⟨elapsed.seconds, eventType, data, hash⟩ :: ·) := by
  rw [replayEvents, if_neg (trim_eventLine _ _ _ _), parse_eventLine]
  simp only [bind_some, Json.asArray, readEvent_eventLine, toList_some,
    singleton_append]

end

theorem denotes_i64 (depth : ℕ) {z : ℤ} (hlow : -2 ^ 63 ≤ z) (hhigh : z < 2 ^ 63) :
    ∃ value, Denotes depth (decimal z) value ∧ asI64 value = some z := by
  by_cases hneg : z < 0
  · refine ⟨.number (.negInt z.natAbs), ?_, ?_⟩
    · rw [decimal, if_pos hneg]
      exact denotes_neg depth (by omega) (by omega)
    · rw [asI64, if_pos (by omega), some.injEq]
      omega
  · refine ⟨.number (.posInt z.natAbs), ?_, ?_⟩
    · rw [decimal, if_neg hneg]
      exact denotes_nat depth (by omega)
    · rw [asI64, if_pos (by omega), some.injEq]
      omega

theorem asStringMap_strings (env : List (Text × Text)) :
    asStringMap (.object (env.map fun member => (member.1, .string member.2))) = some env := by
  rw [asStringMap, mapM_map]
  induction env with
  | nil => rfl
  | cons member env ih =>
    rw [mapM_cons, ih]
    rfl

theorem denotes_strings (depth : ℕ) (env : List (Text × Text)) :
    Denotes (depth + 1) (objectText (env.map fun member => (member.1, encodeString member.2)))
      (.object (env.map fun member => (member.1, .string member.2))) := by
  apply denotes_object
  induction env with
  | nil => exact .nil
  | cons member env ih => exact .cons ⟨rfl, denotes_string depth member.2⟩ ih

theorem parse_header (host : Text) (title : Option Text) (timestamp : Timestamp)
    (order : Equiv.Perm (Fin 3)) :
    (parse (sessionHeader host title timestamp order).text).bind readHeader =
      some (sessionHeader host title timestamp order) := by
  obtain ⟨stamp, hstamp, hread⟩ :=
    denotes_i64 126 timestamp.inRange.1 timestamp.inRange.2
  have henv := denotes_strings 125 (recordingEnv host order)
  have htitle : List.Forall₂ (fun m v => m.1 = v.1 ∧ Denotes 126 m.2 v.2)
      (title.map fun title => ("title".toList, encodeString title)).toList
      (title.map fun title => ("title".toList, Json.string title)).toList := by
    cases title with
    | none => exact .nil
    | some title => exact .cons ⟨rfl, denotes_string 126 title⟩ .nil
  have hdenotes : Denotes maxDepth (sessionHeader host title timestamp order).text
      (.object ([("version".toList, .number (.posInt 2)), ("width".toList, .number (.posInt 120)),
        ("height".toList, .number (.posInt 40)), ("timestamp".toList, stamp)] ++
        (title.map fun title => ("title".toList, Json.string title)).toList ++
        [("env".toList, .object ((recordingEnv host order).map fun m => (m.1, .string m.2)))])) := by
    simp only [RecordingHeader.text, sessionHeader]
    apply denotes_object
    apply rel_append
    · apply rel_append
      · have hnat : ∀ n < 2 ^ 64, Denotes 126 (Nat.toDigits 10 n) (.number (.posInt n)) :=
          fun n hn => denotes_nat 126 hn
        exact .cons ⟨rfl, hnat 2 (by decide)⟩ <| .cons ⟨rfl, hnat 120 (by decide)⟩ <|
          .cons ⟨rfl, hnat 40 (by decide)⟩ <| .cons ⟨rfl, hstamp⟩ .nil
      · exact htitle
    · exact .cons ⟨rfl, henv⟩ .nil
  rw [parse_of_denotes hdenotes, bind_some]
  have hmap := asStringMap_strings (recordingEnv host order)
  cases title <;>
    · simp only [readHeader]
      rw [show field _ "version".toList asU32 none = some 2 from rfl,
        show field _ "width".toList asU32 none = some 120 from rfl,
        show field _ "height".toList asU32 none = some 40 from rfl,
        show field _ "timestamp".toList asI64 none = asI64 stamp from rfl,
        show field _ "env".toList asStringMap (some []) =
          asStringMap (.object ((recordingEnv host order).map fun m => (m.1, .string m.2))) from rfl,
        hread, hmap]
      rfl

theorem oneLine_header (header : RecordingHeader) : OneLine header.text where
  noBreak := by
    have hdigits : ∀ n, '\n' ∉ Nat.toDigits 10 n := fun n h =>
      absurd (isDigit_toDigits n _ h) (by decide)
    have hdecimal : '\n' ∉ decimal header.timestamp := fun h => by
      have := mem_decimal h
      revert this
      decide
    have henv : '\n' ∉ objectText (header.env.map fun m => (m.1, encodeString m.2)) := by
      apply newline_notMem_objectText
      intro member hmember
      obtain ⟨m, -, rfl⟩ := mem_map.mp hmember
      exact newline_notMem_encodeString _
    apply newline_notMem_objectText
    intro member hmember
    rcases mem_append.mp hmember with hmember | hmember
    · rcases mem_append.mp hmember with hmember | hmember
      · simp only [mem_cons, mem_nil_iff, or_false] at hmember
        rcases hmember with rfl | rfl | rfl | rfl
        · exact hdigits _
        · exact hdigits _
        · exact hdigits _
        · exact hdecimal
      · obtain ⟨title, -, rfl⟩ := map_eq_some_iff.mp (mem_toList.mp hmember)
        exact newline_notMem_encodeString _
    · rw [mem_singleton.mp hmember]
      exact henv
  noReturn := by
    rw [RecordingHeader.text, objectText, ← cons_append, getLast?_append_cons]
    simp

variable [Floats]

section Chain

variable (sha256Hex : List UInt8 → Text) (key : List UInt8)

def chained : Text → List Recorded → List RecordingEvent
  | _, [] => []
  | lastHash, event :: rest =>
    let hash := computeHash sha256Hex key lastHash
      (eventData event.elapsed.time event.eventType event.data)
    ⟨event.elapsed.seconds, event.eventType, event.data, some hash⟩ :: chained hash rest

def chainedLines : Text → List Recorded → List Text
  | _, [] => []
  | lastHash, event :: rest =>
    let hash := computeHash sha256Hex key lastHash
      (eventData event.elapsed.time event.eventType event.data)
    eventLine event.elapsed event.eventType event.data (some hash) :: chainedLines hash rest

variable (lastHash : Text)

theorem oneLine_chainedLines (events : List Recorded) :
    ∀ line ∈ chainedLines sha256Hex key lastHash events, OneLine line := by
  induction events generalizing lastHash with
  | nil => nofun
  | cons event events ih =>
    intro line hline
    rcases mem_cons.mp hline with rfl | hline
    · exact oneLine_eventLine _ _ _ _
    · exact ih _ line hline

theorem replayEvents_chainedLines (events : List Recorded) :
    replayEvents ((chainedLines sha256Hex key lastHash events).map some) =
      .ok (chained sha256Hex key lastHash events) := by
  induction events generalizing lastHash with
  | nil => rfl
  | cons event events ih =>
    rw [chainedLines, map_cons, replayEvents_eventLine, ih]
    rfl

theorem eventData_seconds (elapsed : Elapsed) (eventType data : Text) :
    eventData elapsed.seconds eventType data = eventData elapsed.time eventType data := by
  rw [eventData, formatSix_seconds, ← eventData]

theorem verifyFrom_chained (total i verified : ℕ) (lastHash : Text) (events : List Recorded) :
    verifyFrom sha256Hex key total i verified lastHash (chained sha256Hex key lastHash events) =
      ⟨true, total, verified + events.length, none⟩ := by
  induction events generalizing i verified lastHash with
  | nil => rfl
  | cons event events ih =>
    rw [chained, verifyFrom, eventData_seconds, if_pos rfl, ih, length_cons, Nat.add_right_comm,
      Nat.add_assoc]

theorem chained_length (events : List Recorded) :
    (chained sha256Hex key lastHash events).length = events.length := by
  induction events generalizing lastHash with
  | nil => rfl
  | cons event events ih => rw [chained, length_cons, ih, length_cons]

theorem chained_contents (events : List Recorded) :
    (chained sha256Hex key lastHash events).map (fun e => (e.time, e.eventType, e.data)) =
      events.map fun r => (r.elapsed.seconds, r.eventType, r.data) := by
  induction events generalizing lastHash with
  | nil => rfl
  | cons event events ih => rw [chained, map_cons, map_cons, ih]

theorem verifyEvents_chained (events : List Recorded) :
    verifyEvents sha256Hex key (chained sha256Hex key (initialHash sha256Hex key) events) =
      ⟨true, events.length, events.length, none⟩ := by
  cases events with
  | nil => rfl
  | cons event events =>
    have hchain := verifyFrom_chained sha256Hex key (event :: events).length 0 0
      (initialHash sha256Hex key) (event :: events)
    have hlength := chained_length sha256Hex key (initialHash sha256Hex key) (event :: events)
    rw [Nat.zero_add] at hchain
    rw [← hchain, ← hlength]
    rfl

theorem recordAll_file (session : ActiveSession) (hchain : session.hashChainEnabled = true)
    (hkey : session.hashKey = key) (events : List Recorded) :
    (recordAll sha256Hex session events).file =
      session.file ++
        (chainedLines sha256Hex key session.lastHash events).flatMap (· ++ ['\n']) := by
  induction events generalizing session with
  | nil => simp [recordAll, chainedLines]
  | cons event events ih =>
    have hstep : (recordEvent sha256Hex session event true).1.lastHash =
        computeHash sha256Hex key session.lastHash
          (eventData event.elapsed.time event.eventType event.data) := by
      simp [recordEvent, hchain, hkey]
    have hfile : (recordEvent sha256Hex session event true).1.file =
        session.file ++ (eventLine event.elapsed event.eventType event.data
          (some (computeHash sha256Hex key session.lastHash
            (eventData event.elapsed.time event.eventType event.data))) ++ ['\n']) := by
      simp [recordEvent, hchain, hkey]
    have hrest := ih (recordEvent sha256Hex session event true).1 hchain hkey
    rw [recordAll, foldl_cons, ← recordAll, hrest, hstep, hfile, chainedLines,
      flatMap_cons, append_assoc]

end Chain

def fileLines (file : Text) : FileLines := (lines file).map some

theorem fileLines_recordAll (sha256Hex : List UInt8 → Text) (session : ActiveSession)
    (header : RecordingHeader) (hchain : session.hashChainEnabled = true)
    (hfile : session.file = header.text ++ ['\n']) (events : List Recorded) :
    fileLines (recordAll sha256Hex session events).file =
      some header.text ::
        (chainedLines sha256Hex session.hashKey session.lastHash events).map some := by
  rw [recordAll_file sha256Hex session.hashKey _ hchain rfl, hfile, fileLines, append_assoc,
    singleton_append, lines_of_oneLine (oneLine_header header),
    lines_flatMap (oneLine_chainedLines sha256Hex _ _ events), map_cons]

theorem fileLines_recorded (sha256Hex : List UInt8 → Text) (key : List UInt8) (host : Text)
    (header : RecordingHeader) (events : List Recorded) :
    fileLines (recordAll sha256Hex (startSession sha256Hex true key host header) events).file =
      some header.text ::
        (chainedLines sha256Hex key (initialHash sha256Hex key) events).map some :=
  fileLines_recordAll sha256Hex (startSession sha256Hex true key host header) header rfl rfl events

/-- Whatever is recorded, and however the digest behaves, the file reads back as the recorded
events and every one of them verifies. -/
theorem recorded_session_verifies (sha256Hex : List UInt8 → Text) (key : List UInt8)
    (host : Text) (title : Option Text) (timestamp : Timestamp) (order : Equiv.Perm (Fin 3))
    (events : List Recorded) :
    let header := sessionHeader host title timestamp order
    let file := fileLines
      (recordAll sha256Hex (startSession sha256Hex true key host header) events).file
    (∃ replayed, replayRecording file = .ok (header, replayed) ∧
      replayed.map (fun e => (e.time, e.eventType, e.data)) =
        events.map fun r => (r.elapsed.seconds, r.eventType, r.data)) ∧
    verifyRecording sha256Hex file key =
      .ok
        { valid := true
          totalEvents := events.length
          verifiedEvents := events.length
          firstInvalidIndex := none } := by
  intro header file
  have hreplay : replayRecording file =
      .ok (header, chained sha256Hex key (initialHash sha256Hex key) events) := by
    change replayRecording (fileLines _) = _
    rw [fileLines_recorded, replayRecording, parse_header]
    simp only [replayEvents_chainedLines]
    rfl
  refine ⟨⟨_, hreplay, chained_contents sha256Hex key _ events⟩, ?_⟩
  rw [verifyRecording, hreplay, ← verifyEvents_chained sha256Hex key events]
  rfl

end BridgeMcp.Recording
