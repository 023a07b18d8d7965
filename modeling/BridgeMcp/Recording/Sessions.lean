import Mathlib.Data.List.Nodup
import BridgeMcp.Lib.Codes
import BridgeMcp.Lib.Transition
import BridgeMcp.Recording.Tampering

/-!
All the recordings of one `SessionRecorder` and the files they are in. A recording is called after
its host and the second it was started in, and its file after the recording.

Which file a name means is up to the file system (`locate`): a host may have a slash in it, and two
names may be links to one file. The state also keeps recordings that are over, and all that was
written for each.
-/
namespace BridgeMcp.Recording
open TextLib JsonLib TransitionLib List Option

structure UtcSecond where
  year : ℤ
  month : Fin 100
  day : Fin 100
  hour : Fin 100
  minute : Fin 100
  second : Fin 100
  deriving DecidableEq

def yearDigits (n : ℕ) : Text := if n < 10 ^ 4 then fixedDigits 4 n else Nat.toDigits 10 n

def yearSign (year : ℤ) : Text :=
  if 0 ≤ year ∧ year ≤ 9999 then [] else if year < 0 then ['-'] else ['+']

def yearText (year : ℤ) : Text := yearSign year ++ yearDigits year.natAbs

def pairs (numbers : List (Fin 100)) : Text := numbers.flatMap fun n : Fin 100 => fixedDigits 2 n.val

def UtcSecond.stamp (now : UtcSecond) : Text :=
  yearText now.year ++ pairs [now.month, now.day] ++ '_' :: pairs [now.hour, now.minute, now.second]

def sessionId (host : Text) (now : UtcSecond) : Text :=
  "rec_" ++ (host ++ '_' :: now.stamp)

def fileName (host : Text) (now : UtcSecond) : Text := sessionId host now ++ ".cast"

theorem fixedDigits_injective {width m n : ℕ} (hm : m < 10 ^ width) (hn : n < 10 ^ width)
    (h : fixedDigits width m = fixedDigits width n) : m = n := by
  have hm' := ofDigitChars_fixedDigits width m 0
  have hn' := ofDigitChars_fixedDigits width n 0
  rw [h, hn', Nat.mod_eq_of_lt hm, Nat.mod_eq_of_lt hn] at hm'
  simpa using hm'.symm

theorem pairs_cons (n : Fin 100) (numbers : List (Fin 100)) :
    pairs (n :: numbers) = fixedDigits 2 n ++ pairs numbers := flatMap_cons

theorem pairs_injective {l m : List (Fin 100)} (hlength : l.length = m.length)
    (h : pairs l = pairs m) : l = m := by
  induction l generalizing m with
  | nil => exact (length_eq_zero_iff.mp hlength.symm).symm
  | cons a l ih =>
    obtain ⟨b, m, rfl⟩ := exists_cons_of_length_eq_add_one hlength.symm
    rw [pairs_cons, pairs_cons] at h
    obtain ⟨hhead, htail⟩ := append_inj h (by rw [fixedDigits_length, fixedDigits_length])
    rw [Fin.ext (fixedDigits_injective a.isLt b.isLt hhead), ih (Nat.succ.inj hlength) htail]

theorem isDigit_pairs (numbers : List (Fin 100)) : ∀ c ∈ pairs numbers, c.isDigit = true := by
  intro c hc
  obtain ⟨n, -, hn⟩ := mem_flatMap.mp hc
  exact isDigit_fixedDigits 2 n c hn

theorem pairs_length (numbers : List (Fin 100)) : (pairs numbers).length = 2 * numbers.length := by
  induction numbers with
  | nil => rfl
  | cons n numbers ih =>
    rw [pairs_cons, length_append, fixedDigits_length, ih, length_cons]
    omega

theorem underscore_notMem_digits {s : Text} (h : ∀ c ∈ s, c.isDigit = true) : '_' ∉ s :=
  fun hmem => absurd (h _ hmem) (by decide)

theorem isDigit_yearDigits (n : ℕ) : ∀ c ∈ yearDigits n, c.isDigit = true := by
  unfold yearDigits
  split_ifs
  · exact isDigit_fixedDigits 4 n
  · exact isDigit_toDigits n

theorem ofDigitChars_yearDigits (n : ℕ) : Nat.ofDigitChars 10 (yearDigits n) 0 = n := by
  unfold yearDigits
  split_ifs with h
  · rw [ofDigitChars_fixedDigits, Nat.mod_eq_of_lt h, Nat.zero_mul, Nat.zero_add]
  · exact Nat.ofDigitChars_ten_toDigits

theorem yearDigits_injective {m n : ℕ} (h : yearDigits m = yearDigits n) : m = n := by
  rw [← ofDigitChars_yearDigits m, h, ofDigitChars_yearDigits]

theorem yearSign_cases (year : ℤ) :
    yearSign year = [] ∧ 0 ≤ year ∨ yearSign year = ['-'] ∧ year < 0 ∨
      yearSign year = ['+'] ∧ 0 ≤ year := by
  unfold yearSign
  split_ifs with hrange hnegative
  · exact .inl ⟨rfl, hrange.1⟩
  · exact .inr (.inl ⟨rfl, hnegative⟩)
  · exact .inr (.inr ⟨rfl, not_lt.mp hnegative⟩)

theorem takeWhile_yearText (year : ℤ) :
    (yearText year).takeWhile (fun c => !c.isDigit) = yearSign year := by
  have hdigits : (yearDigits year.natAbs).takeWhile (fun c => !c.isDigit) = [] := by
    cases hyear : yearDigits year.natAbs with
    | nil => rfl
    | cons c rest =>
      have hc := isDigit_yearDigits year.natAbs c (hyear ▸ mem_cons_self)
      rw [takeWhile_cons_of_neg (by simp [hc])]
  have hsign : ∀ c ∈ yearSign year, (!c.isDigit) = true := by
    obtain ⟨h, -⟩ | ⟨h, -⟩ | ⟨h, -⟩ := yearSign_cases year <;> rw [h] <;> simp
  rw [yearText, takeWhile_append_of_pos hsign, hdigits, append_nil]

theorem yearText_injective {y z : ℤ} (h : yearText y = yearText z) : y = z := by
  have hsign : yearSign y = yearSign z := by
    rw [← takeWhile_yearText, h, takeWhile_yearText]
  rw [yearText, yearText, hsign] at h
  have habs := yearDigits_injective (append_cancel_left h)
  obtain ⟨hy, hy'⟩ | ⟨hy, hy'⟩ | ⟨hy, hy'⟩ := yearSign_cases y <;>
    obtain ⟨hz, hz'⟩ | ⟨hz, hz'⟩ | ⟨hz, hz'⟩ := yearSign_cases z <;>
    first | omega | (rw [hy, hz] at hsign; exact absurd hsign (by decide))

theorem underscore_notMem_yearText (year : ℤ) : '_' ∉ yearText year := by
  rw [yearText, mem_append, not_or]
  refine ⟨?_, underscore_notMem_digits (isDigit_yearDigits _)⟩
  obtain ⟨h, -⟩ | ⟨h, -⟩ | ⟨h, -⟩ := yearSign_cases year <;> rw [h] <;> decide

theorem eq_of_append_cons {c : Char} {left right left' right' : Text} (hright : c ∉ right)
    (hright' : c ∉ right') (h : left ++ c :: right = left' ++ c :: right') :
    left = left' ∧ right = right' := by
  have hsplit := splitLast_append hright left
  rw [h, splitLast_append hright'] at hsplit
  obtain ⟨hleft, hrest⟩ := Prod.mk.inj (some.inj hsplit)
  exact ⟨hleft.symm, hrest.symm⟩

theorem sessionId_injective {host host' : Text} {now now' : UtcSecond}
    (h : sessionId host now = sessionId host' now') : host = host' ∧ now = now' := by
  have hnames := append_cancel_left h
  have hdate (d : UtcSecond) : '_' ∉ yearText d.year ++ pairs [d.month, d.day] := by
    rw [mem_append, not_or]
    exact ⟨underscore_notMem_yearText _, underscore_notMem_digits (isDigit_pairs _)⟩
  have htime (d : UtcSecond) : '_' ∉ pairs [d.hour, d.minute, d.second] :=
    underscore_notMem_digits (isDigit_pairs _)
  -- The last underscore is in front of the time, the one before it in front of the date.
  have houter : (host ++ '_' :: (yearText now.year ++ pairs [now.month, now.day])) ++
        '_' :: pairs [now.hour, now.minute, now.second] =
      (host' ++ '_' :: (yearText now'.year ++ pairs [now'.month, now'.day])) ++
        '_' :: pairs [now'.hour, now'.minute, now'.second] := by
    simpa [UtcSecond.stamp] using hnames
  obtain ⟨hfront, hclock⟩ := eq_of_append_cons (htime now) (htime now') houter
  obtain ⟨hhost, hday⟩ := eq_of_append_cons (hdate now) (hdate now') hfront
  obtain ⟨hyear, hmonth⟩ := append_inj' hday (by rw [pairs_length, pairs_length]; rfl)
  obtain ⟨year, month, day, hour, minute, second⟩ := now
  obtain ⟨year', month', day', hour', minute', second'⟩ := now'
  have hmonths : [month, day] = [month', day'] := pairs_injective rfl hmonth
  have hclocks : [hour, minute, second] = [hour', minute', second'] := pairs_injective rfl hclock
  cases yearText_injective hyear
  cases hmonths
  cases hclocks
  exact ⟨hhost, rfl⟩

/-- A recording that was started, where its file is, and all that was written to it. -/
structure CastFile (ι : Type) where
  host : Text
  now : UtcSecond
  location : ι
  written : List UInt8

def CastFile.id {ι : Type} (recording : CastFile ι) : Text :=
  sessionId recording.host recording.now

/-- An active session and the position of its recording. The handle of the session stands behind
what was written through it. -/
structure Active where
  recording : ℕ
  session : ActiveSession

structure Recorder (ι : Type) where
  disk : ι → List UInt8
  sessions : Text → Option Active
  recordings : List (CastFile ι)

open Recorder

def Recorder.new {ι : Type} (disk : ι → List UInt8) : Recorder ι := ⟨disk, fun _ => none, []⟩

inductive StartOutcome where
  | notOpened
  | headerCut (bytes : ℕ)
  | recording

/-- `cut` is the number of bytes a failed write got through. -/
inductive RecorderCall [Floats] where
  | start (host : Text) (title : Option Text) (now : UtcSecond) (timestamp : Timestamp)
      (order : Equiv.Perm (Fin 3)) (outcome : StartOutcome)
  | record (id : Text) (event : Recorded) (cut : Option ℕ)
  | stop (id : Text)

/-- A write at a position; what lies between the end of the file and the position becomes zeros. -/
def writeAt (content : List UInt8) (pos : ℕ) (data : List UInt8) : List UInt8 :=
  content.take pos ++ replicate (pos - content.length) 0 ++ data ++
    content.drop (pos + data.length)

theorem writeAt_end (content data : List UInt8) :
    writeAt content content.length data = content ++ data := by
  simp [writeAt]

section
variable [Floats] (sha256Hex : List UInt8 → Text)

def eventText (session : ActiveSession) (event : Recorded) : Text :=
  let newHash := computeHash sha256Hex session.hashKey session.lastHash
    (eventData event.elapsed.time event.eventType event.data)
  eventLine event.elapsed event.eventType event.data
    (if session.hashChainEnabled then some newHash else none) ++ ['\n']

variable {ι : Type} (locate : Text → ι) (hashChainEnabled : Bool) (hashKey : List UInt8)

def Recorder.start [DecidableEq ι] (r : Recorder ι) (host : Text) (title : Option Text)
    (now : UtcSecond) (timestamp : Timestamp) (order : Equiv.Perm (Fin 3)) (outcome : StartOutcome) :
    Recorder ι :=
  let header := sessionHeader host title timestamp order
  let line := utf8Bytes (header.text ++ ['\n'])
  let location := locate (fileName host now)
  match outcome with
  | .notOpened => r
  | .headerCut bytes => { r with disk := Function.update r.disk location (line.take bytes) }
  | .recording =>
    { disk := Function.update r.disk location line
      sessions := Function.update r.sessions (sessionId host now)
        (some ⟨r.recordings.length, startSession sha256Hex hashChainEnabled hashKey host header⟩)
      recordings := r.recordings ++ [⟨host, now, location, line⟩] }

/-- Through the handle of the recording at `i`. -/
def Recorder.write [DecidableEq ι] (r : Recorder ι) (i : ℕ) (data : List UInt8) : Recorder ι :=
  match r.recordings[i]? with
  | none => r
  | some recording =>
    { r with
      disk := Function.update r.disk recording.location
        (writeAt (r.disk recording.location) recording.written.length data)
      recordings := r.recordings.set i { recording with written := recording.written ++ data } }

def Recorder.record [DecidableEq ι] (r : Recorder ι) (id : Text) (event : Recorded)
    (cut : Option ℕ) : Recorder ι :=
  match r.sessions id with
  | none => r
  | some active =>
    let line := utf8Bytes (eventText sha256Hex active.session event)
    let session := (recordEvent sha256Hex active.session event cut.isNone).1
    { r.write active.recording (cut.elim line line.take) with
      sessions := Function.update r.sessions id (some ⟨active.recording, session⟩) }

def Recorder.step [DecidableEq ι] (r : Recorder ι) : RecorderCall → Recorder ι
  | .start host title now timestamp order outcome =>
    r.start sha256Hex locate hashChainEnabled hashKey host title now timestamp order outcome
  | .record id event cut => r.record sha256Hex id event cut
  | .stop id => { r with sessions := Function.update r.sessions id none }

def Recorder.run [DecidableEq ι] (r : Recorder ι) (calls : List RecorderCall) : Recorder ι :=
  calls.foldl (step sha256Hex locate hashChainEnabled hashKey) r

def RecorderCall.opens : RecorderCall → Option ι
  | .start _ _ _ _ _ .notOpened => none
  | .start host _ now _ _ _ => some (locate (fileName host now))
  | _ => none

/-- A start that opens its file is the first for its host in its second, and no other name of a
recording means the same file. -/
def Fresh (r : Recorder ι) : RecorderCall → Prop
  | .start _ _ _ _ _ .notOpened => True
  | .start host _ now _ _ _ => ∀ recording ∈ r.recordings,
      (host, now) ≠ (recording.host, recording.now) ∧
        (fileName host now ≠ fileName recording.host recording.now →
          locate (fileName host now) ≠ locate (fileName recording.host recording.now))
  | _ => True

def Belongs (recordings : List (CastFile ι)) (id : Text) (active : Active) : Prop :=
  ∃ recording, recordings[active.recording]? = some recording ∧ recording.id = id

/-- Every active session belongs to the recording of its id; recordings lie where their names say,
in files of their own, with all that was written. -/
structure Intact (r : Recorder ι) : Prop where
  active : ∀ id active, r.sessions id = some active → Belongs r.recordings id active
  located : ∀ recording ∈ r.recordings,
    recording.location = locate (fileName recording.host recording.now)
  apart : (r.recordings.map CastFile.location).Nodup
  kept : ∀ recording ∈ r.recordings, r.disk recording.location = recording.written

variable {sha256Hex locate hashChainEnabled hashKey}

omit [Floats] in
theorem intact_new (disk : ι → List UInt8) : Intact locate (new disk) :=
  ⟨nofun, nofun, nodup_nil, nofun⟩

variable {r : Recorder ι}

omit [Floats] in
theorem Intact.ids_nodup (h : Intact locate r) :
    (r.recordings.map CastFile.id).Nodup := by
  refine (List.Nodup.of_map _ h.apart).map_on ?_
  intro a ha b hb hid
  obtain ⟨hhost, hnow⟩ := sessionId_injective hid
  refine inj_on_of_nodup_map h.apart ha hb ?_
  rw [h.located a ha, h.located b hb, hhost, hnow]

theorem fresh_iff (h : Intact locate r) (call : RecorderCall) :
    Fresh locate r call ↔
      ∀ recording ∈ r.recordings, call.opens locate ≠ some recording.location := by
  have hstart (host : Text) (now : UtcSecond) :
      (∀ recording ∈ r.recordings, (host, now) ≠ (recording.host, recording.now) ∧
        (fileName host now ≠ fileName recording.host recording.now →
          locate (fileName host now) ≠ locate (fileName recording.host recording.now))) ↔
      ∀ recording ∈ r.recordings,
        some (locate (fileName host now)) ≠ some recording.location := by
    refine forall₂_congr fun recording hmem => ?_
    rw [h.located recording hmem]
    constructor
    · rintro ⟨hpair, hlink⟩ hlocation
      refine hlink (fun hname => hpair ?_) (some.inj hlocation)
      obtain ⟨hhost, hnow⟩ := sessionId_injective (append_cancel_right hname)
      rw [hhost, hnow]
    · intro hlocation
      refine ⟨fun hpair => hlocation ?_, fun _ hsame => hlocation (congrArg some hsame)⟩
      obtain ⟨hhost, hnow⟩ := Prod.mk.inj hpair
      rw [hhost, hnow]
  cases call with
  | start host title now timestamp order outcome =>
    cases outcome with
    | notOpened => exact ⟨fun _ _ _ => nofun, fun _ => trivial⟩
    | headerCut bytes => exact hstart host now
    | recording => exact hstart host now
  | record id event cut => exact ⟨fun _ _ _ => nofun, fun _ => trivial⟩
  | stop id => exact ⟨fun _ _ _ => nofun, fun _ => trivial⟩

omit [Floats] in
theorem belongs_update {recordings : List (CastFile ι)} {sessions : Text → Option Active} {id : Text}
    {value : Option Active}
    (hold : ∀ id active, sessions id = some active → Belongs recordings id active)
    (hnew : ∀ active, value = some active → Belongs recordings id active) :
    ∀ id' active, Function.update sessions id value id' = some active →
      Belongs recordings id' active := by
  intro id' active hactive
  by_cases hid : id' = id
  · subst hid
    rw [Function.update_self] at hactive
    exact hnew active hactive
  · rw [Function.update_of_ne hid] at hactive
    exact hold id' active hactive

variable [DecidableEq ι]

theorem Intact.start {r : Recorder ι} (h : Intact locate r) (host : Text) (title : Option Text)
    (now : UtcSecond) (timestamp : Timestamp) (order : Equiv.Perm (Fin 3)) (outcome : StartOutcome)
    (hfresh : ∀ recording ∈ r.recordings,
      (RecorderCall.start host title now timestamp order outcome).opens locate ≠
        some recording.location) :
    Intact locate (r.start sha256Hex locate hashChainEnabled hashKey host title now timestamp order
      outcome) := by
  have hother (content : List UInt8) (hne : ∀ recording ∈ r.recordings,
      some (locate (fileName host now)) ≠ some recording.location) :
      ∀ recording ∈ r.recordings,
        Function.update r.disk (locate (fileName host now)) content recording.location =
          recording.written := by
    intro recording hmem
    rw [Function.update_of_ne fun heq => hne recording hmem (congrArg some heq.symm)]
    exact h.kept recording hmem
  cases outcome with
  | notOpened => exact h
  | headerCut bytes => exact ⟨h.active, h.located, h.apart, hother _ hfresh⟩
  | recording =>
    refine ⟨?_, ?_, ?_, ?_⟩
    · refine belongs_update (fun id active hactive => ?_) fun active hactive => ?_
      · obtain ⟨recording, hrecording, hid⟩ := h.active id active hactive
        refine ⟨recording, ?_, hid⟩
        exact (getElem?_append_left (List.getElem?_eq_some_iff.mp hrecording).1).trans
          hrecording
      · obtain rfl := some.inj hactive
        exact ⟨_, getElem?_concat_length, rfl⟩
    · intro recording hmem
      rcases mem_append.mp hmem with hold | hnew
      · exact h.located recording hold
      · rw [mem_singleton.mp hnew]
    · rw [Recorder.start, map_append, nodup_append]
      refine ⟨h.apart, nodup_singleton _, ?_⟩
      intro location hlocation location' hlocation' heq
      obtain ⟨recording, hmem, rfl⟩ := mem_map.mp hlocation
      rw [map_singleton, mem_singleton] at hlocation'
      exact hfresh recording hmem (congrArg some (heq.trans hlocation').symm)
    · intro recording hmem
      rcases mem_append.mp hmem with hold | hnew
      · exact hother _ hfresh recording hold
      · rw [mem_singleton.mp hnew]
        exact Function.update_self _ _ _

omit [Floats] in
theorem Recorder.write_sessions (r : Recorder ι) (i : ℕ) (data : List UInt8) :
    (r.write i data).sessions = r.sessions := by
  unfold write
  split <;> rfl

variable {file : CastFile ι}

omit [Floats] in
theorem getElem?_write {i : ℕ} {data : List UInt8} (hi : r.recordings[i]? = some file) (j : ℕ) :
    (r.write i data).recordings[j]? =
      if i = j then some { file with written := file.written ++ data } else r.recordings[j]? := by
  have hlt := (List.getElem?_eq_some_iff.mp hi).1
  rw [write, hi]
  dsimp only
  rw [getElem?_set, if_pos hlt]

omit [Floats] in
theorem Intact.write (h : Intact locate r) (i : ℕ) (data : List UInt8) :
    Intact locate (r.write i data) := by
  cases hi : r.recordings[i]? with
  | none =>
    rw [Recorder.write, hi]
    exact h
  | some file =>
    have hfile := mem_of_getElem? hi
    have hdisk : (r.write i data).disk = Function.update r.disk file.location
        (file.written ++ data) := by
      rw [Recorder.write, hi]
      dsimp only
      rw [h.kept file hfile, writeAt_end]
    refine ⟨?_, ?_, ?_, ?_⟩
    · intro id active hactive
      rw [write_sessions] at hactive
      obtain ⟨recording, hrecording, hid⟩ := h.active id active hactive
      rw [Belongs, getElem?_write hi]
      split_ifs with hsame
      · rw [← hsame, hi] at hrecording
        obtain rfl := some.inj hrecording
        exact ⟨_, rfl, hid⟩
      · exact ⟨recording, hrecording, hid⟩
    · intro recording hrecording
      obtain ⟨j, hj⟩ := getElem?_of_mem hrecording
      rw [getElem?_write hi] at hj
      split_ifs at hj
      · obtain rfl := some.inj hj
        exact h.located file hfile
      · exact h.located recording (mem_of_getElem? hj)
    · have hlocations : (r.write i data).recordings.map CastFile.location =
          r.recordings.map CastFile.location := by
        refine ext_getElem? fun j => ?_
        rw [getElem?_map, getElem?_write hi, getElem?_map]
        split_ifs with hsame
        · rw [← hsame, hi]
          rfl
        · rfl
      rw [hlocations]
      exact h.apart
    · intro recording hrecording
      obtain ⟨j, hj⟩ := getElem?_of_mem hrecording
      rw [getElem?_write hi] at hj
      rw [hdisk]
      split_ifs at hj with hsame
      · obtain rfl := some.inj hj
        exact Function.update_self _ _ _
      · -- Another recording is in another file.
        have hne : recording.location ≠ file.location := by
          intro heq
          refine hsame ((getElem?_inj ?_ h.apart).mp ?_)
          · rw [length_map]
            exact (List.getElem?_eq_some_iff.mp hi).1
          · rw [getElem?_map, getElem?_map, hi, hj, map_some, map_some,
              heq]
        rw [Function.update_of_ne hne]
        exact h.kept recording (mem_of_getElem? hj)

theorem Intact.step (h : Intact locate r) (call : RecorderCall) (hfresh : Fresh locate r call) :
    Intact locate (r.step sha256Hex locate hashChainEnabled hashKey call) := by
  cases call with
  | start host title now timestamp order outcome =>
    exact h.start host title now timestamp order outcome ((fresh_iff h _).mp hfresh)
  | stop id =>
    exact ⟨belongs_update h.active nofun, h.located, h.apart, h.kept⟩
  | record id event cut =>
    rw [Recorder.step, Recorder.record]
    cases hsession : r.sessions id with
    | none => exact h
    | some active =>
      have hwrite := h.write active.recording
        (cut.elim (utf8Bytes (eventText sha256Hex active.session event))
          (utf8Bytes (eventText sha256Hex active.session event)).take)
      have hactive : ∀ id active', r.sessions id = some active' →
          Belongs (r.write active.recording _).recordings id active' := fun id active' hsome =>
        hwrite.active id active' (by rw [write_sessions, hsome])
      refine ⟨belongs_update hactive fun active' hsome => ?_, hwrite.located, hwrite.apart,
        hwrite.kept⟩
      obtain rfl := some.inj hsome
      exact hactive id active hsession

theorem exists_after_step (r : Recorder ι) (call : RecorderCall) {i : ℕ}
    (hi : r.recordings[i]? = some file) :
    ∃ later, (r.step sha256Hex locate hashChainEnabled hashKey call).recordings[i]? = some later ∧
      later.id = file.id ∧ file.written <+: later.written := by
  have hlt := (List.getElem?_eq_some_iff.mp hi).1
  cases call with
  | start host title now timestamp order outcome =>
    refine ⟨file, ?_, rfl, List.prefix_rfl⟩
    cases outcome with
    | notOpened => exact hi
    | headerCut bytes => exact hi
    | recording => exact (getElem?_append_left hlt).trans hi
  | stop id => exact ⟨file, hi, rfl, List.prefix_rfl⟩
  | record id event cut =>
    rw [step, record]
    cases hsession : r.sessions id with
    | none => exact ⟨file, hi, rfl, List.prefix_rfl⟩
    | some active =>
      dsimp only
      cases hactive : r.recordings[active.recording]? with
      | none =>
        refine ⟨file, ?_, rfl, List.prefix_rfl⟩
        rw [write, hactive]
        exact hi
      | some current =>
        rw [getElem?_write hactive]
        split_ifs with hsame
        · rw [hsame, hi] at hactive
          obtain rfl := some.inj hactive
          exact ⟨_, rfl, rfl, List.prefix_append _ _⟩
        · exact ⟨file, hi, rfl, List.prefix_rfl⟩

theorem exists_after_run (r : Recorder ι) (calls : List RecorderCall) {i : ℕ}
    (hi : r.recordings[i]? = some file) :
    ∃ later, (r.run sha256Hex locate hashChainEnabled hashKey calls).recordings[i]? = some later ∧
      later.id = file.id ∧ file.written <+: later.written := by
  induction calls generalizing r file with
  | nil => exact ⟨file, hi, rfl, List.prefix_rfl⟩
  | cons call calls ih =>
    obtain ⟨next, hnext, hid, hprefix⟩ := exists_after_step r call hi
    obtain ⟨later, hlater, hid', hprefix'⟩ := ih _ hnext
    exact ⟨later, hlater, hid'.trans hid, hprefix.trans hprefix'⟩

end

section
variable [Floats] {ι : Type} [DecidableEq ι] (sha256Hex : List UInt8 → Text) (locate : Text → ι)
  (hashChainEnabled : Bool) (hashKey : List UInt8)

/-- Recordings do not get in each other's way: ids differ, no call truncates the file of an earlier
recording, and every file has all that was written for its recording, so every event that was
recorded under an id. -/
structure Kept (disk : ι → List UInt8) (calls : List RecorderCall) : Prop where
  ids : ∀ before after, calls = before ++ after →
    (((new disk).run sha256Hex locate hashChainEnabled hashKey before).recordings.map
      CastFile.id).Nodup
  untouched : Along (step sha256Hex locate hashChainEnabled hashKey)
    (fun r call => ∀ recording ∈ r.recordings, call.opens locate ≠ some recording.location)
    (new disk) calls
  files : ∀ before after, calls = before ++ after →
    let r := (new disk).run sha256Hex locate hashChainEnabled hashKey before
    ∀ recording ∈ r.recordings, r.disk recording.location = recording.written
  events : ∀ before id event after, calls = before ++ .record id event none :: after →
    ∀ active, ((new disk).run sha256Hex locate hashChainEnabled hashKey before).sessions
        id = some active →
      let r := (new disk).run sha256Hex locate hashChainEnabled hashKey calls
      ∃ recording, r.recordings[active.recording]? = some recording ∧ recording.id = id ∧
        utf8Bytes (eventText sha256Hex active.session event) <:+: r.disk recording.location

variable {sha256Hex locate hashChainEnabled hashKey}

variable {r : Recorder ι}

theorem Intact.run (hr : Intact locate r) {calls : List RecorderCall}
    (h : Along (Recorder.step sha256Hex locate hashChainEnabled hashKey) (Fresh locate) r calls) :
    Intact locate (r.run sha256Hex locate hashChainEnabled hashKey calls) :=
  h.invariant hr fun _ call hs hfresh => hs.step call hfresh

theorem along_fresh_iff (hr : Intact locate r) (calls : List RecorderCall) :
    Along (step sha256Hex locate hashChainEnabled hashKey) (Fresh locate) r calls ↔
      Along (step sha256Hex locate hashChainEnabled hashKey)
        (fun r call => ∀ recording ∈ r.recordings, call.opens locate ≠ some recording.location)
        r calls := by
  induction calls generalizing r with
  | nil => exact ⟨fun _ => along_nil, fun _ => along_nil⟩
  | cons call calls ih =>
    rw [along_cons, along_cons, fresh_iff hr call]
    refine and_congr_right fun huntouched => ?_
    exact ih (hr.step call ((fresh_iff hr call).mpr huntouched))

theorem exists_recorded {r : Recorder ι} (hr : Intact locate r) {id : Text} {event : Recorded}
    {active : Active} (hactive : r.sessions id = some active) {after : List RecorderCall}
    (h : Along (Recorder.step sha256Hex locate hashChainEnabled hashKey) (Fresh locate) r
      (.record id event none :: after)) :
    let last := r.run sha256Hex locate hashChainEnabled hashKey (.record id event none :: after)
    ∃ recording, last.recordings[active.recording]? = some recording ∧ recording.id = id ∧
      utf8Bytes (eventText sha256Hex active.session event) <:+: last.disk recording.location := by
  intro last
  obtain ⟨recording, hrecording, hid⟩ := hr.active id active hactive
  let line := utf8Bytes (eventText sha256Hex active.session event)
  have hnext : (r.step sha256Hex locate hashChainEnabled hashKey
      (.record id event none)).recordings[active.recording]? =
        some { recording with written := recording.written ++ line } := by
    rw [Recorder.step, Recorder.record, hactive]
    exact (getElem?_write hrecording active.recording).trans (if_pos rfl)
  obtain ⟨later, hlater, hsame, hprefix⟩ := exists_after_run _ after hnext
  refine ⟨later, hlater, hsame.trans hid, ?_⟩
  rw [(hr.run h).kept later (mem_of_getElem? hlater)]
  exact (suffix_append recording.written line).isInfix.trans hprefix.isInfix

variable (sha256Hex locate hashChainEnabled hashKey)

theorem kept_iff_fresh (disk : ι → List UInt8) (calls : List RecorderCall) :
    Kept sha256Hex locate hashChainEnabled hashKey disk calls ↔
      Along (Recorder.step sha256Hex locate hashChainEnabled hashKey) (Fresh locate)
        (Recorder.new disk) calls := by
  have hnew : Intact locate (Recorder.new disk) := intact_new disk
  constructor
  · intro h
    exact (along_fresh_iff hnew calls).mpr h.untouched
  · intro h
    refine ⟨?_, (along_fresh_iff hnew calls).mp h, ?_, ?_⟩
    · rintro before after rfl
      exact (hnew.run h.of_append).ids_nodup
    · rintro before after rfl
      exact (hnew.run h.of_append).kept
    · rintro before id event after rfl active hactive
      have hlast := exists_recorded (hnew.run h.of_append) hactive h.append_right
      rw [Recorder.run, foldl_append]
      exact hlast

end

/-- A host is recorded twice within a second. The recordings have one id, and the second start has
wiped out what the first had recorded. -/
theorem second_start_truncates :
    let now : UtcSecond := ⟨2026, 1, 31, 12, 0, 0⟩
    let begins : RecorderCall :=
      .start "web" none now ⟨1769860800, by decide⟩ (Equiv.refl _) .recording
    let listed : RecorderCall :=
      .record (sessionId "web" now) ⟨sampleTime 500000 (by decide), "o", "ls"⟩ none
    let r := (new fun _ : Text => []).run (fun _ => []) id false [] [begins, listed, begins]
    r.recordings.map CastFile.id =
        [sessionId "web" now, sessionId "web" now] ∧
      ∃ recording, r.recordings[0]? = some recording ∧
        (r.disk recording.location).length < recording.written.length :=
  ⟨rfl, _, rfl, by decide +kernel⟩

end BridgeMcp.Recording
