import BridgeMcp.Session.Exec

/-!
What a call of `exec` reports is its own command's. A read throws nothing back: what its last
message brings beyond the end marker is gone, and what that message does not bring is read as the
next command's output.
-/
namespace BridgeMcp.Session
open TextLib TransitionLib List

def Arrival.length : Arrival → ℕ
  | .data length | .extendedData length => length
  | _ => 0

def brought (arrivals : List Arrival) : ℕ := (arrivals.map Arrival.length).sum

def cuts (wire : List UInt8) : List Arrival → List (List UInt8)
  | [] => []
  | arrival :: arrivals => wire.take arrival.length :: cuts (wire.drop arrival.length) arrivals

theorem brought_cons (arrival : Arrival) (arrivals : List Arrival) :
    brought (arrival :: arrivals) = arrival.length + brought arrivals := by
  rw [brought, map_cons, sum_cons]
  rfl

theorem cuts_flatten (wire : List UInt8) (arrivals : List Arrival) :
    (cuts wire arrivals).flatten = wire.take (brought arrivals) := by
  induction arrivals generalizing wire with
  | nil => rfl
  | cons arrival arrivals ih =>
    rw [cuts, flatten_cons, ih, brought_cons, take_add]

theorem spells_cuts (messages : List (List UInt8)) :
    Spells messages.flatten (messages.flatMap fromUtf8Lossy) := by
  induction messages with
  | nil => exact .nil
  | cons message messages ih => exact (spells_fromUtf8Lossy message).append ih

theorem utf8Bytes_cuts {messages : List (List UInt8)}
    (h : ∀ message ∈ messages, utf8Bytes (fromUtf8Lossy message) = message) :
    utf8Bytes (messages.flatMap fromUtf8Lossy) = messages.flatten := by
  induction messages with
  | nil => rfl
  | cons message messages ih =>
    obtain ⟨hmessage, hrest⟩ := forall_mem_cons.mp h
    rw [flatMap_cons, utf8Bytes_append, hmessage, ih hrest, flatten_cons]

def Brings (marker : Text) (wire : List UInt8) (arrivals : List Arrival) : Prop :=
  utf8Bytes marker <:+: wire.take (brought arrivals)

/-- `raw` and `rest` are what the first `k` arrivals make of `output` and `wire`. -/
def DecodedBy (output raw : Text) (wire rest : List UInt8) (arrivals : List Arrival) (k : ℕ) :
    Prop :=
  rest = wire.drop (brought (arrivals.take k)) ∧
    raw = output ++ (cuts wire (arrivals.take k)).flatMap fromUtf8Lossy

variable {arrivals : List Arrival} {wire rest : List UInt8}

theorem DecodedBy.cons {output raw : Text} {arrival : Arrival} {k : ℕ}
    (h : DecodedBy (output ++ fromUtf8Lossy (wire.take arrival.length)) raw
      (wire.drop arrival.length) rest arrivals k) :
    DecodedBy output raw wire rest (arrival :: arrivals) (k + 1) := by
  obtain ⟨rfl, rfl⟩ := h
  refine ⟨?_, ?_⟩
  · rw [take_succ_cons, brought_cons, drop_drop]
  · rw [take_succ_cons, cuts, flatMap_cons, append_assoc]

theorem decodedBy_zero (output : Text) (wire : List UInt8) (arrivals : List Arrival) :
    DecodedBy output output wire wire arrivals 0 := by
  simp [DecodedBy, brought, cuts]

theorem read_decodes {marker : Text} {timeoutSecs : ℕ} {output raw : Text}
    (h : readUntilMarkerInclusive marker timeoutSecs output wire arrivals = (.ok raw, rest)) :
    ∃ k ≤ arrivals.length, DecodedBy output raw wire rest arrivals k ∧
      contains raw marker = true := by
  induction arrivals generalizing output wire with
  | nil => cases h
  | cons arrival arrivals ih =>
    -- a message with bytes either completes the marker or is followed by the rest of the loop
    have hdata : ∀ length, arrival.length = length →
        (if contains (output ++ fromUtf8Lossy (wire.take length)) marker = true then
          (.ok (output ++ fromUtf8Lossy (wire.take length)), wire.drop length)
        else
          readUntilMarkerInclusive marker timeoutSecs
            (output ++ fromUtf8Lossy (wire.take length)) (wire.drop length) arrivals) =
          ((.ok raw : Except BridgeError Text), rest) →
        ∃ k ≤ (arrival :: arrivals).length,
          DecodedBy output raw wire rest (arrival :: arrivals) k ∧
            contains raw marker = true := by
      rintro length rfl h
      split at h
      · next hfound =>
          cases h
          exact ⟨1, by simp, (decodedBy_zero _ _ arrivals).cons, hfound⟩
      · obtain ⟨k, hk, hdecoded, hfound⟩ := ih h
        exact ⟨k + 1, by simpa using hk, hdecoded.cons, hfound⟩
    cases arrival with
    | data length => exact hdata length rfl h
    | extendedData length => exact hdata length rfl h
    | eof => cases h
    | closed => cases h
    | other =>
      obtain ⟨k, hk, hdecoded, hfound⟩ := ih h
      refine ⟨k + 1, by simpa using hk, DecodedBy.cons ?_, hfound⟩
      simpa [Arrival.length, fromUtf8Lossy, lossyFrom] using hdecoded

theorem read_ok {marker : Text} (hmarker : IsAscii marker) {timeoutSecs : ℕ} {raw : Text}
    (h : readUntilMarkerInclusive marker timeoutSecs [] wire arrivals = (.ok raw, rest)) :
    ∃ k ≤ arrivals.length, rest = wire.drop (brought (arrivals.take k)) ∧
      raw = (cuts wire (arrivals.take k)).flatMap fromUtf8Lossy ∧
      Brings marker wire (arrivals.take k) := by
  obtain ⟨k, hk, ⟨hrest, hraw⟩, hfound⟩ := read_decodes h
  rw [nil_append] at hraw
  refine ⟨k, hk, hrest, hraw, ?_⟩
  have hspells := spells_cuts (cuts wire (arrivals.take k))
  rw [cuts_flatten, ← hraw] at hspells
  exact hspells.contains hmarker (contains_iff.mp hfound)

/-- The first `k` arrivals bring the whole answer, each message of it valid UTF-8, and the answer
can be told apart: no begin marker too early, a plain directory name. -/
structure CleanRead (eol : Eol) (call : Call) (k : ℕ) : Prop where
  wholeLine : (call.reply.bytes eol call.execId).length ≤ brought (call.readArrivals.take k)
  valid : ∀ message ∈ cuts (call.reply.bytes eol call.execId) (call.readArrivals.take k),
    utf8Bytes (fromUtf8Lossy message) = message
  beginsOnce : call.reply.BeginsOnce eol call.execId
  plainCwd : call.reply.PlainCwd

/-- Once the arrivals have brought the marker, they have brought all that is on its way. -/
def TakesWholeLine (marker : Text) (wire : List UInt8) (arrivals : List Arrival) : Prop :=
  ∀ k ≤ arrivals.length, Brings marker wire (arrivals.take k) →
    wire.length ≤ brought (arrivals.take k)

/-- The call's own read is clean if it gets as far as the end marker. -/
def ReadsCleanly (eol : Eol) (call : Call) : Prop :=
  ∀ k ≤ call.readArrivals.length,
    Brings (endMarker call.execId) (call.reply.bytes eol call.execId) (call.readArrivals.take k) →
      CleanRead eol call k

/-- No read of the call stops between its end marker and the end of the marker's line, and what
the call reads of its own command can be decoded and told apart. -/
structure CleanCall (eol : Eol) (link : Link) (call : Call) : Prop where
  drain : ∀ stale ∈ link.session.bind LiveSession.pendingEndMarker,
    TakesWholeLine stale link.channel.wire call.drainArrivals
  read : ReadsCleanly eol call

/-- A session with no command outstanding has nothing on its way. -/
def Synced (session : LiveSession) (wire : List UInt8) : Prop :=
  match session.pendingEndMarker with
  | none => wire = []
  | some stale => IsAscii stale

theorem drain_empties {session kept : LiveSession} (hsynced : Synced session wire)
    (hclean : ∀ stale ∈ session.pendingEndMarker, TakesWholeLine stale wire arrivals)
    (h : drainStaleOutput session wire arrivals = (.ok kept, rest)) :
    rest = [] ∧ kept.pendingEndMarker = none := by
  unfold drainStaleOutput at h
  unfold Synced at hsynced
  split at h
  · next hnone =>
      cases h
      rw [hnone] at hsynced
      exact ⟨hsynced, hnone⟩
  · next stale hstale =>
      rw [hstale] at hsynced
      split at h
      · next raw wire' hread =>
          cases h
          obtain ⟨k, hk, rfl, -, hbrings⟩ := read_ok hsynced hread
          exact ⟨drop_eq_nil_of_le (hclean stale hstale k hk hbrings), rfl⟩
      · cases h

theorem read_reports {eol : Eol} {call : Call} {raw : Text} {rest : List UInt8} (id : SessionId)
    (hclean : ReadsCleanly eol call)
    (h : readUntilMarkerInclusive (endMarker call.execId) call.timeoutSecs []
      (call.reply.bytes eol call.execId) call.readArrivals = (.ok raw, rest)) :
    rest = [] ∧
      call.reply.ReportedBy ⟨id, (parseExecOutput raw (beginMarker call.execId)).1,
        (parseExecOutput raw (beginMarker call.execId)).2.1,
        (parseExecOutput raw (beginMarker call.execId)).2.2⟩ := by
  obtain ⟨k, hk, rfl, rfl, hbrings⟩ := read_ok (endMarker_isAscii call.execId) h
  obtain ⟨hwhole, hvalid, hbegin, hcwd⟩ := hclean k hk hbrings
  refine ⟨drop_eq_nil_of_le hwhole, ?_⟩
  have hraw := utf8Bytes_cuts hvalid
  rw [cuts_flatten, take_of_length_le hwhole] at hraw
  obtain ⟨text, cwd, htext, hcwdText, hparse⟩ := parseExecOutput_raw hraw hbegin hcwd
  rw [hparse]
  exact ⟨⟨text, htext, rfl⟩, parseU32_decimal _, hcwdText⟩

variable {session : LiveSession}

theorem drain_failed_synced {e : BridgeError} (hsynced : Synced session wire)
    (h : drainStaleOutput session wire arrivals = (.error e, rest)) : Synced session rest := by
  cases hpending : session.pendingEndMarker with
  | none => simp [drainStaleOutput, hpending] at h
  | some stale => simpa only [Synced, hpending] using hsynced

/-- What a call may leave behind and return: a session in step with its channel, and a result
only if it is the command's own. -/
def Sound (reply : Reply)
    (next : Option LiveSession × Channel × Except BridgeError SessionExecResult) : Prop :=
  (∀ kept ∈ next.1, Synced kept next.2.1.wire) ∧
    ∀ result, next.2.2 = .ok result → reply.ReportedBy result

theorem sound_removed (reply : Reply) (channel : Channel) (e : BridgeError) :
    Sound reply (none, channel, .error e) := by
  constructor
  · intro kept h
    cases h
  · intro result h
    cases h

theorem sound_failed (reply : Reply) {channel : Channel}
    (h : Synced session channel.wire) (e : BridgeError) :
    Sound reply (some session, channel, .error e) := by
  constructor
  · rintro kept ⟨⟩
    exact h
  · intro result h
    cases h

theorem exec_sound (config : SessionConfig) {eol : Eol} (id : SessionId)
    {channel : Channel} {call : Call} (hsynced : Synced session channel.wire)
    (hdrain : ∀ stale ∈ session.pendingEndMarker,
      TakesWholeLine stale channel.wire call.drainArrivals)
    (hread : ReadsCleanly eol call) :
    Sound call.reply (exec config eol id session channel call) := by
  unfold exec
  split
  · exact sound_removed _ _ _
  split
  · exact sound_failed _ hsynced _
  split
  · next e wire hfailed =>
      split
      · exact sound_removed _ _ _
      · exact sound_failed _ (drain_failed_synced hsynced hfailed) _
  · next drained wire hdrained =>
      -- the drain has emptied the stream, so the read sees this command's answer alone
      obtain ⟨rfl, hnone⟩ := drain_empties hsynced hdrain hdrained
      simp only [nil_append]
      split
      · split
        · next raw rest hok =>
            obtain ⟨rfl, hreported⟩ := read_reports id hread hok
            constructor
            · rintro kept ⟨⟩
              simp [Synced, hnone]
            · rintro result ⟨⟩
              exact hreported
        · split
          · exact sound_removed _ _ _
          · refine sound_failed _ ?_ _
            exact endMarker_isAscii call.execId
      · exact sound_removed _ _ _

namespace Link

/-- The session is in step with its channel, and every call that returned a result returned its
own command's. -/
structure Isolated (link : Link) : Prop where
  synced : ∀ session ∈ link.session, Synced session link.channel.wire
  reported : ∀ call result, (call, .ok result) ∈ link.history → call.reply.ReportedBy result

theorem step_isolated {config : SessionConfig} {eol : Eol} {link next : Link} {call : Call}
    (h : link.Isolated) (hclean : CleanCall eol link call)
    (hstep : link.step config eol call = some next) : next.Isolated := by
  unfold step at hstep
  split at hstep
  · next hgone =>
      cases hstep
      refine ⟨h.synced, fun call' result hmem => ?_⟩
      obtain hmem | hlast := mem_append.mp hmem
      · exact h.reported call' result hmem
      · simp at hlast
  · next session hlive =>
      cases hstep
      have hsound := exec_sound config link.id (h.synced session hlive)
        (by simpa [hlive] using hclean.drain) hclean.read
      refine ⟨hsound.1, fun call' result hmem => ?_⟩
      obtain hmem | hlast := mem_append.mp hmem
      · exact h.reported call' result hmem
      · obtain ⟨rfl, hresult⟩ := Prod.mk.inj (mem_singleton.mp hlast)
        exact hsound.2 result hresult.symm

/-- In every run of clean calls on a fresh session, each call that returns a result returns the
bytes, the exit code and the directory of its own command. -/
theorem exec_reports_own_command (config : SessionConfig) (eol : Eol) (id : SessionId)
    (session : LiveSession) (hfresh : session.pendingEndMarker = none) (link : Link)
    (h : Reaches (step config eol) (CleanCall eol) (new id session) link) :
    ∀ call result, (call, .ok result) ∈ link.history → call.reply.ReportedBy result := by
  have hstart : (new id session).Isolated := by
    refine ⟨?_, by simp [new]⟩
    rintro session ⟨⟩
    simp [Synced, hfresh, new]
  have hisolated := Reaches.invariant (P := Isolated) hstart
    (fun _ _ _ hlink hclean hstep => step_isolated hlink hclean hstep) h
  exact hisolated.reported

end Link

section Runs

instance (marker : Text) (wire : List UInt8) (arrivals : List Arrival) :
    Decidable (Brings marker wire arrivals) :=
  inferInstanceAs (Decidable (_ <:+: _))

instance (reply : Reply) (eol : Eol) (id : Uuid) : Decidable (reply.BeginsOnce eol id) :=
  inferInstanceAs (Decidable (∀ i < _, _))

instance (reply : Reply) : Decidable reply.PlainCwd := inferInstanceAs (Decidable (_ ∧ _))

theorem cleanRead_iff (eol : Eol) (call : Call) (k : ℕ) :
    CleanRead eol call k ↔
      (call.reply.bytes eol call.execId).length ≤ brought (call.readArrivals.take k) ∧
        (∀ message ∈ cuts (call.reply.bytes eol call.execId) (call.readArrivals.take k),
          utf8Bytes (fromUtf8Lossy message) = message) ∧
        call.reply.BeginsOnce eol call.execId ∧ call.reply.PlainCwd :=
  ⟨fun h => ⟨h.1, h.2, h.3, h.4⟩, fun h => ⟨h.1, h.2.1, h.2.2.1, h.2.2.2⟩⟩

instance (eol : Eol) (call : Call) (k : ℕ) : Decidable (CleanRead eol call k) :=
  decidable_of_iff' _ (cleanRead_iff eol call k)

instance (marker : Text) (wire : List UInt8) (arrivals : List Arrival) :
    Decidable (TakesWholeLine marker wire arrivals) :=
  inferInstanceAs (Decidable (∀ k ≤ _, _))

instance (eol : Eol) (call : Call) : Decidable (ReadsCleanly eol call) :=
  inferInstanceAs (Decidable (∀ k ≤ _, _))

theorem cleanCall_iff (eol : Eol) (link : Link) (call : Call) :
    CleanCall eol link call ↔
      (∀ stale ∈ link.session.bind LiveSession.pendingEndMarker,
        TakesWholeLine stale link.channel.wire call.drainArrivals) ∧ ReadsCleanly eol call :=
  ⟨fun h => ⟨h.1, h.2⟩, fun h => ⟨h.1, h.2⟩⟩

instance (eol : Eol) (link : Link) (call : Call) : Decidable (CleanCall eol link call) :=
  decidable_of_iff' _ (cleanCall_iff eol link call)

def firstId : Uuid := ⟨"01234567-89ab-4def-8123-456789abcdef", by decide +kernel⟩

def secondId : Uuid := ⟨"11234567-89ab-4def-8123-456789abcdef", by decide +kernel⟩

def thirdId : Uuid := ⟨"21234567-89ab-4def-8123-456789abcdef", by decide +kernel⟩

def sampleSession : LiveSession := ⟨⟨"web", 0, 0⟩, .posix, ['/'], none⟩

def sampleCall (execId : Uuid) (output : Text) (drainArrivals readArrivals : List Arrival) :
    Call where
  command := "true"
  timeoutSecs := 5
  execId
  startedAt := 0
  sentAt := 0
  endsSession := false
  drainArrivals
  sendSucceeds := true
  reply := ⟨utf8Bytes output, 0, utf8Bytes ['/']⟩
  readArrivals

def Link.outputs (link : Link) : List (List UInt8 × Option Text) :=
  link.history.map fun entry => (entry.1.reply.output, entry.2.toOption.map (·.output))

/-- A command overruns its deadline, a second call finds it still running, and a third drains its
leftovers and gets its own answer in two messages. -/
def overrunCalls : List Call :=
  [sampleCall firstId "one" [] [.data 2], sampleCall secondId "two" [.data 20] [],
    sampleCall thirdId "three" [.data 200] [.data 60, .other, .extendedData 200]]

theorem exec_reports_after_overrun :
    ∃ link, runAll (Link.step ⟨1, 300, 3600⟩ .lf) (CleanCall .lf) (Link.new 7 sampleSession)
        overrunCalls = some link ∧
      (∀ call result, (call, .ok result) ∈ link.history → call.reply.ReportedBy result) ∧
      link.outputs.map Prod.snd = [none, none, some "three".toList] := by
  have hrun : (runAll (Link.step ⟨1, 300, 3600⟩ .lf) (CleanCall .lf) (Link.new 7 sampleSession)
      overrunCalls).map (fun link => link.outputs.map Prod.snd) =
        some [none, none, some "three".toList] := by decide +kernel
  obtain ⟨link, hlink, houtputs⟩ := Option.map_eq_some_iff.mp hrun
  exact ⟨link, hlink, Link.exec_reports_own_command _ _ _ _ rfl link (runAll_reaches _ hlink),
    houtputs⟩

/-- The message that completes the first command's end marker ends there, without the newline. -/
def cutAtMarkerCalls : List Call :=
  [sampleCall firstId "one" [] [.data 106], sampleCall secondId "two" [] [.data 200]]

theorem newline_crosses_commands :
    ∃ link call result,
      Reaches (Link.step ⟨1, 300, 3600⟩ .lf) (fun _ _ => True) (Link.new 7 sampleSession) link ∧
        (call, .ok result) ∈ link.history ∧ ¬ call.reply.ReportedBy result := by
  have hrun : (runAll (Link.step ⟨1, 300, 3600⟩ .lf) (fun _ _ => True) (Link.new 7 sampleSession)
      cutAtMarkerCalls).map Link.outputs =
        some [(utf8Bytes "one".toList, some "one".toList),
          (utf8Bytes "two".toList, some "\ntwo".toList)] := by decide +kernel
  obtain ⟨link, hlink, houtputs⟩ := Option.map_eq_some_iff.mp hrun
  have hsecond : (utf8Bytes "two".toList, some "\ntwo".toList) ∈ link.outputs := by
    simp [houtputs]
  obtain ⟨⟨call, returned⟩, hmem, hentry⟩ := mem_map.mp hsecond
  obtain ⟨hreply, hreturned⟩ := Prod.mk.inj hentry
  cases returned with
  | error e => cases hreturned
  | ok result =>
    refine ⟨link, call, result, runAll_reaches _ hlink, hmem, fun h => ?_⟩
    obtain ⟨text, htext, hout⟩ := h.output
    obtain rfl : text = "two".toList := utf8Bytes_injective (htext.trans hreply)
    exact absurd (hout.symm.trans (Option.some.inj hreturned)) (by decide +kernel)

end Runs
end BridgeMcp.Session
