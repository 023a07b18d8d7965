import BridgeMcp.Lib.HashChain
import BridgeMcp.Recording.RoundTrip

/-!
What a verified chain says about a file that may have been edited. Under a digest that cannot
collide, and without new hashes, exactly four kinds of edit of a recording pass: every event is
removed, the first event loses its hash, the end is cut off, or the fields of an event are moved
within the text they are hashed as.
-/
namespace BridgeMcp.Recording
open TextLib JsonLib HashChain Floats List RecordingEvent

section
variable (sha256Hex : List UInt8 → Text) (key : List UInt8)

def PriorHash (previous : Text) : Prop :=
  previous = genesis ∨ ∃ earlier data, previous = computeHash sha256Hex key earlier data

/-- The keyed hash is injective in the previous hash and the event data. -/
def ChainInjective : Prop :=
  ∀ p p' d d', PriorHash sha256Hex key p → PriorHash sha256Hex key p' →
    computeHash sha256Hex key p d = computeHash sha256Hex key p' d' → p = p' ∧ d = d'

theorem ChainInjective.binding {sha256Hex : List UInt8 → Text} {key : List UInt8}
    (h : ChainInjective sha256Hex key) :
    Binding (computeHash sha256Hex key) (initialHash sha256Hex key) (PriorHash sha256Hex key)
      (· ≠ []) where
  prior_seed := .inr ⟨genesis, [], rfl⟩
  prior_link := fun previous data => .inr ⟨previous, data, rfl⟩
  injective := h
  fresh := by
    intro previous data hprior hdata heq
    exact hdata (h previous genesis data [] hprior (.inl rfl) heq).2

end

section
variable [Floats]

def RecordingEvent.text (event : RecordingEvent) : Text :=
  eventData event.time event.eventType event.data

def contents (events : List RecordingEvent) : List (F64 × Text × Text) :=
  events.map fun e => (e.time, e.eventType, e.data)

theorem text_ne_nil (event : RecordingEvent) : event.text ≠ [] := by
  rw [text, eventData]
  simp

/-- The events carry, in order, the hashes and the hashed texts of the first recorded ones. -/
structure Copies (recorded events : List RecordingEvent) : Prop where
  sameHashes : events.map hash <+: recorded.map hash
  sameTexts : events.map text <+: recorded.map text

inductive Undetected (recorded events : List RecordingEvent) : Prop where
  | emptied (h : events = [])
  | unhashed (hfirst : events.head?.map hash = some none)
      (hchanged : contents events ≠ contents recorded)
  | cutShort (hcopies : Copies recorded events) (hshort : events.length < recorded.length)
  | resplit (hcopies : Copies recorded events) (hlength : events.length = recorded.length)
      (hchanged : contents events ≠ contents recorded)

section Verify

variable (sha256Hex : List UInt8 → Text) (key : List UInt8)

def expectedHashes (lastHash : Text) (events : List RecordingEvent) : List (Option Text) :=
  (hashes (computeHash sha256Hex key) lastHash (events.map text)).map some

theorem verifyFrom_valid_iff (total i verified : ℕ) (lastHash : Text)
    (events : List RecordingEvent) :
    (verifyFrom sha256Hex key total i verified lastHash events).valid = true ↔
      events.map hash = expectedHashes sha256Hex key lastHash events := by
  induction events generalizing i verified lastHash with
  | nil => exact iff_of_true rfl rfl
  | cons event events ih =>
    rw [verifyFrom, ← text, map_cons, expectedHashes, map_cons, hashes,
      map_cons, cons.injEq, ← expectedHashes]
    by_cases hhash : event.hash = some (computeHash sha256Hex key lastHash event.text)
    · rw [if_pos hhash, ih]
      exact ⟨fun h => ⟨hhash, h⟩, fun h => h.2⟩
    · rw [if_neg hhash]
      exact iff_of_false Bool.false_ne_true fun h => hhash h.1

theorem chained_hashes (lastHash : Text) (events : List Recorded) :
    (chained sha256Hex key lastHash events).map hash =
      expectedHashes sha256Hex key lastHash (chained sha256Hex key lastHash events) := by
  apply (verifyFrom_valid_iff sha256Hex key 0 0 0 lastHash _).mp
  rw [verifyFrom_chained]

theorem verifyEvents_valid_iff (events : List RecordingEvent) :
    (verifyEvents sha256Hex key events).valid = true ↔
      events = [] ∨ events.head?.map hash = some none ∨
        events.map hash =
          expectedHashes sha256Hex key (initialHash sha256Hex key) events := by
  cases events with
  | nil => simp [verifyEvents]
  | cons first rest =>
    rw [verifyEvents]
    by_cases hfirst : first.hash = none
    · simp [hfirst]
    · rw [if_neg hfirst, verifyFrom_valid_iff]
      simp [hfirst]

variable {sha256Hex key} {recorded events : List RecordingEvent}

theorem expectedHashes_isPrefix (lastHash : Text)
    (h : events.map text <+: recorded.map text) :
    expectedHashes sha256Hex key lastHash events <+:
      expectedHashes sha256Hex key lastHash recorded := by
  obtain ⟨more, hmore⟩ := h
  rw [expectedHashes, expectedHashes, ← hmore, hashes_append, map_append]
  exact prefix_append _ _

theorem Copies.verified {lastHash : Text} (hcopies : Copies recorded events)
    (hrecorded : recorded.map hash =
      expectedHashes sha256Hex key lastHash recorded) :
    events.map hash = expectedHashes sha256Hex key lastHash events := by
  have hstart : expectedHashes sha256Hex key lastHash events <+:
      recorded.map hash :=
    hrecorded ▸ expectedHashes_isPrefix lastHash hcopies.sameTexts
  have hlength : (events.map hash).length =
      (expectedHashes sha256Hex key lastHash events).length := by
    rw [expectedHashes, length_map, length_map, hashes_length, length_map]
  exact (prefix_of_prefix_length_le hcopies.sameHashes hstart hlength.le).eq_of_length hlength

theorem copies_of_verified (hinjective : ChainInjective sha256Hex key) (hne : events ≠ [])
    (hrecorded : recorded.map hash =
      expectedHashes sha256Hex key (initialHash sha256Hex key) recorded)
    (hverified : events.map hash =
      expectedHashes sha256Hex key (initialHash sha256Hex key) events)
    (hknown : ∀ event ∈ events, ∀ h, event.hash = some h →
      some h ∈ recorded.map hash) : Copies recorded events := by
  have htexts : ∀ (l : List RecordingEvent), ∀ t ∈ l.map text, t ≠ [] := by
    intro l t ht
    obtain ⟨event, -, rfl⟩ := mem_map.mp ht
    exact text_ne_nil event
  have hsome : events.map text ≠ [] := by simpa using hne
  have hlast := mem_map_of_mem (f := some)
    (foldl_mem_hashes (computeHash sha256Hex key) (initialHash sha256Hex key) hsome)
  rw [← expectedHashes, ← hverified] at hlast
  obtain ⟨event, hevent, hhash⟩ := mem_map.mp hlast
  have hold := hknown event hevent _ hhash
  rw [hrecorded] at hold
  obtain ⟨h, hh, heq⟩ := mem_map.mp hold
  cases heq
  have hprefix := hinjective.binding.isPrefix_of_mem_hashes (htexts events) (htexts recorded) hh
  refine ⟨?_, hprefix⟩
  rw [hverified, hrecorded]
  exact expectedHashes_isPrefix _ hprefix

end Verify

/-- The file of a recorded session with `edited` in place of its event lines: verification
vouches for the recorded events unless the edit is of one of the four kinds. -/
theorem verified_events_recorded_iff (sha256Hex : List UInt8 → Text) (key : List UInt8)
    (host : Text) (title : Option Text) (timestamp : Timestamp) (order : Equiv.Perm (Fin 3))
    (events : List Recorded) (hsome : events ≠ []) (edited : FileLines)
    (hinjective : ChainInjective sha256Hex key)
    (hunforged : ∀ replayed, replayEvents edited = .ok replayed →
      ∀ event ∈ replayed, ∀ h, event.hash = some h →
        some h ∈ (chained sha256Hex key (initialHash sha256Hex key) events).map
          hash) :
    let header := sessionHeader host title timestamp order
    (∀ result replayed,
      verifyRecording sha256Hex (some header.text :: edited) key = .ok result →
      result.valid = true →
      replayRecording (some header.text :: edited) = .ok (header, replayed) →
      contents replayed = events.map fun r => (r.elapsed.seconds, r.eventType, r.data)) ↔
    ∀ replayed, replayEvents edited = .ok replayed →
      ¬ Undetected (chained sha256Hex key (initialHash sha256Hex key) events) replayed := by
  intro header
  have hreplay : replayRecording (some header.text :: edited) =
      (replayEvents edited).map (header, ·) := by
    rw [replayRecording, parse_header]
  have hcontents := chained_contents sha256Hex key (initialHash sha256Hex key) events
  have hchained := chained_hashes sha256Hex key (initialHash sha256Hex key) events
  set recorded := chained sha256Hex key (initialHash sha256Hex key) events with hrecorded
  have hrecordedNe : recorded ≠ [] := by
    intro hnil
    have hlength := chained_length sha256Hex key (initialHash sha256Hex key) events
    rw [← hrecorded, hnil] at hlength
    exact hsome (length_eq_zero_iff.mp hlength.symm)
  rw [verifyRecording, hreplay, ← hcontents, ← contents]
  constructor
  · -- each kind of edit verifies although the events differ
    intro h replayed hedited hundetected
    rw [hedited] at h
    have hsame : ∀ _ : (verifyEvents sha256Hex key replayed).valid = true,
        contents replayed = contents recorded := fun hvalid => h _ replayed rfl hvalid rfl
    rw [verifyEvents_valid_iff] at hsame
    cases hundetected with
    | emptied hnil =>
      have := hsame (.inl hnil)
      rw [hnil] at this
      exact hrecordedNe (map_eq_nil_iff.mp this.symm)
    | unhashed hfirst hchanged => exact hchanged (hsame (.inr (.inl hfirst)))
    | cutShort hcopies hshort =>
      have hlength := congrArg length (hsame (.inr (.inr (hcopies.verified hchained))))
      rw [contents, contents, length_map, length_map] at hlength
      exact hshort.ne hlength
    | resplit hcopies _ hchanged =>
      exact hchanged (hsame (.inr (.inr (hcopies.verified hchained))))
  · intro h result replayed hverify hvalid hread
    cases hedited : replayEvents edited with
    | error e =>
      rw [hedited] at hread
      cases hread
    | ok events' =>
      rw [hedited] at hverify hread
      cases hverify
      cases hread
      have hdetected := h replayed hedited
      by_contra hchanged
      apply hdetected
      rcases (verifyEvents_valid_iff sha256Hex key replayed).mp hvalid with hnil | hfirst | hchain
      · exact .emptied hnil
      · exact .unhashed hfirst hchanged
      · by_cases hne : replayed = []
        · exact .emptied hne
        have hcopies := copies_of_verified hinjective hne hchained hchain
          (hunforged replayed hedited)
        have hle := hcopies.sameTexts.length_le
        rw [length_map, length_map] at hle
        rcases hle.lt_or_eq with hshort | hlength
        · exact .cutShort hcopies hshort
        · exact .resplit hcopies hlength hchanged

end

/-- Times that are exact: the value of the numeral, rounded to six digits when it is printed. -/
def exactSix (x : SignedRat) : Text :=
  let n := 1000000 * x.magnitude.num
  let d := x.magnitude.den
  (if x.negative then ['-'] else []) ++
    fixedPoint 6 (if 2 * (n % d) < d ∨ (2 * (n % d) = d ∧ n / d % 2 = 0) then n / d else n / d + 1)

theorem exactSix_micros (micros : ℕ) :
    exactSix ⟨false, NNRat.divNat micros (10 ^ 6)⟩ = fixedPoint 6 micros := by
  set q := NNRat.divNat micros (10 ^ 6) with hq
  have hcross : q.num * 10 ^ 6 = micros * q.den :=
    (NNRat.divNat_inj q.den_ne_zero (by decide)).mp (q.num_divNat_den.trans hq)
  have hnum : 1000000 * q.num = micros * q.den := (Nat.mul_comm _ _).trans hcross
  simp [exactSix, hnum, q.den_pos]

instance exactFloats : Floats where
  F64 := SignedRat
  zero := ⟨false, 0⟩
  ofNumber
    | .posInt n => ⟨false, n⟩
    | .negInt n => ⟨true, n⟩
    | .float x => x
  formatSix := exactSix
  prints_back _ micros _ := exactSix_micros micros

/-- A digest that cannot collide: the input spelled out byte by byte. -/
def spelled : List UInt8 → Text
  | [] => ['.']
  | b :: bs => 'x' :: Char.ofNat b.toNat :: spelled bs

def sampleKey : List UInt8 := utf8Bytes "key"

theorem spelled_isPrefix {a b : List UInt8} (h : spelled a <+: spelled b) : a = b := by
  induction a generalizing b with
  | nil =>
    cases b with
    | nil => rfl
    | cons c b =>
      rw [spelled, spelled, cons_prefix_cons] at h
      exact absurd h.1 (by decide)
  | cons c a ih =>
    cases b with
    | nil =>
      rw [spelled, spelled, cons_prefix_cons] at h
      exact absurd h.1 (by decide)
    | cons d b =>
      rw [spelled, spelled, cons_prefix_cons, cons_prefix_cons] at h
      have hcode : (Char.ofNat c.toNat).toNat = (Char.ofNat d.toNat).toNat := by rw [h.2.1]
      have hsmall : ∀ e : UInt8, e.toNat < 0xD800 ∨ 0xDFFF < e.toNat ∧ e.toNat < 0x110000 :=
        fun e => .inl (e.toNat_lt.trans (by decide))
      rw [toNat_ofNat_valid (hsmall c), toNat_ofNat_valid (hsmall d)] at hcode
      rw [UInt8.toNat_inj.mp hcode, ih h.2.2]

theorem spelled_chainInjective : ChainInjective spelled sampleKey := by
  intro p p' d d' hp hp' h
  have hinput := spelled_isPrefix ⟨[], (append_nil _).trans h⟩
  rw [append_assoc, append_assoc, append_cancel_left_eq, ← utf8Bytes_append,
    ← utf8Bytes_append] at hinput
  have htext : p ++ d = p' ++ d' := utf8Bytes_injective hinput
  have hgenesis : ∀ input, ¬ genesis <+: spelled input ∧ ¬ spelled input <+: genesis := by
    intro input
    cases input <;> simp [genesis, spelled]
  have hfree : ∀ {t u}, PriorHash spelled sampleKey t → PriorHash spelled sampleKey u → t <+: u →
      t = u := by
    rintro _ _ (rfl | ⟨earlier, data, rfl⟩) (rfl | ⟨earlier', data', rfl⟩) hprefix
    · rfl
    · exact absurd hprefix (hgenesis _).1
    · exact absurd hprefix (hgenesis _).2
    · rw [computeHash, computeHash, spelled_isPrefix hprefix]
  have hsame : p = p' := by
    rcases prefix_or_prefix_of_prefix (prefix_append p d)
      (htext ▸ prefix_append p' d') with h | h
    · exact hfree hp hp' h
    · exact (hfree hp' hp h).symm
  subst hsame
  exact ⟨rfl, append_cancel_left htext⟩

def sampleTime (micros : ℕ) (h : micros < 1000000 * 2 ^ 64) : Elapsed :=
  ⟨_, micros, exactSix_micros micros, h⟩

def sampleHeader : RecordingHeader :=
  sessionHeader "web" none ⟨1735689600, by decide⟩ (Equiv.refl _)

def listing : Recorded := ⟨sampleTime 500000 (by decide), "o", "ls"⟩

def leaving : Recorded := ⟨sampleTime 1250000 (by decide), "i", "exit"⟩

def sampleChained (events : List Recorded) : List RecordingEvent :=
  chained spelled sampleKey (initialHash spelled sampleKey) events

def sampleLines (events : List Recorded) : FileLines :=
  (chainedLines spelled sampleKey (initialHash spelled sampleKey) events).map some

theorem unedited_recording_vouched :
    verifyRecording spelled (some sampleHeader.text :: sampleLines [listing, leaving])
      sampleKey = .ok ⟨true, 2, 2, none⟩ ∧
    ∀ replayed, replayRecording (some sampleHeader.text :: sampleLines [listing, leaving]) =
      .ok (sampleHeader, replayed) →
      contents replayed =
        [listing, leaving].map fun r => (r.elapsed.seconds, r.eventType, r.data) := by
  have hreplay : replayEvents (sampleLines [listing, leaving]) =
      .ok (sampleChained [listing, leaving]) :=
    replayEvents_chainedLines spelled sampleKey _ [listing, leaving]
  have hverify : verifyRecording spelled
      (some sampleHeader.text :: sampleLines [listing, leaving]) sampleKey =
        .ok ⟨true, 2, 2, none⟩ := by
    rw [verifyRecording, replayRecording, sampleHeader, parse_header, hreplay]
    exact congrArg Except.ok (verifyEvents_chained spelled sampleKey [listing, leaving])
  refine ⟨hverify, fun replayed hread => ?_⟩
  apply (verified_events_recorded_iff spelled sampleKey "web" none
    ⟨1735689600, by decide⟩ (Equiv.refl _) [listing, leaving] (by simp)
    (sampleLines [listing, leaving]) spelled_chainInjective ?_).mpr ?_ _ replayed hverify rfl hread
  · intro replayed hedited event hevent h hhash
    rw [hreplay] at hedited
    cases hedited
    exact hhash ▸ mem_map_of_mem hevent
  · intro replayed hedited hundetected
    rw [hreplay] at hedited
    cases hedited
    cases hundetected with
    | emptied h => cases h
    | unhashed h => cases h
    | cutShort _ h => exact lt_irrefl _ h
    | resplit _ _ h => exact h rfl

/-- The file without its last line verifies all the same. -/
theorem cut_recording_verifies :
    let edited := (sampleLines [listing, leaving]).take 1
    let file := some sampleHeader.text :: edited
    ChainInjective spelled sampleKey ∧
    (∀ replayed, replayEvents edited = .ok replayed →
      ∀ event ∈ replayed, ∀ h, event.hash = some h →
        some h ∈ (sampleChained [listing, leaving]).map hash) ∧
    verifyRecording spelled file sampleKey = .ok ⟨true, 1, 1, none⟩ ∧
    replayRecording file = .ok (sampleHeader, sampleChained [listing]) ∧
    contents (sampleChained [listing]) ≠ contents (sampleChained [listing, leaving]) := by
  intro edited file
  have hreplay : replayEvents edited = .ok (sampleChained [listing]) :=
    replayEvents_chainedLines spelled sampleKey _ [listing]
  have hread : replayRecording file = .ok (sampleHeader, sampleChained [listing]) := by
    change replayRecording (some sampleHeader.text :: edited) = _
    rw [replayRecording, sampleHeader, parse_header, hreplay]
    rfl
  refine ⟨spelled_chainInjective, ?_, ?_, hread, ?_⟩
  · intro replayed hedited event hevent h hhash
    rw [hreplay] at hedited
    cases hedited
    have hmem : event ∈ sampleChained [listing, leaving] := mem_cons.mpr
      (.inl (mem_singleton.mp hevent))
    exact hhash ▸ mem_map_of_mem hmem
  · rw [verifyRecording, hread]
    exact congrArg Except.ok (verifyEvents_chained spelled sampleKey [listing])
  · intro h
    exact absurd (congrArg length h) (by decide)

end BridgeMcp.Recording
