import Mathlib.Data.List.Infix

/-!
The decoder of the Telnet transport (`telnet/mod.rs`). It looks at one chunk as it comes from the
socket and carries nothing over to the next.
-/
namespace BridgeMcp.Telnet
open List

def IAC : UInt8 := 0xFF
def DONT : UInt8 := 0xFE
def DO : UInt8 := 0xFD
def WONT : UInt8 := 0xFC
def WILL : UInt8 := 0xFB
def SB : UInt8 := 0xFA
def SE : UInt8 := 0xF0

structure Received where
  data : List UInt8
  replies : List UInt8
  deriving DecidableEq

def Received.add (received : Received) (data replies : List UInt8) : Received :=
  ⟨received.data ++ data, received.replies ++ replies⟩

theorem Received.add_nil (received : Received) : received.add [] [] = received := by
  simp only [Received.add, append_nil]

theorem Received.add_add (received : Received) (data replies data' replies' : List UInt8) :
    (received.add data replies).add data' replies' =
      received.add (data ++ data') (replies ++ replies') := by
  simp only [Received.add, append_assoc]

/-- What the inner loop leaves: all after the first `IAC SE`, or the last byte where there is none. -/
def skipSubnegotiation : List UInt8 → List UInt8
  | b :: next :: rest =>
    if b = IAC ∧ next = SE then rest else skipSubnegotiation (next :: rest)
  | short => short

theorem length_skipSubnegotiation (bytes : List UInt8) :
    (skipSubnegotiation bytes).length ≤ bytes.length := by
  fun_induction skipSubnegotiation bytes with
  | case1 => simp only [length_cons]; omega
  | case2 b next rest _ ih => exact ih.trans (Nat.le_succ _)
  | case3 => exact Nat.le_refl _

def processIac : List UInt8 → Received → Received
  | [], received => received
  | b :: rest, received =>
    if b ≠ IAC then processIac rest (received.add [b] [])
    else match rest with
      -- an incomplete sequence at the end of the chunk is dropped
      | [] => received
      | cmd :: rest =>
        if cmd = IAC then processIac rest (received.add [IAC] [])
        else if cmd = WILL then
          match rest with
          | [] => received
          | option :: rest => processIac rest (received.add [] [IAC, DONT, option])
        else if cmd = DO then
          match rest with
          | [] => received
          | option :: rest => processIac rest (received.add [] [IAC, WONT, option])
        else if cmd = WONT ∨ cmd = DONT then
          match rest with
          | [] => received
          | _ :: rest => processIac rest received
        else if cmd = SB then processIac (skipSubnegotiation rest) received
        else processIac rest received
termination_by chunk => chunk.length
decreasing_by
  all_goals simp only [length_cons]
  all_goals first
    | omega
    | exact Nat.lt_succ_of_lt (Nat.lt_succ_of_le (length_skipSubnegotiation _))

def feed (chunks : List (List UInt8)) : Received :=
  chunks.foldl (fun received chunk => processIac chunk received) ⟨[], []⟩

inductive Verb where
  | will
  | wont
  | do
  | dont
  deriving DecidableEq

def Verb.code : Verb → UInt8
  | .will => WILL
  | .wont => WONT
  | .do => DO
  | .dont => DONT

def IsCommand (cmd : UInt8) : Prop :=
  cmd ≠ IAC ∧ (∀ verb : Verb, cmd ≠ verb.code) ∧ cmd ≠ SB

inductive Item where
  | plain (b : UInt8) (hplain : b ≠ IAC)
  | escapedIac
  | negotiation (verb : Verb) (option : UInt8)
  | command (cmd : UInt8) (hcommand : IsCommand cmd)
  | subnegotiation (body : List UInt8)

open Item

/-- An item on the wire, with a spelling of the bodies. -/
def Item.encode (spell : List UInt8 → List UInt8) : Item → List UInt8
  | .plain b _ => [b]
  | .escapedIac => [IAC, IAC]
  | .negotiation verb option => [IAC, verb.code, option]
  | .command cmd _ => [IAC, cmd]
  | .subnegotiation body => IAC :: SB :: spell body ++ [IAC, SE]

def Item.data : Item → List UInt8
  | .plain b _ => [b]
  | .escapedIac => [IAC]
  | _ => []

def Item.refusal : Item → List UInt8
  | .negotiation .will option => [IAC, DONT, option]
  | .negotiation .do option => [IAC, WONT, option]
  | _ => []

/-- The body of a subnegotiation has no `IAC SE`. -/
def Item.Clear (spell : List UInt8 → List UInt8) : Item → Prop
  | .subnegotiation body => ¬ [IAC, SE] <:+: spell body
  | _ => True

def double : List UInt8 → List UInt8
  | [] => []
  | b :: rest => if b = IAC then IAC :: IAC :: double rest else b :: double rest

def Whole (bytes : List UInt8) : Prop :=
  ∃ items : List Item, (∀ item ∈ items, item.Clear id) ∧ bytes = items.flatMap (encode id)

theorem skipSubnegotiation_terminated {body : List UInt8} (rest : List UInt8)
    (hclear : ¬ [IAC, SE] <:+: body) :
    skipSubnegotiation (body ++ IAC :: SE :: rest) = rest := by
  induction body with
  | nil => exact if_pos ⟨rfl, rfl⟩
  | cons b body ih =>
    have htail : ¬ [IAC, SE] <:+: body := fun h => hclear (List.infix_cons h)
    cases body with
    | nil =>
      have hnot : ¬ (b = IAC ∧ IAC = SE) := fun h => absurd h.2 (by decide)
      exact (if_neg hnot).trans (ih htail)
    | cons next body =>
      have hnot : ¬ (b = IAC ∧ next = SE) := by
        rintro ⟨rfl, rfl⟩
        exact hclear ⟨[], body, rfl⟩
      exact (if_neg hnot).trans (ih htail)

theorem processIac_item (spell : List UInt8 → List UInt8) {item : Item} (hclear : item.Clear spell)
    (rest : List UInt8) (received : Received) :
    processIac (item.encode spell ++ rest) received =
      processIac rest (received.add item.data item.refusal) := by
  rw [processIac.eq_def]
  cases item with
  | plain b hplain => exact if_pos hplain
  | escapedIac => rfl
  | negotiation verb option =>
    cases verb with
    | will | «do» => rfl
    | wont | dont =>
      rw [data, refusal, Received.add_nil]
      · rfl
      all_goals nofun
  | command cmd hcommand =>
    obtain ⟨hiac, hverb, hsb⟩ := hcommand
    have hwill : cmd ≠ WILL := hverb .will
    have hdo : cmd ≠ DO := hverb .do
    have hwont : cmd ≠ WONT := hverb .wont
    have hdont : cmd ≠ DONT := hverb .dont
    simp [encode, hiac, hwill, hdo, hwont, hdont, hsb, data, refusal,
      Received.add_nil]
  | subnegotiation body =>
    have hskip := skipSubnegotiation_terminated rest hclear
    have hbytes : (subnegotiation body).encode spell ++ rest =
        IAC :: SB :: (spell body ++ IAC :: SE :: rest) := by
      simp only [encode, cons_append, append_assoc, nil_append]
    rw [hbytes]
    change processIac (skipSubnegotiation (spell body ++ IAC :: SE :: rest)) received = _
    rw [hskip, data, refusal, Received.add_nil]
    all_goals nofun

theorem processIac_items (spell : List UInt8 → List UInt8) {items : List Item}
    (hclear : ∀ item ∈ items, item.Clear spell) (rest : List UInt8) (received : Received) :
    processIac (items.flatMap (encode spell) ++ rest) received =
      processIac rest
        (received.add (items.flatMap data) (items.flatMap refusal)) := by
  induction items generalizing received with
  | nil => rw [flatMap_nil, nil_append, flatMap_nil, flatMap_nil,
      Received.add_nil]
  | cons item items ih =>
    obtain ⟨hitem, hitems⟩ := forall_mem_cons.mp hclear
    rw [flatMap_cons, append_assoc, processIac_item spell hitem, ih hitems,
      Received.add_add, ← flatMap_cons, ← flatMap_cons]

theorem processIac_nil (received : Received) : processIac [] received = received := by
  rw [processIac.eq_def]

theorem processIac_whole {front : List UInt8} (hwhole : Whole front) (rest : List UInt8)
    (received : Received) :
    processIac (front ++ rest) received = processIac rest (processIac front received) := by
  obtain ⟨items, hclear, rfl⟩ := hwhole
  have hfront := processIac_items id hclear [] received
  rw [append_nil, processIac_nil] at hfront
  rw [hfront, processIac_items id hclear]

/-- No cut is inside a sequence: before each there are whole ones. -/
def CutBetween (chunks : List (List UInt8)) : Prop :=
  ∀ chunk ∈ chunks.dropLast, Whole chunk

theorem foldl_processIac {chunks : List (List UInt8)} (hcut : CutBetween chunks)
    (received : Received) :
    chunks.foldl (fun received chunk => processIac chunk received) received =
      processIac chunks.flatten received := by
  induction chunks generalizing received with
  | nil => exact (processIac_nil received).symm
  | cons chunk chunks ih =>
    cases chunks with
    | nil => rw [flatten_cons, flatten_nil, append_nil, foldl_cons,
        foldl_nil]
    | cons next chunks =>
      rw [CutBetween, dropLast_cons_cons] at hcut
      obtain ⟨hchunk, hrest⟩ := forall_mem_cons.mp hcut
      rw [foldl_cons, ih hrest, ← processIac_whole hchunk, ← flatten_cons]

theorem eq_cons_of_double {body rest : List UInt8} (h : double body = SE :: rest) :
    ∃ body', body = SE :: body' := by
  cases body with
  | nil => cases h
  | cons b body =>
    rw [double] at h
    split_ifs at h with hiac
    · exact absurd (cons.inj h).1 (by decide)
    · exact ⟨body, by rw [(cons.inj h).1]⟩

theorem double_clear {body : List UInt8} (hclear : ¬ [IAC, SE] <:+: body) :
    ¬ [IAC, SE] <:+: double body := by
  induction body with
  | nil => exact hclear
  | cons b body ih =>
    have hrest := ih fun h => hclear (List.infix_cons h)
    rw [double]
    split_ifs with hiac
    · subst hiac
      simp only [List.infix_cons_iff, List.cons_prefix_cons, hrest]
      rintro (⟨-, hse, -⟩ | ⟨-, ⟨rest, hdouble⟩⟩ | hinfix)
      · exact absurd hse (by decide)
      · -- the second `IAC` of the pair before a byte `SE` of the body
        obtain ⟨body', rfl⟩ := eq_cons_of_double hdouble.symm
        exact hclear ⟨[], body', rfl⟩
      · exact hinfix
    · rw [List.infix_cons_iff, List.cons_prefix_cons]
      rintro (⟨heq, -⟩ | hinfix)
      · exact hiac heq.symm
      · exact hrest hinfix

theorem Item.Clear.double {item : Item} (hclear : item.Clear id) :
    item.Clear Telnet.double := by
  cases item with
  | subnegotiation body => exact double_clear hclear
  | plain | escapedIac | negotiation | command => trivial

/-- A stream cut between sequences is read the same however it is cut. One that encodes items is read
as their data and their refusals, where no body has an `IAC` before an `SE`. -/
theorem feed_of_cutBetween :
    (∀ chunks chunks' : List (List UInt8), CutBetween chunks → CutBetween chunks' →
      chunks.flatten = chunks'.flatten → feed chunks = feed chunks') ∧
    ∀ items : List Item, (∀ item ∈ items, item.Clear id) →
      ∀ chunks, CutBetween chunks → chunks.flatten = items.flatMap (encode double) →
        feed chunks = ⟨items.flatMap data, items.flatMap refusal⟩ := by
  constructor
  · intro chunks chunks' hcut hcut' hsame
    rw [feed, foldl_processIac hcut, hsame, ← foldl_processIac hcut', feed]
  · intro items hclear chunks hcut hstream
    have hdouble : ∀ item ∈ items, item.Clear double := fun item hitem => (hclear item hitem).double
    have hread := processIac_items double hdouble [] ⟨[], []⟩
    rw [append_nil, processIac_nil] at hread
    rw [feed, foldl_processIac hcut, hstream, hread, Received.add, nil_append,
      nil_append]

theorem feed_of_cutBetween_login :
    let cut := [[76, IAC, WILL, 1], [IAC, SB, 24, IAC, SE, 65]]
    feed cut = feed [[76, IAC, WILL, 1, IAC, SB, 24, IAC, SE, 65]] ∧
      feed cut = ⟨[76, 65], [IAC, DONT, 1]⟩ := by
  intro cut
  have hcut : CutBetween cut := forall_mem_singleton.mpr
    ⟨[plain 76 (by decide), negotiation .will 1],
      forall_mem_cons.mpr ⟨trivial, forall_mem_singleton.mpr trivial⟩, rfl⟩
  obtain ⟨hsame, hread⟩ := feed_of_cutBetween
  refine ⟨hsame _ _ hcut (forall_mem_nil _) rfl, ?_⟩
  refine hread [plain 76 (by decide), negotiation .will 1, subnegotiation [24], plain 65 (by decide)]
    ?_ cut hcut rfl
  have hbody : ¬ [IAC, SE] <:+: [24] := fun h => absurd h.length_le (by decide)
  simp [Item.Clear, hbody]

/-- A `WILL` whose `IAC` ends a chunk is taken for data and not refused. A subnegotiation with the
bytes `IAC SE A` in its body, the `IAC` doubled, leaves the `A` in the data. -/
theorem cut_negotiation_read_as_data :
    feed [[IAC], [WILL, 1]] = ⟨[WILL, 1], []⟩ ∧
      feed [[IAC, WILL, 1]] = ⟨[], [IAC, DONT, 1]⟩ ∧
      feed [(subnegotiation [IAC, SE, 65]).encode double] = ⟨[65], []⟩ := by
  decide +kernel

end BridgeMcp.Telnet
