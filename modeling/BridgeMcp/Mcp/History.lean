import Mathlib.Data.List.Dedup
import BridgeMcp.Mcp.Subscriptions

/-!
The command history (`domain/history.rs`) and the loop that tells subscribers when it changed
(`mcp/server.rs`). Nobody panics with the lock of the history, so it is never poisoned.
-/
namespace BridgeMcp.Mcp.History
open TextLib List

structure HistoryEntry where
  timestamp : ℤ
  host : Text
  command : Text
  exitCode : ℕ
  durationMs : ℕ
  success : Bool

structure CommandHistory where
  entries : List HistoryEntry
  maxEntries : ℕ
  revision : UInt64

namespace CommandHistory

def new (maxEntries : ℕ) : CommandHistory := ⟨[], maxEntries, 0⟩

def add (h : CommandHistory) (entry : HistoryEntry) : CommandHistory :=
  { h with
    entries := (if h.maxEntries ≤ h.entries.length then h.entries.tail else h.entries) ++ [entry]
    revision := h.revision + 1 }

def clear (h : CommandHistory) : CommandHistory :=
  { h with entries := [], revision := h.revision + 1 }

/-- What the four queries share. -/
def select (h : CommandHistory) (keep : HistoryEntry → Bool) (limit : ℕ) : List HistoryEntry :=
  (h.entries.reverse.filter keep).take limit

def recent (h : CommandHistory) : ℕ → List HistoryEntry := h.select fun _ => true

def forHost (h : CommandHistory) (host : Text) : ℕ → List HistoryEntry :=
  h.select fun e => e.host = host

def recentSince (h : CommandHistory) (since : ℤ) : ℕ → List HistoryEntry :=
  h.select fun e => since ≤ e.timestamp

def forHostSince (h : CommandHistory) (host : Text) (since : ℤ) : ℕ → List HistoryEntry :=
  h.select fun e => e.host = host && since ≤ e.timestamp

end CommandHistory
open CommandHistory

section
variable {Id Channel : Type}

def subscribedResourceUris (entries : List (Entry Id Channel)) : List Text :=
  ((entries.flatMap (·.filter.resourceSubscriptions)).mergeSort fun a b => !decide (b < a)).dedup

def resourceUpdateTick (uris : List Text) (historyChanged : Bool) : List Text :=
  uris.filter fun uri => historyChanged || !decide ("history://".toList <+: uri)

/-- The next `last_revision`, and what is published. -/
def watchOnce (entries : List (Entry Id Channel)) (h : CommandHistory) (lastRevision : UInt64) :
    UInt64 × List Text :=
  let uris := subscribedResourceUris entries
  if uris.isEmpty then (lastRevision, [])
  else (h.revision, resourceUpdateTick uris (h.revision != lastRevision))

inductive Event (Id Channel : Type) where
  | add (entry : HistoryEntry)
  | clear
  | tick (entries : List (Entry Id Channel))

structure Watched where
  history : CommandHistory
  lastRevision : UInt64

def Watched.step (w : Watched) : Event Id Channel → Watched
  | .add entry => { w with history := w.history.add entry }
  | .clear => { w with history := w.history.clear }
  | .tick entries => { w with lastRevision := (watchOnce entries w.history w.lastRevision).1 }

def run (maxEntries : ℕ) (events : List (Event Id Channel)) : Watched :=
  events.foldl Watched.step ⟨.new maxEntries, 0⟩

/-- The changes since the last tick that found a subscription. -/
def unseen (n : ℕ) : Event Id Channel → ℕ
  | .tick entries => if (subscribedResourceUris entries).isEmpty then n else 0
  | _ => n + 1

/-- The entries since the last `clear`. -/
def added (entries : List HistoryEntry) : Event Id Channel → List HistoryEntry
  | .add entry => entries ++ [entry]
  | .clear => []
  | .tick _ => entries

theorem revision_run (maxEntries : ℕ) (events : List (Event Id Channel)) :
    (run maxEntries events).history.revision =
      (run maxEntries events).lastRevision + UInt64.ofNat (events.foldl unseen 0) := by
  induction events using reverseRecOn with
  | nil => rfl
  | append_singleton events event ih =>
    simp only [run, foldl_concat] at ih ⊢
    cases event with
    | add entry => simp [Watched.step, add, unseen, ih, UInt64.ofNat_add, UInt64.add_assoc]
    | clear => simp [Watched.step, clear, unseen, ih, UInt64.ofNat_add, UInt64.add_assoc]
    | tick entries =>
      simp only [Watched.step, watchOnce, unseen]
      split
      · exact ih
      · exact (UInt64.add_zero _).symm

/-- A tick publishes every URI somebody listens to, the history only if it changed since the last
tick with a listener. -/
theorem updates_published_iff (maxEntries : ℕ) (events : List (Event Id Channel))
    (entries : List (Entry Id Channel)) (uri : Text) :
    let w := run maxEntries events
    uri ∈ (watchOnce entries w.history w.lastRevision).2 ↔
      (∃ e ∈ entries, e.filter.wantsResource uri = true) ∧
        ("history://".toList <+: uri → ¬ 2 ^ 64 ∣ events.foldl unseen 0) := by
  intro w
  have hchanged : w.history.revision = w.lastRevision ↔ 2 ^ 64 ∣ events.foldl unseen 0 := by
    rw [revision_run, UInt64.add_eq_left, ← UInt64.toNat_inj, UInt64.toNat_ofNat',
      Nat.dvd_iff_mod_eq_zero]
    rfl
  have hwanted : uri ∈ subscribedResourceUris entries ↔
      ∃ e ∈ entries, e.filter.wantsResource uri = true := by
    simp [subscribedResourceUris, SubscriptionFilter.wantsResource]
  rw [← hwanted, ← hchanged, watchOnce]
  split
  · next hnone => simp [isEmpty_iff.mp hnone]
  · rw [resourceUpdateTick, mem_filter, Bool.or_eq_true, bne_iff_ne, Bool.not_eq_true',
      decide_eq_false_iff_not, imp_iff_or_not]

theorem entries_run (maxEntries : ℕ) (events : List (Event Id Channel)) :
    (run maxEntries events).history.maxEntries = maxEntries ∧
      (run maxEntries events).history.entries =
        (events.foldl added []).rtake (max 1 maxEntries) := by
  induction events using reverseRecOn with
  | nil => exact ⟨rfl, (rtake_nil _).symm⟩
  | append_singleton events event ih =>
    obtain ⟨hmax, hentries⟩ := ih
    rw [run] at hmax hentries
    simp only [run, foldl_concat]
    cases event with
    | clear => exact ⟨hmax, (rtake_nil _).symm⟩
    | tick entries => exact ⟨hmax, hentries⟩
    | add entry =>
      refine ⟨hmax, ?_⟩
      simp only [Watched.step, CommandHistory.add, added, hmax, hentries, rtake]
      generalize events.foldl added [] = l
      rw [tail_drop, length_drop, length_append, length_singleton]
      split
      · rcases Nat.lt_or_ge l.length (max 1 maxEntries) with hshort | hlong
        · obtain rfl : l = [] := length_eq_zero_iff.mp (by omega)
          have hzero : 1 - max 1 maxEntries = 0 := by omega
          simp [hzero]
        · rw [drop_append_of_le_length (by omega)]
          congr 2
          omega
      · rw [drop_append_of_le_length (by omega)]
        congr 2
        omega

/-- A query sees the latest entries since the last `clear`, as many as configured, or one. -/
theorem queries_see_latest (maxEntries : ℕ) (events : List (Event Id Channel))
    (keep : HistoryEntry → Bool) (limit : ℕ) :
    (run maxEntries events).history.select keep limit =
      (((events.foldl added []).reverse.take (max 1 maxEntries)).filter keep).take limit := by
  rw [select, (entries_run maxEntries events).2, rtake_eq_reverse_take_reverse, reverse_reverse]

end
end BridgeMcp.Mcp.History
