import Mathlib.Data.List.Lex
import Mathlib.Data.Char
import BridgeMcp.Output.Truncator

/-!
The output cache (`domain/output_cache.rs`): full command outputs kept under counter-based ids
and read back page by page.

Instants are natural numbers of one clock; the hash map is an association list with one entry a key.
-/
namespace BridgeMcp.Output
open TextLib

structure CacheEntry where
  output : Text
  created : ℕ
  deriving DecidableEq

structure FetchResult where
  text : Text
  totalChars : ℕ
  offset : ℕ
  hasMore : Bool
  deriving DecidableEq

structure OutputCache where
  entries : List (Text × CacheEntry)
  counter : ℕ
  ttl : ℕ
  maxEntries : ℕ
  deriving DecidableEq

def OutputCache.new (ttl maxEntries : ℕ) : OutputCache := ⟨[], 0, ttl, maxEntries⟩

def hexFixed : ℕ → ℕ → Text
  | 0, _ => []
  | w + 1, n => Nat.digitChar (n / 16 ^ w % 16) :: hexFixed w n

/-- The width `{n:04x}` prints: every digit of `n`, and at least four. -/
def hexWidth (n : ℕ) : ℕ := max 4 (n.log2 / 4 + 1)

def outputId (n : ℕ) : Text := "out-" ++ hexFixed (hexWidth n) n

/-- `keys().min()`: strings compare lexicographically. -/
def leastKey : List Text → Option Text
  | [] => none
  | k :: ks =>
    match leastKey ks with
    | none => some k
    | some m => some (if m < k then m else k)

/-- The expiry test shared by `store`, `fetch` and `cleanup`. -/
def CacheEntry.live (ttl now : ℕ) (e : CacheEntry) : Bool := decide (now - e.created < ttl)

namespace OutputCache

def cleanup (c : OutputCache) (now : ℕ) : OutputCache :=
  { c with entries := c.entries.filter fun e => e.2.live c.ttl now }

def evict (c : OutputCache) : OutputCache :=
  if c.maxEntries ≤ c.entries.length then
    match leastKey (c.entries.map Prod.fst) with
    | none => c
    | some oldest => { c with entries := c.entries.filter fun e => e.1 ≠ oldest }
  else c

def insert (c : OutputCache) (id : Text) (e : CacheEntry) : OutputCache :=
  { c with entries := c.entries.filter (fun p => p.1 ≠ id) ++ [(id, e)] }

/-- The clock is read twice: at `now` for the lazy cleanup and at `created` for the new entry. The
counter is a `u64` and wraps. -/
def store (c : OutputCache) (now created : ℕ) (output : Text) : Text × OutputCache :=
  let id := outputId c.counter
  let c := { c with counter := (c.counter + 1) % 2 ^ 64 }
  (id, ((c.cleanup now).evict).insert id ⟨output, created⟩)

def get (c : OutputCache) (id : Text) : Option CacheEntry := c.entries.lookup id

end OutputCache

inductive SlicePanic where
  | notCharBoundary
  deriving DecidableEq

def page (output : Text) (offset limit : ℕ) : Except SlicePanic FetchResult :=
  let totalChars := utf8Len output
  if totalChars ≤ offset then .ok ⟨[], totalChars, offset, false⟩
  else
    let start := ceilCharBoundary output offset
    let endRaw := min (start + limit) totalChars
    let stop := ceilCharBoundary output endRaw
    match slice output start stop with
    | none => .error .notCharBoundary
    | some text => .ok ⟨text, totalChars, start, decide (stop < totalChars)⟩

def OutputCache.fetch (c : OutputCache) (now : ℕ) (id : Text) (offset limit : ℕ) :
    Except SlicePanic (Option FetchResult) :=
  match c.get id with
  | none => .ok none
  | some e =>
    if e.live c.ttl now then (page e.output offset limit).map some else .ok none

end BridgeMcp.Output
