import Mathlib.Algebra.Field.Rat
import BridgeMcp.Lib.Text

/-!
JSON values as the programs read them: a tree with exact numbers, and the accessors that answer
only for one kind of value.
-/
namespace JsonLib
open TextLib

/-- A finite number with its sign kept apart, so that `-0` is not `0`. Magnitudes are exact. -/
structure SignedRat where
  negative : Bool
  magnitude : ℚ≥0
  deriving DecidableEq

/-- Integers that fit 64 bits stay integers; every other numeral is a float. -/
inductive Number where
  | posInt (n : ℕ)
  | negInt (n : ℕ)
  | float (x : SignedRat)
  deriving DecidableEq

inductive Json where
  | null
  | bool (b : Bool)
  | number (n : Number)
  | string (s : Text)
  | array (items : List Json)
  | object (members : List (Text × Json))

namespace Json

/-- The member called `key`; of equal names the last one counts. -/
def get : Json → Text → Option Json
  | .object members, key => members.reverse.lookup key
  | _, _ => none

theorem get_singleton (key : Text) (value : Json) :
    (Json.object [(key, value)]).get key = some value := by
  rw [get, List.reverse_singleton, List.lookup_cons_self]

def asBool : Json → Option Bool
  | .bool b => some b
  | _ => none

def asStr : Json → Option Text
  | .string s => some s
  | _ => none

def asArray : Json → Option (List Json)
  | .array items => some items
  | _ => none

def asObject : Json → Option (List (Text × Json))
  | .object members => some members
  | _ => none

end Json

end JsonLib
