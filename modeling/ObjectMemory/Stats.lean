import ObjectMemory.Stop

/-!
# Statistics

The arena counts what it has done since it was made. A `Stats` value is a snapshot of these
counts together with how full the arena is.
-/

namespace ObjectMemory

/-- What an arena counts. -/
structure Counters where
  /-- Largest number of words ever used. -/
  peak : Nat := 0
  /-- Objects made, copies included. -/
  allocations : Nat := 0
  /-- Objects copied to a new place. -/
  relocations : Nat := 0
  /-- Words given to such copies. -/
  relocatedWords : Nat := 0
  /-- How often the arena was emptied. -/
  resets : Nat := 0
  deriving DecidableEq, Repr, Inhabited

namespace Counters

/-- One more object, after which `used` words are used. -/
def countAllocation (c : Counters) (used : Nat) : Counters :=
  { c with allocations := c.allocations + 1, peak := max c.peak used }

/-- One more copy, of `words` words. -/
def countRelocation (c : Counters) (words : Nat) : Counters :=
  { c with relocations := c.relocations + 1, relocatedWords := c.relocatedWords + words }

/-- The arena was emptied once more. -/
def countReset (c : Counters) : Counters :=
  { c with resets := c.resets + 1 }

end Counters

/-- A snapshot of an arena's use. -/
structure Stats where
  capacity : Nat
  used : Nat
  free : Nat
  peak : Nat
  allocations : Nat
  relocations : Nat
  relocatedWords : Nat
  resets : Nat
  deriving DecidableEq, Repr, Inhabited

namespace Stats

/-- The names of the numbers, in their order. -/
def names : List String :=
  ["capacity_words", "used_words", "free_words", "peak_used_words", "allocations", "relocations",
    "relocated_words", "resets"]

/-- The numbers in their order. -/
def toList (s : Stats) : List Nat :=
  [s.capacity, s.used, s.free, s.peak, s.allocations, s.relocations, s.relocatedWords, s.resets]

/-- The snapshot with these numbers. -/
def ofList? : List Nat → Option Stats
  | [capacity, used, free, peak, allocations, relocations, relocatedWords, resets] =>
    some ⟨capacity, used, free, peak, allocations, relocations, relocatedWords, resets⟩
  | _ => none

/-- How full the arena is, in words. -/
def summary (s : Stats) : String :=
  Stop.usage s.used s.capacity

theorem ofList?_toList (s : Stats) : ofList? s.toList = some s := rfl

theorem length_toList (s : Stats) : s.toList.length = names.length := rfl

end Stats

end ObjectMemory
