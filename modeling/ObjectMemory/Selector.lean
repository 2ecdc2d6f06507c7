import ObjectMemory.Context

/-!
# Selectors

An item of a container is named by its place, counted from 1, or by one of the words "last",
"random" and "all". A selector is parsed from a reference and, for all but "all", resolved to a
place once the number of items is known.
-/

namespace ObjectMemory

/-- How an item is named. -/
inductive Selector where
  | index (i : Int)
  | last
  | random
  | all
  deriving DecidableEq, Repr, Inhabited

namespace Selector

/-- The selector that a reference names: an integer or a string that is one of the words. -/
def parse (a : Arena) : Ref → Except Stop (Option Selector)
  | .int i => .ok (some (.index i))
  | r => do
    if ← a.stringMatches r (Utf8.encode "last") then return some .last
    if ← a.stringMatches r (Utf8.encode "random") then return some .random
    if ← a.stringMatches r (Utf8.encode "all") then return some .all
    return none

/-- A place among `count` items, or a failure if there is none. -/
def checkPlace (i : Int) (count : Nat) : PrimM Nat :=
  if 1 ≤ i ∧ i ≤ count then pure i.toNat else PrimM.refuse .indexOutOfRange

/-- The place among `count` items that a selector names. -/
def resolve (s : Selector) (count : Nat) : PrimM Nat :=
  match s with
  | .index i => checkPlace i count
  | .last => checkPlace count count
  | .random => if 0 < count then PrimM.pick count else PrimM.refuse .indexOutOfRange
  | .all => PrimM.refuse .needsIntegerIndex

end Selector

end ObjectMemory
