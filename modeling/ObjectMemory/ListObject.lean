import ObjectMemory.Selector

/-!
# Lists

Payload word 0 of a list holds the number of items, the words after it the items and then spare
slots. The capacity is the payload size less one.

## The count

The word that holds the count can be written by anyone. What it says is therefore never relied on:
`count` takes the integer in it, or 0 where there is none, and limits it to the capacity.

## Appending

A full list is copied to a larger object, a third larger but by no fewer than 4 and no more than
100 items. The old object stays behind, and the caller goes on with the returned reference.
-/

namespace ObjectMemory.ListObject

open Arena (allocate allot grow setField fillFields copyFields note)
open PrimM (refuse onArena)

-- Sums of numbers start from the zero of the core library, also beside other instances.
attribute [local instance (2000)] Zero.ofOfNat0

/-- Least capacity of a list that is made empty. -/
def minCapacity : Nat := 2

/-- By how much a full list of some capacity grows. -/
def growth (capacity : Nat) : Nat :=
  max 4 (min 100 (capacity / 3))

/-- A full list grows by no fewer than 4 and no more than 100 items. -/
theorem growth_bounds (capacity : Nat) : 4 ≤ growth capacity ∧ growth capacity ≤ 100 := by
  unfold growth
  omega

/-! ## Reading -/

/-- The handle of a reference to a list. -/
def asList (a : Arena) : Ref → Except Stop (Option Handle)
  | .obj h => (a.classOf h).map fun c => if c = .list then some h else none
  | _ => .ok none

/-- The number of items a list has room for. -/
def capacity (a : Arena) (h : Handle) : Except Stop Nat :=
  (a.payloadWords h).map (· - 1)

/-- The count that a reference states. -/
def stated : Ref → Nat
  | .int n => n.toNat
  | _ => 0

/-- The number of items: the stated count, but no more than the capacity. -/
def count (a : Arena) (h : Handle) : Except Stop Nat := do
  let words ← a.payloadWords h
  if words = 0 then return 0
  return min (stated (← a.field h 0)) (words - 1)

/-- The items. -/
def items (a : Arena) (h : Handle) : Except Stop (List Ref) := do
  Arena.readRange (a.field h) 1 (← count a h)

/-! ## Making lists -/

/-- States the number of items. -/
def setCount (h : Handle) (n : Nat) : ArenaM Unit :=
  setField h 0 (Ref.ofCount n)

/-- Stores references in the payload words from word `i` on. -/
def storeFrom (h : Handle) (i : Nat) : List Ref → ArenaM Unit
  | [] => pure ()
  | r :: rest => do
    setField h i r
    storeFrom h (i + 1) rest

/-- A new list with the given items and no spare slots. -/
def ofItems (items : List Ref) : ArenaM Handle := do
  let h ← allot .list (items.length + 1) .false
  setCount h items.length
  storeFrom h 1 items
  return h

/-- A new empty list with room for `n` items, but at least for two. Spare slots hold 0. -/
def allotEmpty (n : Nat) : ArenaM Handle :=
  allot .list (max n minCapacity + 1) (.int 0)

/-- A new empty list with room for as many items as a caller states. -/
def empty (n : Nat) : ArenaM Handle := do
  let payload ← Arena.look fun _ => Size.add (max n minCapacity) 1
  allocate .list payload (.int 0)

/-! ## Changing lists -/

/-- A larger copy of a full list of the given capacity. -/
def enlarge (h : Handle) (capacity : Nat) : ArenaM Handle := do
  let copy ← grow h (capacity + growth capacity + 1) (.int 0)
  note (.listGrown capacity (capacity + growth capacity))
  return copy

/-- Appends an item. The result is the list to go on with. -/
def addLast (list item : Ref) : PrimM Ref := do
  let old ← PrimM.find .needsList (asList · list)
  let n ← PrimM.look (count · old)
  let room ← PrimM.look (capacity · old)
  let h ← if room ≤ n then onArena (enlarge old room) else pure old
  onArena (setField h (n + 1) item)
  onArena (setCount h (n + 1))
  return .obj h

/-- Deletes item `i` of `n`: later items move down and the last slot becomes 0. -/
def deleteItem (h : Handle) (i n : Nat) : ArenaM Unit := do
  copyFields h (i + 1) h i (n - i)
  setField h n (.int 0)
  setCount h (n - 1)

/-- Deletes one item, by place or "last", or all of them. -/
def delete (list selector : Ref) : PrimM Ref := do
  let h ← PrimM.find .needsList (asList · list)
  let n ← PrimM.look (count · h)
  match ← PrimM.look (Selector.parse · selector) with
  | some .all =>
    let words ← PrimM.look (·.payloadWords h)
    onArena (fillFields h 0 words (.int 0))
  | some .last =>
    if 0 < n then
      onArena (setField h n (.int 0))
      onArena (setCount h (n - 1))
  | some (.index i) =>
    if 1 ≤ i ∧ i ≤ n then onArena (deleteItem h i.toNat n) else refuse .indexOutOfRange
  | some .random | none => refuse .needsInteger
  return .false

/-- The item that a selector names. -/
def get (h : Handle) (selector : Selector) : PrimM Ref := do
  let n ← PrimM.look (count · h)
  let i ← selector.resolve n
  PrimM.look (·.field h i)

/-- Replaces the item that a selector names, or every item for "all". Nothing is stored at
random. -/
def put (h : Handle) (selector : Selector) (value : Ref) : PrimM Ref := do
  let n ← PrimM.look (count · h)
  match selector with
  | .random => refuse .needsIntegerIndex
  | .all => onArena (fillFields h 1 (n + 1) value)
  | _ =>
    let i ← selector.resolve n
    onArena (setField h i value)
  return .false

/-- Overwrites all slots, also spare ones. The count stays. -/
def fill (h : Handle) (value : Ref) : ArenaM Unit := do
  let words ← Arena.look (·.payloadWords h)
  fillFields h 1 words value

/-! ## Lists from lists -/

/-- The first place and the number of items of a slice of `n` items. Its ends are limited to 1
and `n`, and a missing end means `n`. -/
def sliceOf (n : Nat) (first : Int) (last : Option Int) : Nat × Nat :=
  let start := max first 1
  let past := match last with
    | some e => min e n
    | none => n
  (start.toNat, (past - start + 1).toNat)

/-- The items from `first` to `last` as a new list. -/
def copyFromTo (h : Handle) (first : Int) (last : Option Int) : ArenaM Handle := do
  let n ← Arena.look (count · h)
  let (start, size) := sliceOf n first last
  let result ← allot .list (size + 1) (.int 0)
  setCount result size
  copyFields h start result 1 size
  return result

/-- Copies the items of lists into a list, from slot `i` on. -/
def appendFrom (result : Handle) (i : Nat) : List Handle → ArenaM Unit
  | [] => pure ()
  | h :: rest => do
    let n ← Arena.look (count · h)
    copyFields h 1 result i n
    appendFrom result (i + n) rest

/-- The items of all lists together as a new list. -/
def join (lists : List Handle) : ArenaM Handle := do
  let counts ← Arena.look fun a => lists.mapM (count a)
  let result ← allot .list (counts.sum + 1) (.int 0)
  setCount result counts.sum
  appendFrom result 1 lists
  return result

end ObjectMemory.ListObject
