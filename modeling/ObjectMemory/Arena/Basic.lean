import ObjectMemory.Journal
import ObjectMemory.Stats
import ObjectMemory.Store

/-!
# The arena

All objects live in one row of words. Each starts with a header word, its payload follows, and
the next object follows that. Allocation moves the boundary between used and free words up;
nothing is given back singly, and `reset` moves the boundary back to the start.

## Reading and changing

Reading functions take the arena and give a value or a stop. Changing ones are actions of
`ArenaM`, which keep the arena also when they stop, so the journal shows what led there.

Whether a handle was issued is not checked. A word is always read as what the caller says it
is. What is checked is that a word index stays below the capacity, that a payload index stays
below the payload size in the header, and that 64 bits hold the sums of sizes and starts that a
caller states.

## Growing

An object cannot change its size. `grow` makes a copy of another size and leaves the old object
where it is.
-/

namespace ObjectMemory

/-- Largest number of words of an arena. Every payload that fits into one fits a header. -/
def maxArenaWords : Nat := 268435456

/-- A row of words, the used ones first. -/
structure Arena where
  /-- Number of words. -/
  capacity : Nat
  /-- The words. -/
  store : Store
  /-- Number of used words. -/
  used : Nat
  /-- What happens when an object does not fit. -/
  onExhaustion : ExhaustionAction
  counters : Counters
  /-- What has happened so far. -/
  journal : Array Event
  deriving Repr

/-- Actions on an arena. -/
abbrev ArenaM := EStateM Stop Arena

namespace Arena

/-! ## Making an arena -/

/-- An empty arena of `words` words, or of the largest size if that is smaller. -/
def ofSize (words : Nat) : Arena where
  capacity := min words maxArenaWords
  store := {}
  used := 0
  onExhaustion := .exit
  counters := {}
  journal :=
    if maxArenaWords < words then
      #[.sizeClamped words maxArenaWords, .initialized maxArenaWords]
    else #[.initialized words]

/-- The same arena with another action on exhaustion. -/
def withAction (a : Arena) (action : ExhaustionAction) : Arena :=
  { a with onExhaustion := action }

/-! ## Actions -/

/-- The value of a reading function. -/
@[inline] def look {α : Type} (read : Arena → Except Stop α) : ArenaM α := fun a =>
  match read a with
  | .ok x => .ok x a
  | .error s => .error s a

/-- Adds an event to the journal. -/
def note (e : Event) : ArenaM Unit :=
  modify fun a => { a with journal := a.journal.push e }

/-- Changes the words. -/
@[inline] def alter (change : Store → Store) : ArenaM Unit :=
  modify fun a => { a with store := change a.store }

/-- Changes the counts. -/
@[inline] def tally (change : Counters → Counters) : ArenaM Unit :=
  modify fun a => { a with counters := change a.counters }

/-! ## How full it is -/

/-- Number of words that are not used. -/
def freeWords (a : Arena) : Nat :=
  a.capacity - a.used

/-- A snapshot of the arena's use. -/
def stats (a : Arena) : Stats where
  capacity := a.capacity
  used := a.used
  free := a.freeWords
  peak := a.counters.peak
  allocations := a.counters.allocations
  relocations := a.counters.relocations
  relocatedWords := a.counters.relocatedWords
  resets := a.counters.resets

/-- Does the handle lie among the used words? -/
def contains (a : Arena) (h : Handle) : Bool :=
  h.index < a.used

/-- Arenas are shown by size, use and action. -/
def describe (a : Arena) : String :=
  "Arena \x7b capacity_words: " ++ Numeral.decimal a.capacity ++ ", used_words: " ++
    Numeral.decimal a.used ++ ", on_exhaustion: " ++ a.onExhaustion.describe ++ " \x7d"

/-! ## Reading -/

/-- The word at an index below the capacity. -/
def cell (a : Arena) (i : Nat) : Except Stop Word :=
  if i < a.capacity then .ok (a.store.get i) else .error .outside

/-- The header of an object. -/
def header (a : Arena) (h : Handle) : Except Stop Header :=
  (a.cell h.index).map Header.mk

/-- The class of an object. -/
def classOf (a : Arena) (h : Handle) : Except Stop ObjClass :=
  (a.header h).map Header.cls

/-- The class of a reference, if it is a handle. -/
def classOfRef (a : Arena) : Ref → Except Stop (Option ObjClass)
  | .obj h => (a.classOf h).map some
  | _ => .ok none

/-- Is the reference an object of the given class? -/
def isClass (a : Arena) (r : Ref) (c : ObjClass) : Except Stop Bool :=
  (a.classOfRef r).map (· == some c)

/-- The number of payload words of an object. -/
def payloadWords (a : Arena) (h : Handle) : Except Stop Nat :=
  (a.header h).map Header.payloadWords

/-- The index in the arena of payload word `i` of an object, if the object has it. -/
def locate (a : Arena) (h : Handle) (i : Nat) : Except Stop Nat := do
  let n ← a.payloadWords h
  if n ≤ i then throw (.payloadIndex i h)
  if a.capacity ≤ h.index + 1 + i then throw .outside
  return h.index + 1 + i

/-- Payload word `i` of an object. -/
def payloadWord (a : Arena) (h : Handle) (i : Nat) : Except Stop Word :=
  (a.locate h i).map a.store.get

/-- Payload word `i` of an object, as a reference. -/
def field (a : Arena) (h : Handle) (i : Nat) : Except Stop Ref :=
  (a.payloadWord h i).map Ref.ofWord

/-- The values of a reading function from `start` on, `n` of them, or its first stop. -/
def collect {α : Type} (read : Nat → Except Stop α) (start : Nat) :
    Nat → List α → Except Stop (List α)
  | 0, done => .ok done.reverse
  | n + 1, done =>
    match read start with
    | .ok x => collect read (start + 1) n (x :: done)
    | .error s => .error s

/-- The values of a reading function at `start`, `start + 1` and so on, `n` of them. -/
def readRange {α : Type} (read : Nat → Except Stop α) (start n : Nat) : Except Stop (List α) :=
  collect read start n []

/-! ## Allocation -/

/-- Would `payload` words and a header fit? The last word of an arena always stays free. -/
def Fits (a : Arena) (payload : Nat) : Prop :=
  a.used + (1 + payload) < a.capacity ∧ payload ≤ maxPayloadWords

instance (a : Arena) (payload : Nat) : Decidable (a.Fits payload) :=
  inferInstanceAs (Decidable (_ ∧ _))

/-- Records that `requested` words do not fit, and stops. -/
def exhaust {α : Type} (requested : Nat) : ArenaM α := do
  let a ← get
  note (.exhausted a.used requested a.capacity)
  throw (.exhausted a.onExhaustion (Size.reported a.used requested) a.capacity)

/-- The arena with an object of the given header and size at the boundary. -/
def place (a : Arena) (header : Header) (payload : Nat) (fill : Word) : Arena :=
  match a with
  | ⟨capacity, store, used, action, counters, journal⟩ =>
    { capacity
      store := (store.set used header.word).fill (used + 1) fill payload
      used := used + (1 + payload)
      onExhaustion := action
      counters := counters.countAllocation (used + (1 + payload))
      journal }

/-- A new object with every payload word set to `fill`, for a size that needs no check. -/
def allot (c : ObjClass) (payload : Nat) (fill : Ref) : ArenaM Handle := do
  let a ← get
  let start := a.used
  if a.Fits payload then
    let header ← look fun _ => Header.pack c payload
    modify fun a => a.place header payload fill.toWord
    note (.allocated start c payload)
    return ⟨start⟩
  else exhaust (1 + payload)

/-- A new object with every payload word set to `fill`, for a size that a caller states. -/
def allocate (c : ObjClass) (payload : Nat) (fill : Ref) : ArenaM Handle := do
  let _ ← look fun _ => Size.add 1 payload
  allot c payload fill

/-- Stops unless the words below `past` lie in the arena. -/
def reach (past : Nat) : ArenaM Unit := do
  if (← get).capacity < past then throw .outside

/-- A copy of an object with `payload` payload words. The words that both sizes have are copied
and further ones set to `fill`. -/
def grow (h : Handle) (payload : Nat) (fill : Ref) : ArenaM Handle := do
  let header ← look (·.header h)
  let copy ← allocate header.cls payload fill
  let keep := min header.payloadWords payload
  reach (h.index + 1 + keep)
  alter (·.move (h.index + 1) (copy.index + 1) keep)
  tally (·.countRelocation (1 + payload))
  note (.relocated h.index copy.index header.payloadWords payload)
  return copy

/-- Gives all words back. They keep their content. -/
def reset : ArenaM Unit := do
  note (.reset (← get).used)
  modify fun a => { a with used := 0, counters := a.counters.countReset }

/-! ## Changing payload words -/

/-- Stores a word as payload word `i` of an object. -/
def setPayloadWord (h : Handle) (i : Nat) (w : Word) : ArenaM Unit := do
  let place ← look (·.locate h i)
  alter (·.set place w)

/-- Stores a reference as payload word `i` of an object. -/
def setField (h : Handle) (i : Nat) (value : Ref) : ArenaM Unit :=
  setPayloadWord h i value.toWord

/-- Sets the payload words from `first` up to `past` to a reference. An empty range is never
checked. -/
def fillFields (h : Handle) (first past : Nat) (value : Ref) : ArenaM Unit := do
  if first < past then
    let n ← look (·.payloadWords h)
    if n < past then throw .badRange
    reach (h.index + 1 + past)
    alter (·.fill (h.index + 1 + first) value.toWord (past - first))

/-- Copies `n` payload words, also within one object and between ranges that overlap. Nothing
is checked where there is nothing to copy. The source's range is checked before the target's. -/
def copyFields (source : Handle) (sourceStart : Nat) (target : Handle) (targetStart n : Nat) :
    ArenaM Unit := do
  if 0 < n then
    let sourcePast ← look fun _ => Size.add sourceStart n
    let sourceWords ← look (·.payloadWords source)
    if sourceWords < sourcePast then throw .badRange
    let targetPast ← look fun _ => Size.add targetStart n
    let targetWords ← look (·.payloadWords target)
    if targetWords < targetPast then throw .badRange
    reach (source.index + 1 + sourceStart + n)
    reach (target.index + 1 + targetStart + n)
    alter (·.move (source.index + 1 + sourceStart) (target.index + 1 + targetStart) n)

/-! ## Showing an object -/

/-- An object's header and payload words, a line each. -/
def dump (a : Arena) (h : Handle) : Except Stop String := do
  if a.contains h then
    let header ← a.header h
    let words ← readRange (a.payloadWord h) 0 header.payloadWords
    let title := Numeral.hex h.index ++ ": " ++ Numeral.decimal header.payloadWords ++
      " words, class " ++ header.cls.describe ++ "\n"
    let raw := "Header: " ++ Numeral.hex header.word.toNat ++ "\n"
    let lines := words.map fun w => "\t0x" ++ Numeral.hex w.toNat ++ ",\n"
    return title ++ raw ++ String.join lines
  else return "bad object at " ++ Numeral.decimal h.index

end Arena

end ObjectMemory
