import ObjectMemory.Reference
import ObjectMemory.Text.Numeral

/-!
# Stops

Some runs end before they have a result. A `Stop` says why. The one that a correct program can
meet is `exhausted`: the arena has no room left, which is fatal by design. The others show that
a caller broke a rule, such as using a handle that was never issued.

Two of these are found only by a build that checks itself: `overflow`, for a sum that takes more
than 64 bits, and `reservedTag`, for a record that claims to be a container. What is described
here is such a build. One without these checks goes on where they would stop it.
-/

namespace ObjectMemory

/-- What happens when the arena is exhausted. -/
inductive ExhaustionAction where
  /-- The process ends with a failure status. -/
  | exit
  /-- The process waits for ever. -/
  | halt
  /-- The run is abandoned with a report. -/
  | panic
  deriving DecidableEq, Repr, Inhabited

namespace ExhaustionAction

/-- The word for an action in settings. -/
def name : ExhaustionAction → String
  | .exit => "exit"
  | .halt => "halt"
  | .panic => "panic"

/-- All actions. -/
def all : List ExhaustionAction :=
  [.exit, .halt, .panic]

/-- The action with the given name. -/
def ofName? (text : String) : Option ExhaustionAction :=
  all.find? fun action => action.name == text

/-- Actions are shown capitalised. -/
def describe : ExhaustionAction → String
  | .exit => "Exit"
  | .halt => "Halt"
  | .panic => "Panic"

theorem ofName?_name (action : ExhaustionAction) : ofName? action.name = some action := by
  cases action <;> decide

end ExhaustionAction

/-- Why a run ended before its result. -/
inductive Stop where
  /-- The arena has no room: `demand` is what was used plus what was asked for. -/
  | exhausted (action : ExhaustionAction) (demand capacity : Nat)
  /-- A payload word was named that the object does not have. -/
  | payloadIndex (index : Nat) (handle : Handle)
  /-- A record class was named with the tag of a container class. -/
  | reservedTag (tag : Nat)
  /-- A range reaches past its object's payload, or a size past what a header can hold. -/
  | badRange
  /-- A word beyond the end of the arena was named. -/
  | outside
  /-- A sum of sizes takes more than 64 bits, or a row of bytes is too long for any memory. -/
  | overflow
  deriving DecidableEq, Repr

namespace Stop

/-- How full the arena would have had to be. -/
def usage (demand capacity : Nat) : String :=
  s!"{Numeral.decimal demand} words used out of {Numeral.decimal capacity}"

/-- The text of a stop. The last three have no wording of their own and are named by kind. -/
def message : Stop → String
  | .exhausted _ demand capacity => s!"Out of memory! {usage demand capacity}"
  | .payloadIndex index handle =>
    s!"payload index {Numeral.decimal index} out of bounds for {handle.describe}"
  | .reservedTag tag => s!"reserved class tag in Other({Numeral.decimal tag})"
  | .badRange => "assertion failed"
  | .outside | .overflow => "runtime"

/-- What a process that ends or waits on exhaustion says before it does. -/
def lastWords (demand capacity : Nat) : List String :=
  [usage demand capacity, "Out of memory!"]

end Stop

end ObjectMemory
