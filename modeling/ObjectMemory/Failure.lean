/-!
# Failures

A primitive that is given unsuitable arguments refuses them with a `Failure`. The dispatch loop
then abandons the current task and shows the message. Codes are stable: other programs know a
failure by its number.
-/

namespace ObjectMemory

/-- Why a primitive refused its arguments. -/
inductive Failure where
  | notEnoughArguments
  | needsList
  | needsIndexable
  | needsInteger
  | needsIntegerIndex
  | needsString
  | indexOutOfRange
  | byteArrayStore
  | joinArgsNotSameType
  | unknownPrimitive
  deriving DecidableEq, Repr, Inhabited

namespace Failure

/-- All failures, in the order of their codes. -/
def all : List Failure :=
  [.notEnoughArguments, .needsList, .needsIndexable, .needsInteger, .needsIntegerIndex,
    .needsString, .indexOutOfRange, .byteArrayStore, .joinArgsNotSameType, .unknownPrimitive]

/-- The number that other programs know a failure by. -/
def code : Failure → Nat
  | .notEnoughArguments => 1
  | .needsList => 2
  | .needsIndexable => 3
  | .needsInteger => 4
  | .needsIntegerIndex => 5
  | .needsString => 6
  | .indexOutOfRange => 7
  | .byteArrayStore => 8
  | .joinArgsNotSameType => 9
  | .unknownPrimitive => 10

/-- What the user is told. -/
def message : Failure → String
  | .notEnoughArguments => "Not enough arguments passed to primitive"
  | .needsList => "Needs a list"
  | .needsIndexable => "Needs an indexable type such as a string or list"
  | .needsInteger => "Needs an integer"
  | .needsIntegerIndex => "Index must be an integer, \"last\", or \"random\""
  | .needsString => "Needs a string"
  | .indexOutOfRange => "Index out of range"
  | .byteArrayStore => "A ByteArray can only store integers between 0 and 255"
  | .joinArgsNotSameType => "All arguments to join must be the same type"
  | .unknownPrimitive => "Unknown primitive"

/-- The name of a failure. -/
def name : Failure → String
  | .notEnoughArguments => "NotEnoughArguments"
  | .needsList => "NeedsList"
  | .needsIndexable => "NeedsIndexable"
  | .needsInteger => "NeedsInteger"
  | .needsIntegerIndex => "NeedsIntegerIndex"
  | .needsString => "NeedsString"
  | .indexOutOfRange => "IndexOutOfRange"
  | .byteArrayStore => "ByteArrayStore"
  | .joinArgsNotSameType => "JoinArgsNotSameType"
  | .unknownPrimitive => "UnknownPrimitive"

/-- The failure with the given name. -/
def ofName? (text : String) : Option Failure :=
  all.find? fun failure => failure.name == text

/-- Different failures have different codes. -/
theorem code_injective {f g : Failure} (h : f.code = g.code) : f = g := by
  cases f <;> cases g <;> first | rfl | cases h

theorem ofName?_name (f : Failure) : ofName? f.name = some f := by
  cases f <;> decide

end Failure

end ObjectMemory
