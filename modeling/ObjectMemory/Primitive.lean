import ObjectMemory.Container

/-!
# Primitives

Programs call primitives by name with a row of arguments. The container mostly comes last. An
argument too many does no harm, one too few is refused before anything else is looked at.
-/

namespace ObjectMemory

/-- An operation that programs can call by name. -/
inductive Primitive where
  | makeList
  | newList
  | addLast
  | delete
  | join
  | copyFromTo
  | findInString
  | joinStrings
  | freeMemory
  | getItem
  | putItem
  | fill
  | length
  deriving DecidableEq, Repr, Inhabited

namespace Primitive

open PrimM (refuse onArena)

/-- All primitives, in the order of the table. -/
def all : List Primitive :=
  [.makeList, .newList, .addLast, .delete, .join, .copyFromTo, .findInString, .joinStrings,
    .freeMemory, .getItem, .putItem, .fill, .length]

/-- The name that programs use. -/
def name : Primitive → String
  | .makeList => "makeList"
  | .newList => "newList"
  | .addLast => "addLast"
  | .delete => "delete"
  | .join => "join"
  | .copyFromTo => "copyFromTo"
  | .findInString => "findInString"
  | .joinStrings => "joinStrings"
  | .freeMemory => "freeMemory"
  | .getItem => "at"
  | .putItem => "atPut"
  | .fill => "fill"
  | .length => "length"

/-- The primitive with a given name. -/
def ofName? (text : String) : Option Primitive :=
  all.find? fun p => p.name == text

/-- The name of the one set that all primitives belong to. -/
def setName : String := "data"

/-- The names of the primitives in a set, if there is such a set. -/
def namesOfSet? (set : String) : Option (List String) :=
  if set = setName then some (all.map name) else none

/-- Refuses fewer than `n` arguments. -/
def requireArguments (args : List Ref) (n : Nat) : Except Failure Unit :=
  if args.length < n then .error .notEnoughArguments else .ok ()

/-- The least number of arguments. -/
def arity : Primitive → Nat
  | .makeList | .newList | .freeMemory => 0
  | .joinStrings | .length => 1
  | .addLast | .delete | .join | .copyFromTo | .findInString | .getItem | .fill => 2
  | .putItem => 3

/-- Argument `i`. Naming one that was not passed ends the run. -/
def argument (args : List Ref) (i : Nat) : PrimM Ref :=
  match args[i]? with
  | some r => pure r
  | none => throw (.stop .outside)

/-- The capacity that an argument asks for: a positive integer, or else the least capacity. -/
def capacityAsked : Option Ref → Nat
  | some (.int n) => if 0 < n then n.toNat else ListObject.minCapacity
  | _ => ListObject.minCapacity

/-- The place of one string in another, from an optional start on. -/
def search (needle haystack : Ref) (start : Option Ref) : PrimM Ref := do
  let small ← PrimM.find .needsString (·.asString needle)
  let large ← PrimM.find .needsString (·.asString haystack)
  let needleBytes ← PrimM.look (·.stringBytes small)
  let haystackBytes ← PrimM.look (·.stringBytes large)
  return .int (Search.find needleBytes haystackBytes ((start.bind Ref.int?).getD 1))

/-- The items of a list as one string, with an optional separator. -/
def joinItems (list : Ref) (separator : Option Ref) : PrimM Ref := do
  let h ← PrimM.find .needsList (ListObject.asList · list)
  let items ← PrimM.look (ListObject.items · h)
  StringObject.join items separator

/-- What a primitive does with arguments of which there are enough. -/
def act (p : Primitive) (args : List Ref) : PrimM Ref := do
  match p with
  | .makeList => return .obj (← onArena (ListObject.ofItems args))
  | .newList => return .obj (← onArena (ListObject.allotEmpty (capacityAsked args[0]?)))
  | .addLast => ListObject.addLast (← argument args 1) (← argument args 0)
  | .delete => ListObject.delete (← argument args 1) (← argument args 0)
  | .join => Container.join args
  | .copyFromTo => Container.copyFromTo (← argument args 0) (← argument args 1) args[2]?
  | .findInString => search (← argument args 0) (← argument args 1) args[2]?
  | .joinStrings => joinItems (← argument args 0) args[1]?
  | .freeMemory => PrimM.look fun a => .ok (Ref.ofCount a.freeWords)
  | .getItem => Container.get (← argument args 1) (← argument args 0)
  | .putItem => Container.put (← argument args 1) (← argument args 0) (← argument args 2)
  | .fill => Container.fill (← argument args 0) (← argument args 1)
  | .length => Container.length (← argument args 0)

/-- Runs a primitive. -/
def run (p : Primitive) (args : List Ref) : PrimM Ref :=
  match requireArguments args p.arity with
  | .ok () => p.act args
  | .error f => refuse f

/-- Runs the primitive with a given name. -/
def invoke (name : String) (args : List Ref) : PrimM Ref :=
  match ofName? name with
  | some p => p.run args
  | none => refuse .unknownPrimitive

theorem ofName?_name (p : Primitive) : ofName? p.name = some p := by
  cases p <;> decide

end Primitive

end ObjectMemory
