import ObjectMemory.ByteArrayObject
import ObjectMemory.ListObject
import ObjectMemory.StringObject

/-!
# Containers

Lists, strings and byte arrays have items that are named by place. The operations here look at
the class of an object and choose the operation of that kind.
-/

namespace ObjectMemory

/-- An object with items. -/
inductive Container where
  | list (h : Handle)
  | string (h : Handle)
  | byteArray (h : Handle)
  deriving DecidableEq, Repr

namespace Container

open PrimM (refuse onArena)

/-- The container with a given handle and class. -/
def ofClass? (h : Handle) : ObjClass → Option Container
  | .list => some (.list h)
  | .string => some (.string h)
  | .byteArray => some (.byteArray h)
  | .other _ => none

/-- The container that a reference names. -/
def classify (a : Arena) : Ref → Except Stop (Option Container)
  | .obj h => (a.classOf h).map (ofClass? h)
  | _ => .ok none

/-- The item that a selector names. -/
def get (container selector : Ref) : PrimM Ref := do
  let target ← PrimM.find .needsList (classify · container)
  let place ← PrimM.find .needsIntegerIndex (Selector.parse · selector)
  match target with
  | .list h => ListObject.get h place
  | .string h => StringObject.get h place
  | .byteArray h => ByteArrayObject.get h place

/-- Replaces the item that a selector names. Strings never change. -/
def put (container selector value : Ref) : PrimM Ref := do
  let target ← PrimM.find .needsList (classify · container)
  let place ← PrimM.find .needsIntegerIndex (Selector.parse · selector)
  match target with
  | .list h => ListObject.put h place value
  | .byteArray h => ByteArrayObject.put h place value
  | .string _ => refuse .needsList

/-- Replaces every item. -/
def fill (container value : Ref) : PrimM Ref := do
  match ← PrimM.look (classify · container) with
  | some (.list h) =>
    onArena (ListObject.fill h value)
    return .false
  | some (.byteArray h) => ByteArrayObject.fill h value
  | _ => refuse .needsList

/-- The number of items. -/
def length (container : Ref) : PrimM Ref := do
  match ← PrimM.find .needsList (classify · container) with
  | .list h => return Ref.ofCount (← PrimM.look (ListObject.count · h))
  | .string h => return Ref.ofCount (← PrimM.look (StringObject.length · h))
  | .byteArray h => return Ref.ofCount (← PrimM.look (·.byteArrayLength h))

/-- The integer that a reference is. -/
def needInteger (r : Ref) : PrimM Int :=
  match r.int? with
  | some n => pure n
  | none => refuse .needsInteger

/-- The items from one place to another, as a new list or string. -/
def copyFromTo (source first : Ref) (last : Option Ref) : PrimM Ref := do
  let first ← needInteger first
  let last ← last.mapM needInteger
  match ← PrimM.look (classify · source) with
  | some (.list h) => return .obj (← onArena (ListObject.copyFromTo h first last))
  | some (.string h) => return .obj (← onArena (StringObject.copyFromTo h first last))
  | _ => refuse .needsIndexable

/-- Two or more lists as one, or two or more strings as one. The first part decides which. -/
def join : List Ref → PrimM Ref
  | first :: second :: rest => do
    let parts := first :: second :: rest
    match ← PrimM.look (classify · first) with
    | some (.list _) =>
      let lists ← parts.mapM fun r => PrimM.find .joinArgsNotSameType (ListObject.asList · r)
      return .obj (← onArena (ListObject.join lists))
    | some (.string _) => StringObject.concat parts
    | _ => refuse .needsIndexable
  | _ => refuse .notEnoughArguments

end Container

end ObjectMemory
