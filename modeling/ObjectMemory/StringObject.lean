import ObjectMemory.CodePoints
import ObjectMemory.Selector
import ObjectMemory.Text.Search

/-!
# Strings

Strings never change. Lengths and places count code points, and a part of a string is a new
string. Integers and truth values may stand among strings that are joined, and are printed.
-/

namespace ObjectMemory.StringObject

open Arena (allocString newString)
open PrimM (refuse onArena)

/-- The number of code points. -/
def length (a : Arena) (h : Handle) : Except Stop Nat :=
  (a.stringBytes h).map CodePoints.count

/-- A new string with the code points from `first` to `last` of a row of bytes. A range that
leaves the row ends the run. -/
def newSlice (bytes : List UInt8) (first last : Nat) : ArenaM Handle :=
  match CodePoints.slice? bytes first last with
  | some part => newString part
  | none => throw .outside

/-- The code point that a selector names, as a new string. -/
def get (h : Handle) (selector : Selector) : PrimM Ref := do
  let bytes ← PrimM.look (·.stringBytes h)
  let i ← selector.resolve (CodePoints.count bytes)
  return .obj (← onArena (newSlice bytes i i))

/-- The code points from `first` to `last` as a new string. The ends are limited to 1 and the
length, and a missing end means the length. -/
def copyFromTo (h : Handle) (first : Int) (last : Option Int) : ArenaM Handle := do
  let bytes ← Arena.look (·.stringBytes h)
  let n := CodePoints.count bytes
  let start := max first 1
  let past : Int := match last with
    | some e => min e n
    | none => n
  if past < start then allocString 0
  else newSlice bytes start.toNat past.toNat

/-! ## Joining -/

/-- What a reference looks like among joined strings, if it may stand there. -/
def printed (a : Arena) : Ref → Except Stop (Option (List UInt8))
  | .int n => .ok (some (Utf8.encode (Numeral.signed n)))
  | .true => .ok (some (Utf8.encode "true"))
  | .false => .ok (some (Utf8.encode "false"))
  | r => do
    match ← a.asString r with
    | some h => return some (← a.stringBytes h)
    | none => return none

/-- The printed forms of all parts, or `f` if one has none. -/
def printAll (f : Failure) (parts : List Ref) : PrimM (List (List UInt8)) :=
  parts.mapM fun r => PrimM.find f (printed · r)

/-- The parts after one another as a new string. -/
def concat (parts : List Ref) : PrimM Ref := do
  let printed ← printAll .joinArgsNotSameType parts
  return .obj (← onArena (newString printed.flatten))

/-- The bytes of a separator. What is not a string counts as empty. -/
def separatorBytes (a : Arena) (separator : Option Ref) : Except Stop (List UInt8) := do
  match separator with
  | none => return []
  | some r =>
    match ← a.asString r with
    | some h => a.stringBytes h
    | none => return []

/-- The items as a new string, with a separator between every two. -/
def join (items : List Ref) (separator : Option Ref) : PrimM Ref := do
  let between ← PrimM.look (separatorBytes · separator)
  let printed ← printAll .needsString items
  return .obj (← onArena (newString (between.intercalate printed)))

end ObjectMemory.StringObject
