import ObjectMemory.Selector

/-!
# Byte arrays

A byte array is a row of bytes of fixed length. Its items are the integers from 0 to 255. Any
other value is refused before the array is touched.
-/

namespace ObjectMemory.ByteArrayObject

open PrimM (refuse onArena)

/-- The byte that a reference stands for. -/
def byteValue : Ref → Except Failure UInt8
  | .int n => if 0 ≤ n ∧ n ≤ 255 then .ok (UInt8.ofNat n.toNat) else .error .byteArrayStore
  | _ => .error .byteArrayStore

/-- The byte that a reference stands for, as an action that may refuse it. -/
def needByte (value : Ref) : PrimM UInt8 :=
  match byteValue value with
  | .ok b => pure b
  | .error f => refuse f

/-- The byte that a selector names. -/
def get (h : Handle) (selector : Selector) : PrimM Ref := do
  let n ← PrimM.look (·.byteArrayLength h)
  let i ← selector.resolve n
  let b ← PrimM.look (·.byteAt h (i - 1))
  return .int b.toNat

/-- Replaces the byte that a selector names, or every byte for "all". Nothing is stored at
random. -/
def put (h : Handle) (selector : Selector) (value : Ref) : PrimM Ref := do
  let b ← needByte value
  match selector with
  | .random => refuse .needsIntegerIndex
  | .all => onArena (Arena.fillBytes h b)
  | _ =>
    let n ← PrimM.look (·.byteArrayLength h)
    let i ← selector.resolve n
    onArena (Arena.setByte h (i - 1) b)
  return .false

/-- Replaces every byte. -/
def fill (h : Handle) (value : Ref) : PrimM Ref := do
  let b ← needByte value
  onArena (Arena.fillBytes h b)
  return .false

end ObjectMemory.ByteArrayObject
