import ObjectMemory.Arena.Basic
import ObjectMemory.Text.Utf8

/-!
# Bytes in the arena

Strings and byte arrays hold four bytes to a word, the least significant first. A string ends at
a zero byte, and at least one always fits; how long it is shows in its last word. A byte array
has no end mark and as many bytes as its words hold.

Every access to a byte goes through one payload word, so the payload check holds for bytes as
well. A run of bytes is read or written one byte after the other.
-/

namespace ObjectMemory.Arena

/-- The number of words that hold `n` bytes. -/
def wordsForBytes (n : Nat) : Nat :=
  (n + 3) / 4

/-! ## Single bytes and runs of bytes -/

/-- Byte `i` of an object. -/
def byteAt (a : Arena) (h : Handle) (i : Nat) : Except Stop UInt8 :=
  (a.payloadWord h (i / 4)).map fun w => Word.byte w (i % 4)

/-- The `n` bytes of an object from `offset` on. A row for them is set up first. -/
def readBytes (a : Arena) (h : Handle) (offset n : Nat) : Except Stop (List UInt8) :=
  if Size.Spans offset n then readRange (a.byteAt h) offset n else .error .overflow

/-- Replaces byte `i` of an object. -/
def setByte (h : Handle) (i : Nat) (b : UInt8) : ArenaM Unit := do
  let w ← look (·.payloadWord h (i / 4))
  setPayloadWord h (i / 4) (Word.setByte w (i % 4) b)

/-- Replaces the bytes of an object from `offset` on. -/
def writeBytes (h : Handle) (offset : Nat) : List UInt8 → ArenaM Unit
  | [] => pure ()
  | b :: rest => do
    setByte h offset b
    writeBytes h (offset + 1) rest

/-- Sets every byte of an object to `b`. Where the header states a payload that leaves the arena,
the words up to its end are set before the run stops. -/
def fillBytes (h : Handle) (b : UInt8) : ArenaM Unit := do
  let n ← look (·.payloadWords h)
  let past := min (h.index + 1 + n) (← get).capacity
  alter (·.fill (h.index + 1) (Word.ofBytes fun _ => b) (past - (h.index + 1)))
  reach (h.index + 1 + n)

/-! ## Byte arrays -/

/-- A new byte array of zero bytes, with room for `n` of them. -/
def newByteArray (n : Nat) : ArenaM Handle :=
  allocate .byteArray (wordsForBytes n) .nil

/-- The number of bytes of a byte array. -/
def byteArrayLength (a : Arena) (h : Handle) : Except Stop Nat :=
  (a.payloadWords h).map (4 * ·)

/-! ## Strings -/

/-- A new string of zero bytes, with room for `n` bytes and the end mark. Nil is the word 0, so
every byte is an end mark at first. -/
def allotString (n : Nat) : ArenaM Handle :=
  allot .string (wordsForBytes (n + 1)) .nil

/-- A new string of zero bytes, with room for as many bytes as a caller states. -/
def allocString (n : Nat) : ArenaM Handle := do
  let bytes ← look fun _ => Size.add n 1
  allocate .string (wordsForBytes bytes) .nil

/-- A new string with the bytes before the first zero byte. -/
def newString (bytes : List UInt8) : ArenaM Handle := do
  let content := bytes.takeWhile (· ≠ 0)
  let h ← allotString content.length
  writeBytes h 0 content
  return h

/-- The position of the first zero byte in a word, or 4. -/
def tailLength (w : Word) : Nat :=
  ((List.range 4).takeWhile fun i => Word.byte w i ≠ 0).length

/-- The number of bytes of a string: all words but the last are full. -/
def stringLength (a : Arena) (h : Handle) : Except Stop Nat := do
  let n ← a.payloadWords h
  if n = 0 then return 0
  let last ← a.payloadWord h (n - 1)
  return 4 * (n - 1) + tailLength last

/-- The bytes of a string, without the end mark. -/
def stringBytes (a : Arena) (h : Handle) : Except Stop (List UInt8) := do
  let n ← a.stringLength h
  a.readBytes h 0 n

/-- The text of a string. What is no UTF-8 is replaced. -/
def stringText (a : Arena) (h : Handle) : Except Stop String :=
  (a.stringBytes h).map Utf8.lossy

/-- The handle of a reference to a string. -/
def asString (a : Arena) : Ref → Except Stop (Option Handle)
  | .obj h => (a.classOf h).map fun c => if c = .string then some h else none
  | _ => .ok none

/-- Is the reference a string with exactly these bytes? The length is compared first. -/
def stringMatches (a : Arena) (r : Ref) (bytes : List UInt8) : Except Stop Bool := do
  match ← a.asString r with
  | some h =>
    if (← a.stringLength h) = bytes.length then return (← a.stringBytes h) == bytes
    else return false
  | none => return false

end ObjectMemory.Arena
