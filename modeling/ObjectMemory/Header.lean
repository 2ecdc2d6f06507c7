import ObjectMemory.Stop

/-!
# Headers

Every object starts with one header word: the class tag in the four low bits, the number of
payload words in the 28 bits above them. The payload count never changes after allocation. How
many items a list holds, or bytes a string has, is recorded in the payload.
-/

namespace ObjectMemory

/-- What an object is. -/
inductive ObjClass where
  /-- Bytes up to a zero byte, four to a word. -/
  | string
  /-- A count and then items. -/
  | list
  /-- Bytes, four to a word, as many as the words hold. -/
  | byteArray
  /-- A record of fixed size, with a tag of its own. -/
  | other (tag : Nat)
  deriving DecidableEq, Repr, Inhabited

namespace ObjClass

def stringTag : Nat := 4

def listTag : Nat := 5

def byteArrayTag : Nat := 6

/-- The four-bit tag of a class. -/
def tag : ObjClass → Nat
  | .string => stringTag
  | .list => listTag
  | .byteArray => byteArrayTag
  | .other t => t % 16

/-- Is this the tag of a container class? A record must not carry one. -/
def isReservedTag (t : Nat) : Bool :=
  t % 16 == stringTag || t % 16 == listTag || t % 16 == byteArrayTag

/-- The class with a given tag. -/
def ofTag (t : Nat) : ObjClass :=
  if t % 16 = stringTag then .string
  else if t % 16 = listTag then .list
  else if t % 16 = byteArrayTag then .byteArray
  else .other (t % 16)

/-- Classes are shown by name, records by their tag. -/
def describe : ObjClass → String
  | .string => "String"
  | .list => "List"
  | .byteArray => "ByteArray"
  | .other t => s!"Other({Numeral.decimal t})"

theorem tag_lt (c : ObjClass) : c.tag < 16 := by
  cases c with
  | other t => exact Nat.mod_lt t (by omega)
  | _ => decide

/-- A class that a header can hold: not a record with the tag of a container. -/
def Storable : ObjClass → Prop
  | .other t => isReservedTag t = false
  | _ => True

/-- The class that a header gives back. Records keep the tag's four low bits. -/
def stored : ObjClass → ObjClass
  | .other t => .other (t % 16)
  | c => c

/-- **A class is read back from its tag.** -/
theorem ofTag_tag {c : ObjClass} (hc : c.Storable) : ofTag c.tag = c.stored := by
  cases c with
  | other t =>
    simp only [Storable, isReservedTag, Bool.or_eq_false_iff, beq_eq_false_iff_ne] at hc
    simp only [tag, ofTag, Nat.mod_mod, hc.1.1, hc.1.2, hc.2, if_false, stored]
  | _ => rfl

end ObjClass

/-- Largest number of payload words that a header can hold. -/
def maxPayloadWords : Nat := 268435455

/-- A header word. -/
structure Header where
  word : Word
  deriving DecidableEq, Repr, Inhabited

namespace Header

/-- The class named by the low bits. -/
def cls (h : Header) : ObjClass :=
  ObjClass.ofTag (h.word.toNat % 16)

/-- The number of payload words. -/
def payloadWords (h : Header) : Nat :=
  h.word.toNat / 16

/-- The header with this class and this size, with no check on either. -/
def ofParts (c : ObjClass) (payloadWords : Nat) : Header :=
  ⟨UInt32.ofNat (16 * payloadWords + c.tag)⟩

/-- The header of an object. The size is checked before the class. Both are checks of a build that
checks itself; without them the header of `ofParts` is made, which reads back as a container where
a record has the tag of one. -/
def pack (c : ObjClass) (payloadWords : Nat) : Except Stop Header :=
  if maxPayloadWords < payloadWords then .error .badRange
  else
    match c with
    | .other t =>
      if ObjClass.isReservedTag t then .error (.reservedTag t) else .ok (ofParts c payloadWords)
    | _ => .ok (ofParts c payloadWords)

/-- Headers are shown with their parts and the raw word. -/
def describe (h : Header) : String :=
  "Header \x7b class: " ++ h.cls.describe ++ ", words: " ++ Numeral.decimal h.payloadWords ++
    ", raw: 0x" ++ Numeral.hex h.word.toNat ++ " \x7d"

/-! ## Packing and reading back -/

theorem payloadWords_lt (h : Header) : h.payloadWords < 268435456 := by
  have := h.word.toNat_lt
  unfold payloadWords
  omega

theorem toNat_ofParts {c : ObjClass} {n : Nat} (hn : n ≤ maxPayloadWords) :
    (ofParts c n).word.toNat = 16 * n + c.tag := by
  have ht := c.tag_lt
  unfold maxPayloadWords at hn
  simp only [ofParts, UInt32.toNat_ofNat']
  omega

/-- **The size of an object is read back from its header.** -/
theorem payloadWords_ofParts {c : ObjClass} {n : Nat} (hn : n ≤ maxPayloadWords) :
    (ofParts c n).payloadWords = n := by
  have ht := c.tag_lt
  rw [payloadWords, toNat_ofParts hn]
  omega

/-- **The class of an object is read back from its header.** -/
theorem cls_ofParts {c : ObjClass} {n : Nat} (hn : n ≤ maxPayloadWords) (hc : c.Storable) :
    (ofParts c n).cls = c.stored := by
  have ht := c.tag_lt
  have hmod : (16 * n + c.tag) % 16 = c.tag := by omega
  rw [cls, toNat_ofParts hn, hmod, ObjClass.ofTag_tag hc]

/-- A header is made exactly for a size that fits and a class that may be stored. -/
theorem pack_eq_ok {c : ObjClass} {n : Nat} (hn : n ≤ maxPayloadWords) (hc : c.Storable) :
    pack c n = .ok (ofParts c n) := by
  unfold pack
  rw [if_neg (by omega)]
  cases c with
  | other t =>
    simp only [ObjClass.Storable] at hc
    simp [hc]
  | _ => rfl

end Header

end ObjectMemory
