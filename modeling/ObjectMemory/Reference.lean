import ObjectMemory.Text.Numeral
import ObjectMemory.Word

/-!
# References

Every value a program handles is a `Ref`: a small integer, one of the three singletons, or a
handle to an object in the arena.

## One word per reference

A reference is stored in one word. The low bits tell the kinds apart.

* odd words are integers of 31 bits, the value doubled plus one
* words that leave 2 by 4 are handles, the index times four plus two
* the words 0, 4 and 8 are nil, true and false

Every other multiple of four reads as nil. Such a word arises only when packed bytes are read
as references. Word 0 is nil, so a payload filled with nil holds zero bytes only.
-/

namespace ObjectMemory

/-- A heap object, named by the arena index of its header word. -/
structure Handle where
  /-- Index of the header word. -/
  index : Nat
  deriving DecidableEq, Repr, Inhabited

namespace Handle

/-- Handles are shown by their index. -/
def describe (h : Handle) : String :=
  s!"ObjRef(@{Numeral.decimal h.index})"

end Handle

/-- A reference: an integer, a singleton or a handle. -/
inductive Ref where
  /-- An integer. Those outside the 31-bit range wrap when they are stored. -/
  | int (n : Int)
  | nil
  | true
  | false
  | obj (h : Handle)
  deriving DecidableEq, Repr, Inhabited

namespace Ref

/-- Largest integer that keeps its value in a word. -/
def maxSmallInt : Nat := 1073741823

/-- The integer that `n` wraps to in the 31-bit range, `-2^30` to `2^30 - 1`. -/
def wrap (n : Int) : Int :=
  (n + 1073741824) % 2147483648 - 1073741824

/-- A small integer, wrapped into the 31-bit range. -/
def smallInt (n : Int) : Ref :=
  .int (wrap n)

/-- A count as an integer, no larger than the largest small integer. -/
def ofCount (n : Nat) : Ref :=
  .int (min n maxSmallInt)

/-- The singleton that stands for a truth value. -/
def ofBool (b : Bool) : Ref :=
  if b then .true else .false

def isSmallInt : Ref → Bool
  | .int _ => Bool.true
  | _ => Bool.false

def isBoolean : Ref → Bool
  | .true | .false => Bool.true
  | _ => Bool.false

def isNil : Ref → Bool
  | .nil => Bool.true
  | _ => Bool.false

/-- The integer, for a reference that is one. -/
def int? : Ref → Option Int
  | .int n => some n
  | _ => none

/-- The handle, for a reference that is one. -/
def obj? : Ref → Option Handle
  | .obj h => some h
  | _ => none

theorem obj?_eq_some {r : Ref} {h : Handle} : r.obj? = some h ↔ r = .obj h := by
  cases r <;> simp [obj?]

/-- The word that stores a reference. -/
def toWord : Ref → Word
  | .int n => UInt32.ofNat ((2 * n + 1) % 4294967296).toNat
  | .nil => 0
  | .true => 4
  | .false => 8
  | .obj h => UInt32.ofNat (4 * h.index + 2)

/-- The integer that an odd word with value `n` stores: half of it, read as signed. -/
def signedHalf (n : Nat) : Int :=
  if n < 2147483648 then (n / 2 : Nat) else (n / 2 : Nat) - 2147483648

/-- The reference that a word stores. -/
def ofWord (w : Word) : Ref :=
  let n := w.toNat
  if n % 2 = 1 then .int (signedHalf n)
  else if n % 4 = 2 then .obj ⟨n / 4⟩
  else if n = 4 then .true
  else if n = 8 then .false
  else .nil

/-- References are shown by their kind. -/
def describe : Ref → String
  | .int n => s!"Int({Numeral.signed n})"
  | .nil => "Nil"
  | .true => "True"
  | .false => "False"
  | .obj h => s!"Obj({h.describe})"

/-! ## Storing and reading back -/

/-- A reference that a word can hold without loss. -/
def Canonical : Ref → Prop
  | .int n => -1073741824 ≤ n ∧ n < 1073741824
  | .obj h => h.index < 1073741824
  | _ => True

theorem wrap_of_bounds {n : Int} (h : -1073741824 ≤ n ∧ n < 1073741824) : wrap n = n := by
  unfold wrap
  omega

theorem canonical_ofCount (n : Nat) : (ofCount n).Canonical := by
  simp only [ofCount, Canonical, maxSmallInt]
  omega

theorem toNat_toWord_int (n : Int) :
    ((Ref.int n).toWord.toNat : Int) = (2 * n + 1) % 4294967296 := by
  simp only [toWord, UInt32.toNat_ofNat']
  omega

theorem toNat_toWord_obj {h : Handle} (hi : h.index < 1073741824) :
    (Ref.obj h).toWord.toNat = 4 * h.index + 2 := by
  simp only [toWord, UInt32.toNat_ofNat']
  omega

/-- **An integer is read back wrapped into the 31-bit range.** -/
theorem ofWord_toWord_int (n : Int) : ofWord (Ref.int n).toWord = smallInt n := by
  have h := toNat_toWord_int n
  have hodd : (Ref.int n).toWord.toNat % 2 = 1 := by omega
  simp only [ofWord, hodd, if_pos, smallInt, signedHalf, wrap]
  congr 1
  split <;> omega

/-- **What a word can hold is read back unchanged.** -/
theorem ofWord_toWord {r : Ref} (hr : r.Canonical) : ofWord r.toWord = r := by
  match r, hr with
  | .int n, hr => rw [ofWord_toWord_int, smallInt, wrap_of_bounds hr]
  | .nil, _ => decide
  | .true, _ => decide
  | .false, _ => decide
  | .obj h, hr =>
    have hw := toNat_toWord_obj hr
    have heven : ¬ (Ref.obj h).toWord.toNat % 2 = 1 := by omega
    have htag : (Ref.obj h).toWord.toNat % 4 = 2 := by omega
    simp only [ofWord, heven, htag, if_false, if_true]
    have hdiv : (Ref.obj h).toWord.toNat / 4 = h.index := by omega
    rw [hdiv]

end Ref

end ObjectMemory
