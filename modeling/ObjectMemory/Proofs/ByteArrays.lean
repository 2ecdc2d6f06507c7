import Mathlib.Logic.Function.Basic
import ObjectMemory.Proofs.Session

/-!
# Byte arrays as rows of bytes

A program that never looks behind the primitives sees each byte array as a row of bytes. What a
call does to the rows is said by a `Ruling`, which knows nothing of words: `ArrayCall.ruling`. The
order in which a call looks at its arguments is part of it. A store reads the selector first, then
the value, and only then asks whether there is such a place.

`ArraysRun` are the runs of such a program. Every row keeps the length that it was made with
(`ArraysRun.length_of_made`).
-/

namespace ObjectMemory

/-- The byte arrays of a program. -/
abbrev Arrays := Handle → Option (List UInt8)

/-- A call of a primitive on a byte array, with its selector read. -/
inductive ArrayCall where
  /-- There are too few arguments. -/
  | incomplete
  | getItem (h : Handle) (s : Option Selector)
  | putItem (h : Handle) (s : Option Selector) (value : Ref)
  | fill (h : Handle) (value : Ref)
  | length (h : Handle)

/-- What a call comes to. -/
inductive Ruling where
  /-- It gives one of these references. -/
  | oneOf (rs : List Ref)
  /-- An array holds other bytes, and the call gives false. -/
  | store (h : Handle) (bytes : List UInt8)
  | refuse (f : Failure)

/-- The byte that a reference stands for. -/
def Ref.byte? : Ref → Option UInt8
  | .int n => if 0 ≤ n ∧ n ≤ 255 then some (UInt8.ofNat n.toNat) else none
  | _ => none

/-- The reference to a byte. -/
def Ref.ofByte (b : UInt8) : Ref :=
  .int b.toNat

namespace Ruling

/-- Goes on with what is there, or refuses. -/
def need {α : Type} (f : Failure) (found : Option α) (next : α → Ruling) : Ruling :=
  match found with
  | some x => next x
  | none => refuse f

/-- The byte that a selector names. -/
def item (bytes : List UInt8) : Selector → Ruling
  | .index i => if 1 ≤ i ∧ i ≤ bytes.length then oneOf [.ofByte (bytes.getD (i.toNat - 1) 0)]
    else refuse .indexOutOfRange
  | .last => need .indexOutOfRange bytes.getLast? fun b => oneOf [.ofByte b]
  | .random => if bytes = [] then refuse .indexOutOfRange else oneOf (bytes.map Ref.ofByte)
  | .all => refuse .needsIntegerIndex

/-- The bytes with those that a selector names replaced. -/
def replaced (h : Handle) (bytes : List UInt8) (b : UInt8) : Selector → Ruling
  | .index i => if 1 ≤ i ∧ i ≤ bytes.length then store h (bytes.set (i.toNat - 1) b)
    else refuse .indexOutOfRange
  | .last => if bytes = [] then refuse .indexOutOfRange
    else store h (bytes.set (bytes.length - 1) b)
  | .all => store h (List.replicate bytes.length b)
  | .random => refuse .needsIntegerIndex

end Ruling

namespace ArrayCall

open Ruling (oneOf store refuse need)

/-- What a call comes to with these arrays. -/
def ruling (arrays : Arrays) : ArrayCall → Ruling
  | incomplete => refuse .notEnoughArguments
  | getItem h selector =>
    need .needsList (arrays h) fun bytes =>
      need .needsIntegerIndex selector fun place => Ruling.item bytes place
  | putItem h selector value =>
    need .needsList (arrays h) fun bytes =>
      need .needsIntegerIndex selector fun place =>
        need .byteArrayStore value.byte? fun b => Ruling.replaced h bytes b place
  | fill h value =>
    need .needsList (arrays h) fun bytes =>
      need .byteArrayStore value.byte? fun b => store h (List.replicate bytes.length b)
  | length h => need .needsList (arrays h) fun bytes => oneOf [.int bytes.length]

end ArrayCall

/-! ## Calls by name -/

/-- The call on a byte array that a call of a primitive is. Calls on other containers are none. -/
def Primitive.arrayCall? (p : Primitive) (v : View) (args : List Ref) : Option ArrayCall :=
  let arg (i : Nat) : Ref := args.getD i .nil
  let onArray (r : Ref) (call : Handle → ArrayCall) : Option ArrayCall :=
    if args.length < p.arity then some .incomplete else (v.named? .byteArray r).map call
  match p with
  | .getItem => onArray (arg 1) fun h => .getItem h (v.selector? (arg 0))
  | .putItem => onArray (arg 1) fun h => .putItem h (v.selector? (arg 0)) (arg 2)
  | .fill => onArray (arg 0) fun h => .fill h (arg 1)
  | .length => onArray (arg 0) fun h => .length h
  | _ => none

/-- The call on a byte array that a call by name is. -/
def Primitive.arrayCallNamed? (v : View) (name : String) (args : List Ref) : Option ArrayCall :=
  (ofName? name).bind fun p => p.arrayCall? v args

/-! ## Runs -/

/-- Something that happens to byte arrays. -/
inductive ArrayEvent where
  /-- An array for at least `n` bytes is made. -/
  | made (n : Nat) (h : Handle)
  | called (call : ArrayCall) (answer : Answer)

/-- A new array for at least `n` bytes. Its length is a multiple of four. -/
def blankBytes (n : Nat) : List UInt8 :=
  List.replicate (4 * ((n + 3) / 4)) 0

/-- The answer and the arrays after it are what the ruling says. -/
def Ruling.Allows (arrays : Arrays) (answer : Answer) (next : Arrays) : Ruling → Prop
  | oneOf rs => (∃ r ∈ rs, answer = .given r) ∧ next = arrays
  | store h bytes => answer = .given .false ∧ next = Function.update arrays h (some bytes)
  | refuse f => answer = .refused f ∧ next = arrays

/-- Rulings lead from no arrays at all to these, with the answers of the log. -/
inductive ArraysRun : (log : List ArrayEvent) → (arrays : Arrays) → Prop
  | start : ArraysRun [] fun _ => none
  | made {log : List ArrayEvent} {arrays : Arrays} {h : Handle} (n : Nat)
    (before : ArraysRun log arrays) (fresh : arrays h = none) :
    ArraysRun (log ++ [.made n h]) (Function.update arrays h (some (blankBytes n)))
  | called {log : List ArrayEvent} {arrays next : Arrays} {answer : Answer} (call : ArrayCall)
    (before : ArraysRun log arrays)
    (allowed : (call.ruling arrays).Allows arrays answer next) :
    ArraysRun (log ++ [.called call answer]) next

section Lengths

variable {arrays next : Arrays} {answer : Answer} {h : Handle}

/-- The ruling leaves arrays of the lengths that there were. -/
def Ruling.KeepsLengths (arrays : Arrays) : Ruling → Prop
  | store h bytes => (arrays h).map List.length = some bytes.length
  | _ => True

theorem Ruling.keepsLengths_need {α : Type} {f : Failure} {found : Option α} {k : α → Ruling}
    (hk : ∀ x, found = some x → (k x).KeepsLengths arrays) :
    (need f found k).KeepsLengths arrays := by
  cases found with
  | none => trivial
  | some x => exact hk x rfl

theorem Ruling.replaced_keepsLengths {bytes : List UInt8} (hbytes : arrays h = some bytes)
    (b : UInt8) (place : Selector) : (replaced h bytes b place).KeepsLengths arrays := by
  cases place with
  | random => trivial
  | all => simp [replaced, KeepsLengths, hbytes]
  | _ =>
    dsimp only [replaced]
    split <;> simp [KeepsLengths, hbytes]

/-- **No call changes the length of an array.** -/
theorem ArrayCall.ruling_keepsLengths (call : ArrayCall) (arrays : Arrays) :
    (call.ruling arrays).KeepsLengths arrays := by
  cases call with
  | incomplete => trivial
  | getItem h selector =>
    refine Ruling.keepsLengths_need fun bytes _ => Ruling.keepsLengths_need fun place _ => ?_
    cases place with
    | all => trivial
    | last => exact Ruling.keepsLengths_need fun _ _ => trivial
    | _ =>
      dsimp only [Ruling.item]
      split <;> trivial
  | putItem h selector value =>
    refine Ruling.keepsLengths_need fun bytes hbytes => Ruling.keepsLengths_need fun place _ => ?_
    exact Ruling.keepsLengths_need fun b _ => Ruling.replaced_keepsLengths hbytes b place
  | fill h value =>
    refine Ruling.keepsLengths_need fun bytes hbytes => Ruling.keepsLengths_need fun b _ => ?_
    simp [Ruling.KeepsLengths, hbytes]
  | length h => exact Ruling.keepsLengths_need fun _ _ => trivial

theorem Ruling.Allows.length_eq {ruling : Ruling} (ha : ruling.Allows arrays answer next)
    (hk : ruling.KeepsLengths arrays) (h : Handle) :
    (next h).map List.length = (arrays h).map List.length := by
  cases ruling with
  | oneOf rs => rw [ha.2]
  | refuse f => rw [ha.2]
  | store g bytes =>
    obtain ⟨_, rfl⟩ := ha
    rw [Function.update_apply]
    split
    · next heq =>
      subst heq
      exact hk.symm
    · rfl

/-- **An array keeps the length that it was made with.** -/
theorem ArraysRun.length_of_made {log : List ArrayEvent} (hrun : ArraysRun log arrays) {n : Nat}
    (hmade : .made n h ∈ log) : (arrays h).map List.length = some (4 * ((n + 3) / 4)) := by
  induction hrun with
  | start => cases hmade
  | @made log arrays g m before fresh ih =>
    rw [Function.update_apply]
    rcases List.mem_append.mp hmade with hmade | hmade
    · -- the handle of the new array is none of those that there were
      have hlength := ih hmade
      rw [if_neg, hlength]
      rintro rfl
      rw [fresh] at hlength
      cases hlength
    · cases List.mem_singleton.mp hmade
      simp [blankBytes]
  | called call before allowed ih =>
    rcases List.mem_append.mp hmade with hmade | hmade
    · rw [allowed.length_eq (call.ruling_keepsLengths _), ih hmade]
    · cases List.mem_singleton.mp hmade

end Lengths

end ObjectMemory
