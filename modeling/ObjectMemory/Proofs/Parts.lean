import ObjectMemory.Proofs.Segmentation
import ObjectMemory.Proofs.TextReadings

/-!
# Parts

A list is a row of items, and a string is a row of code points. From either a part can be cut out
between two places, of which each may lie beyond an end of the row. Both are an `Indexable`.

A part of a part is a part of the whole (`Indexable.part_part`), and the part up to a place and the
one after it make up the whole (`Indexable.append_parts`). For rows of any kind these are laws of
`cut`. For strings there is more to it, since the code points of a part are found by looking at its
bytes anew: `CodePoints.pieces_flatten_cut` says that these are the ones that were cut out, for
bytes of any kind.
-/

namespace ObjectMemory

/-! ## Parts of rows -/

section Rows

variable {α : Type} (xs : List α) (first : Int)

/-- An end that is left out is the end of the row. -/
theorem cut_getD (last : Option Int) :
    cut xs first last = cut xs first (some (last.getD xs.length)) := by
  cases last <;> simp [cut]

/-- **What stands in a part.** Its places start where the part does. -/
theorem getElem?_cut (last : Int) (i : Nat) :
    (cut xs first (some last))[i]? =
      if max first 1 + i ≤ last then xs[(max first 1).toNat - 1 + i]? else none := by
  have hplace : (first - 1).toNat = (max first 1).toNat - 1 := by omega
  rw [cut, List.getElem?_drop, List.getElem?_take, hplace]
  by_cases hi : max first 1 + i ≤ last
  · rw [if_pos hi, if_pos (by omega)]
  · rw [if_neg hi, if_neg (by omega)]

theorem length_cut (last : Int) :
    ((cut xs first (some last)).length : Int) =
      max 0 (min last xs.length - max first 1 + 1) := by
  simp only [cut, List.length_drop, List.length_take]
  omega

/-- **A part of a part is a part of the row.** It starts as far into the first part as that one
into the row, and does not reach beyond it. -/
theorem cut_cut (last start stop : Int) :
    cut (cut xs first (some last)) start (some stop) =
      cut xs (max first 1 + max start 1 - 1)
        (some (min (min last xs.length) (max first 1 + stop - 1))) := by
  apply List.ext_getElem?
  intro i
  rw [getElem?_cut, getElem?_cut, getElem?_cut]
  have hplace : (max first 1).toNat - 1 + ((max start 1).toNat - 1 + i) =
      (max (max first 1 + max start 1 - 1) 1).toNat - 1 + i := by omega
  rw [hplace]
  generalize hj : (max (max first 1 + max start 1 - 1) 1).toNat - 1 + i = j
  -- beyond the end of the row nothing stands, whatever the ends of the parts
  rcases Nat.lt_or_ge j xs.length with hin | hout
  · by_cases hstop : max start 1 + i ≤ stop
    · rw [if_pos hstop]
      by_cases hlast : max first 1 + ((max start 1).toNat - 1 + i : Nat) ≤ last
      · rw [if_pos hlast, if_pos (by omega)]
      · rw [if_neg hlast, if_neg (by omega)]
    · rw [if_neg hstop, if_neg (by omega)]
  · rw [List.getElem?_eq_none hout]
    simp

/-- **A row falls into the part up to a place and the part after it**, wherever that is. -/
theorem cut_append_cut (k : Int) :
    cut xs 1 (some k) ++ cut xs (k + 1) (some xs.length) = xs := by
  simp [cut]

end Rows

/-! ## Code points of parts -/

namespace CodePoints

variable {bytes more : List UInt8} {segments : List (List UInt8)}

theorem Segmentation.flatten_eq (hseg : Segmentation bytes segments) :
    segments.flatten = bytes := by
  rw [hseg.eq_pieces, flatten_pieces]

theorem Starts.of_append (h : Starts (bytes ++ more)) : Starts bytes := by
  cases bytes with
  | nil => trivial
  | cons b bytes => exact h

/-- The first code points are divided as they were: a run that ended where the next code point
starts ends there or with the row. -/
theorem Segmentation.take (hseg : Segmentation bytes segments) (n : Nat) :
    Segmentation (segments.take n).flatten (segments.take n) := by
  induction hseg generalizing n with
  | nil => simpa using Segmentation.nil
  | ascii small tail ih =>
    cases n with
    | zero => exact .nil
    | succ n => exact .ascii small (ih n)
  | stray continuation tail ih =>
    cases n with
    | zero => exact .nil
    | succ n => exact .stray continuation (ih n)
  | @lead b run rest segments lead taken maximal tail ih =>
    cases n with
    | zero => exact .nil
    | succ n =>
      refine .lead lead taken ?_ (ih n)
      rw [← tail.flatten_eq, ← List.take_append_drop n segments, List.flatten_append] at maximal
      exact maximal.of_append

/-- What is left after some code points is divided as it was. -/
theorem Segmentation.drop (hseg : Segmentation bytes segments) (n : Nat) :
    Segmentation (segments.drop n).flatten (segments.drop n) := by
  induction n generalizing bytes segments with
  | zero => rwa [List.drop_zero, hseg.flatten_eq]
  | succ n ih =>
    cases hseg with
    | nil => simpa using Segmentation.nil
    | ascii small tail => exact ih tail
    | stray continuation tail => exact ih tail
    | lead lead taken maximal tail => exact ih tail

/-- **Cutting does not change how bytes are divided into code points.** -/
theorem pieces_flatten_cut (bytes : List UInt8) (first last : Int) :
    pieces (cut (pieces bytes) first (some last)).flatten = cut (pieces bytes) first (some last) :=
  (((segmentation_pieces bytes).take _).drop _).eq_pieces.symm

/-- A byte that is not there is in no code point. -/
theorem not_mem_of_mem_pieces {b : UInt8} {piece : List UInt8} (hb : b ∉ bytes)
    (hpiece : piece ∈ pieces bytes) : b ∉ piece := by
  intro hin
  refine hb ?_
  rw [← flatten_pieces bytes]
  exact List.mem_flatten.mpr ⟨piece, hpiece, hin⟩

/-- A code point alone is one code point. -/
theorem pieces_of_mem {piece : List UInt8} (hpiece : piece ∈ pieces bytes) :
    pieces piece = [piece] := by
  obtain ⟨i, hi, rfl⟩ := List.getElem_of_mem hpiece
  have hone := ((segmentation_pieces bytes).drop i).take 1
  rw [List.drop_eq_getElem_cons hi, List.take_succ_cons, List.take_zero] at hone
  simpa using hone.eq_pieces.symm

end CodePoints

/-! ## Lists and strings -/

open CodePoints (pieces)

/-- What is cut and joined: the items of a list, or the bytes of a string. -/
inductive Indexable where
  | list (items : List Ref)
  | string (bytes : List UInt8)
  deriving DecidableEq, Repr

namespace Indexable

/-- The number of items or of code points. -/
def length : Indexable → Nat
  | list items => items.length
  | string bytes => CodePoints.count bytes

/-- The items or the code points from place `first` to place `last`, as far as there are any. -/
def part : Indexable → (first last : Int) → Indexable
  | list items, first, last => list (cut items first (some last))
  | string bytes, first, last => string (cut (pieces bytes) first (some last)).flatten

/-- Two of a kind, one after the other. -/
def append? : Indexable → Indexable → Option Indexable
  | list xs, list ys => some (list (xs ++ ys))
  | string xs, string ys => some (string (xs ++ ys))
  | _, _ => none

/-- A string ends before its first zero byte, so there is none in it. -/
def Clean : Indexable → Prop
  | list _ => True
  | string bytes => 0 ∉ bytes

variable (x : Indexable)

theorem length_part (first last : Int) :
    ((x.part first last).length : Int) = max 0 (min last x.length - max first 1 + 1) := by
  cases x with
  | list items => exact length_cut items first last
  | string bytes =>
    rw [part, length, ← CodePoints.length_pieces, CodePoints.pieces_flatten_cut, length_cut,
      CodePoints.length_pieces, length]

/-- **A part of a part is a part of the whole.** -/
theorem part_part (first last start stop : Int) :
    (x.part first last).part start stop =
      x.part (max first 1 + max start 1 - 1)
        (min (min last x.length) (max first 1 + stop - 1)) := by
  cases x with
  | list items => exact congrArg list (cut_cut items first last start stop)
  | string bytes =>
    rw [part, part, CodePoints.pieces_flatten_cut, cut_cut, CodePoints.length_pieces, part, length]

/-- **The part up to a place and the part after it are the whole.** -/
theorem append_parts (k : Int) : append? (x.part 1 k) (x.part (k + 1) x.length) = some x := by
  cases x with
  | list items => exact congrArg (fun xs => some (list xs)) (cut_append_cut items k)
  | string bytes =>
    rw [part, part, append?, ← List.flatten_append, length, ← CodePoints.length_pieces,
      cut_append_cut, CodePoints.flatten_pieces]

variable {x}

theorem Clean.part (hx : x.Clean) (first last : Int) : (x.part first last).Clean := by
  cases x with
  | list items => trivial
  | string bytes =>
    intro hzero
    obtain ⟨piece, hpiece, hzero⟩ := List.mem_flatten.mp hzero
    exact CodePoints.not_mem_of_mem_pieces hx (mem_of_mem_cut hpiece) hzero

end Indexable

-- A part that starts before the first code point, of bytes that are no UTF-8.
example : (Indexable.string [0xE2, 0x82, 0x41, 0x80]).part (-3) 2 =
    .string [0xE2, 0x82, 0x41] := by
  cbv

end ObjectMemory
