import ObjectMemory.Text.Ranges

/-!
# Ignorable characters

A character with the property Default_Ignorable_Code_Point has no shape of its own: fillers,
joiners, marks of direction, selectors of a variant and tags. Some of them are letters, such as
the Hangul fillers, and many of the code points are not assigned. The ranges are those of
Unicode 17.0.
-/

namespace ObjectMemory.Ignorable

/-- The code points with the property Default_Ignorable_Code_Point. -/
def ranges : List (Nat × Nat) :=
  [(0x00AD, 0x00AD), (0x034F, 0x034F), (0x061C, 0x061C), (0x115F, 0x1160), (0x17B4, 0x17B5),
   (0x180B, 0x180F), (0x200B, 0x200F), (0x202A, 0x202E), (0x2060, 0x206F), (0x3164, 0x3164),
   (0xFE00, 0xFE0F), (0xFEFF, 0xFEFF), (0xFFA0, 0xFFA0), (0xFFF0, 0xFFF8), (0x1BCA0, 0x1BCA3),
   (0x1D173, 0x1D17A), (0xE0000, 0xE0FFF)]

/-- Does the character have the property Default_Ignorable_Code_Point? -/
def isIgnorable (c : Char) : Bool :=
  Ranges.member c.toNat ranges

theorem ranges_ascending : Ranges.ascendingFrom 0 ranges = true := by
  decide

example : ranges.length = 17 ∧ Ranges.count ranges = 4174 := by
  decide

/-- **A character is ignorable if it lies in one of the ranges.** -/
theorem isIgnorable_iff (c : Char) :
    isIgnorable c = true ↔ ∃ r ∈ ranges, r.1 ≤ c.toNat ∧ c.toNat ≤ r.2 :=
  Ranges.member_iff ranges_ascending c.toNat

/-- No character below U+00AD is ignorable. -/
theorem isIgnorable_of_lt {c : Char} (h : c.toNat < 0xAD) : isIgnorable c = false := by
  rw [isIgnorable, ranges, Ranges.member, if_pos h]

end ObjectMemory.Ignorable
