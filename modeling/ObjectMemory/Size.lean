import ObjectMemory.Stop

/-!
# Sizes

A caller states sizes, starts and lengths as 64-bit numbers, and their sums are worked out in 64
bits. `Size.add` is such a sum. Where it takes more bits the run ends with `Stop.overflow`, as in
a build with overflow checks. A build without them goes on with what is left of the sum modulo
2^64; its runs on such numbers are not described.

Sizes that come from rows in memory, from headers and from 32-bit integers are far below the
bound. Their sums are plain ones.
-/

namespace ObjectMemory.Size

/-- Largest size that 64 bits hold. -/
def largest : Nat := Numeral.maxUInt64

/-- Most bytes that a row in memory can have. -/
def longest : Nat := 9223372036854775807

/-- The `n` bytes from `start` on can be gathered: the end of the range is a size, and a row in
memory can have as many. That this memory is there is taken for granted. -/
def Spans (start n : Nat) : Prop :=
  start + n ≤ largest ∧ n ≤ longest

instance (start n : Nat) : Decidable (Spans start n) :=
  inferInstanceAs (Decidable (_ ∧ _))

/-- The sum of two sizes, if 64 bits hold it. -/
def add (m n : Nat) : Except Stop Nat :=
  if m + n ≤ largest then .ok (m + n) else .error .overflow

/-- The sum of two sizes for a report. One that 64 bits do not hold is given as the largest. -/
def reported (m n : Nat) : Nat :=
  min (m + n) largest

theorem largest_eq : largest = 18446744073709551615 := rfl

theorem add_of_le {m n : Nat} (h : m + n ≤ largest) : add m n = .ok (m + n) :=
  if_pos h

/-- A sum that takes more than 64 bits is not worked out. -/
theorem add_of_lt {m n : Nat} (h : largest < m + n) : add m n = .error .overflow :=
  if_neg (Nat.not_le.mpr h)

/-- A sum that is worked out is the sum. -/
theorem eq_of_add {m n k : Nat} (h : add m n = .ok k) : k = m + n := by
  unfold add at h
  split at h
  · cases h
    rfl
  · cases h

end ObjectMemory.Size
