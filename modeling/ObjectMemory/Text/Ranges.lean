/-!
# Ranges of code points

A set of characters is given as a list of closed ranges of code points, in ascending order and
with a gap between any two. The search ends at the first range that lies beyond the code point,
so a low code point is answered quickly; `member_iff` says that nothing is missed by that.
-/

namespace ObjectMemory.Ranges

-- Sums of numbers start from the zero of the core library, also beside other instances.
attribute [local instance (2000)] Zero.ofOfNat0

/-- Are the ranges in ascending order and apart, and is the first one not below `bound`? -/
def ascendingFrom (bound : Nat) : List (Nat × Nat) → Bool
  | [] => true
  | (lo, hi) :: rest => bound ≤ lo && lo ≤ hi && ascendingFrom (hi + 2) rest

/-- Does a code point lie in one of the ranges? -/
def member (n : Nat) : List (Nat × Nat) → Bool
  | [] => false
  | (lo, hi) :: rest => if n < lo then false else if n ≤ hi then true else member n rest

/-- The number of code points in the ranges. -/
def count (ranges : List (Nat × Nat)) : Nat :=
  (ranges.map fun r => r.2 + 1 - r.1).sum

theorem le_of_ascendingFrom {bound : Nat} {ranges : List (Nat × Nat)}
    (h : ascendingFrom bound ranges = true) : ∀ r ∈ ranges, bound ≤ r.1 := by
  induction ranges generalizing bound with
  | nil => simp
  | cons first rest ih =>
    obtain ⟨lo, hi⟩ := first
    simp only [ascendingFrom, Bool.and_eq_true, decide_eq_true_eq] at h
    intro r hr
    rcases List.mem_cons.mp hr with rfl | hr
    · exact h.1.1
    · have := ih h.2 r hr
      omega

/-- **The search finds exactly the code points in the ranges.** -/
theorem member_iff {bound : Nat} {ranges : List (Nat × Nat)}
    (h : ascendingFrom bound ranges = true) (n : Nat) :
    member n ranges = true ↔ ∃ r ∈ ranges, r.1 ≤ n ∧ n ≤ r.2 := by
  induction ranges generalizing bound with
  | nil => simp [member]
  | cons first rest ih =>
    obtain ⟨lo, hi⟩ := first
    simp only [ascendingFrom, Bool.and_eq_true, decide_eq_true_eq] at h
    have hrest := ih h.2
    have hle := le_of_ascendingFrom h.2
    simp only [member, List.mem_cons, or_and_right, exists_or, exists_eq_left]
    by_cases h1 : n < lo
    · rw [if_pos h1]
      constructor
      · intro hf
        simp at hf
      · rintro (hin | ⟨r, hr, hin⟩)
        · omega
        · have := hle r hr
          omega
    · rw [if_neg h1]
      by_cases h2 : n ≤ hi
      · rw [if_pos h2]
        exact iff_of_true rfl (.inl ⟨by omega, h2⟩)
      · rw [if_neg h2, hrest]
        constructor
        · exact .inr
        · rintro (hin | hin)
          · omega
          · exact hin

end ObjectMemory.Ranges
