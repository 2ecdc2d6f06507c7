import Mathlib.Tactic.Linarith
import Mathlib.Tactic.Ring
import ObjectMemory.ListObject

/-!
# The capacities of a list that grows

A list that only ever grows by appending goes through a fixed row of capacities, one more for each
time that it moves: 2, 6, 10, 14, 18, 24, 32, and so on. It grows by a third as long as that is no
more than 100 slots. From the fourteenth move on it grows by 100 slots each time.

So the number of moves grows with the logarithm of the number of items at first, and then linearly
(`moves_of_le`). Every move takes up as many words as the list has slots, and two more. Their sum
grows linearly at first as well, but with the square of the number of items in the end:
`movedWords_moves_lt` and `sq_le_movedWords`.
-/

namespace ObjectMemory.ListObject

/-! ## Capacities -/

/-- The capacity of a list after `k` moves. -/
def capacityAfter : Nat → Nat
  | 0 => 2
  | k + 1 => capacityAfter k + max 4 (min 100 (capacityAfter k / 3))

theorem capacityAfter_succ (k : Nat) :
    capacityAfter (k + 1) = capacityAfter k + growth (capacityAfter k) := rfl

theorem capacityAfter_lt_succ (k : Nat) : capacityAfter k < capacityAfter (k + 1) := by
  have := (growth_bounds (capacityAfter k)).1
  rw [capacityAfter_succ]
  omega

theorem capacityAfter_mono {j k : Nat} (hjk : j ≤ k) : capacityAfter j ≤ capacityAfter k := by
  induction hjk with
  | refl => exact Nat.le_refl _
  | step _ ih => exact Nat.le_trans ih (Nat.le_of_lt (capacityAfter_lt_succ _))

/-- **From the fourteenth move on a list grows by 100 slots.** -/
theorem capacityAfter_fourteen_add (m : Nat) : capacityAfter (14 + m) = 306 + 100 * m := by
  induction m with
  | zero => decide
  | succ m ih =>
    rw [← Nat.add_assoc, capacityAfter_succ, ih, growth]
    omega

/-! ## Moves -/

/-- How often a list has moved once `n` items were appended to it. -/
def moves : Nat → Nat
  | 0 => 0
  | n + 1 => if n < capacityAfter (moves n) then moves n else moves n + 1

theorem moves_succ_of_lt {n : Nat} (hroom : n < capacityAfter (moves n)) :
    moves (n + 1) = moves n := by
  rw [moves, if_pos hroom]

theorem moves_succ_of_le {n : Nat} (hfull : capacityAfter (moves n) ≤ n) :
    moves (n + 1) = moves n + 1 := by
  rw [moves, if_neg (Nat.not_lt.mpr hfull)]

theorem le_capacityAfter_moves (n : Nat) : n ≤ capacityAfter (moves n) := by
  induction n with
  | zero => exact Nat.zero_le _
  | succ n ih =>
    rcases Nat.lt_or_ge n (capacityAfter (moves n)) with hroom | hfull
    · rwa [moves_succ_of_lt hroom]
    · have := capacityAfter_lt_succ (moves n)
      rw [moves_succ_of_le hfull]
      omega

/-- **A list moves no more often than it must**: it has moved as often as it takes to have room
for all items. -/
theorem moves_le_iff {n k : Nat} : moves n ≤ k ↔ n ≤ capacityAfter k := by
  constructor
  · intro hle
    exact Nat.le_trans (le_capacityAfter_moves n) (capacityAfter_mono hle)
  · intro hle
    induction n with
    | zero => exact Nat.zero_le k
    | succ n ih =>
      have hmoves := ih (Nat.le_of_succ_le hle)
      rcases Nat.lt_or_ge n (capacityAfter (moves n)) with hroom | hfull
      · rwa [moves_succ_of_lt hroom]
      · -- the list is full, so it has moved less often than `k` times
        rw [moves_succ_of_le hfull]
        refine Nat.lt_of_le_of_ne hmoves fun heq => ?_
        rw [heq] at hfull
        omega

theorem moves_mono {m n : Nat} (hmn : m ≤ n) : moves m ≤ moves n := by
  rw [moves_le_iff]
  exact Nat.le_trans hmn (le_capacityAfter_moves n)

/-- **From 306 items on there is one move for every hundred more.** -/
theorem moves_of_le {n : Nat} (hn : 306 ≤ n) : moves n = 14 + (n - 306 + 99) / 100 := by
  apply Nat.le_antisymm
  · rw [moves_le_iff, capacityAfter_fourteen_add]
    omega
  · -- with one move less there would not be room for all items
    generalize hm : (n - 306 + 99) / 100 = m
    cases m with
    | zero =>
      have hsmall : capacityAfter 13 = 230 := by decide
      have hless : ¬ moves n ≤ 13 := by
        rw [moves_le_iff, hsmall]
        omega
      omega
    | succ m =>
      have hless : ¬ moves n ≤ 14 + m := by
        rw [moves_le_iff, capacityAfter_fourteen_add]
        omega
      omega

/-- With one move less there would not have been room for all items. -/
theorem capacityAfter_lt_of_moves {n k : Nat} (hmoves : moves n = k + 1) : capacityAfter k < n := by
  have hless : ¬ moves n ≤ k := by omega
  rw [moves_le_iff] at hless
  omega

/-! ## Words -/

/-- The words that the first `k` moves take up, headers and counts included. -/
def movedWords : Nat → Nat
  | 0 => 0
  | k + 1 => movedWords k + (capacityAfter (k + 1) + 2)

theorem movedWords_mono {j k : Nat} (hjk : j ≤ k) : movedWords j ≤ movedWords k := by
  induction hjk with
  | refl => exact Nat.le_refl _
  | step _ ih => exact Nat.le_trans ih (Nat.le_add_right _ _)

theorem movedWords_fourteen_add (m : Nat) :
    movedWords (14 + m) = 1241 + 358 * m + 50 * (m * m) := by
  induction m with
  | zero => decide
  | succ m ih =>
    rw [← Nat.add_assoc, movedWords, ih, Nat.add_assoc 14 m 1, capacityAfter_fourteen_add]
    ring

/-- The words of the first 28 moves are fewer than ten for each item. -/
theorem movedWords_lt_of_few {n : Nat} (hn : 1 ≤ n) (hfew : moves n ≤ 28) :
    movedWords (moves n) < 10 * n := by
  have hall : ∀ k < 28, movedWords (k + 1) < 10 * (capacityAfter k + 1) := by decide
  cases hk : moves n with
  | zero =>
    rw [movedWords]
    omega
  | succ k =>
    have hwords := hall k (by omega)
    have hbefore := capacityAfter_lt_of_moves hk
    omega

/-- **The words grow no faster than the square of the number of items**, beside a linear part. -/
theorem movedWords_moves_lt {n : Nat} (hn : 1 ≤ n) :
    200 * movedWords (moves n) < n * n + 2000 * n := by
  by_cases hfew : moves n ≤ 28
  · have hwords := movedWords_lt_of_few hn hfew
    omega
  · obtain ⟨m, hm⟩ : ∃ m, moves n = 14 + m + 1 := ⟨moves n - 15, by omega⟩
    have hbefore := capacityAfter_lt_of_moves hm
    rw [capacityAfter_fourteen_add] at hbefore
    rw [hm, Nat.add_assoc, movedWords_fourteen_add]
    nlinarith [Nat.mul_le_mul hbefore hbefore]

/-- **The words grow no slower than the square of the number of items.** -/
theorem sq_le_movedWords {n : Nat} (hn : 3 ≤ n) : n * n ≤ 200 * movedWords (moves n) := by
  have hle := le_capacityAfter_moves n
  have hsq := Nat.mul_le_mul hle hle
  by_cases hfew : moves n ≤ 14
  · have hall : ∀ k ≤ 14, k = 0 ∨
        capacityAfter k * capacityAfter k ≤ 200 * movedWords k := by decide
    rcases hall (moves n) hfew with hzero | hwords
    · rw [hzero, capacityAfter] at hle
      omega
    · exact Nat.le_trans hsq hwords
  · obtain ⟨m, hm⟩ : ∃ m, moves n = 14 + m := ⟨moves n - 14, by omega⟩
    rw [hm, capacityAfter_fourteen_add] at hsq
    rw [hm, movedWords_fourteen_add]
    nlinarith

/-- **There are fewer than ten words for each item up to 1706 items**, and for a few numbers of
items after the next move. Then the square outgrows them. -/
theorem movedWords_lt_ten_mul_iff {n : Nat} (hn : 1 ≤ n) :
    movedWords (moves n) < 10 * n ↔ n ≤ 1706 ∨ 1787 ≤ n ∧ n ≤ 1806 := by
  have hmoves (m : Nat) : moves n ≤ 14 + m ↔ n ≤ 306 + 100 * m := by
    rw [moves_le_iff, capacityAfter_fourteen_add]
  have h28 := hmoves 14
  have h29 := hmoves 15
  by_cases hfew : moves n ≤ 28
  · have hwords := movedWords_lt_of_few hn hfew
    omega
  · by_cases hnext : moves n ≤ 29
    · have heq : moves n = 14 + 15 := by omega
      rw [heq, movedWords_fourteen_add]
      omega
    · obtain ⟨m, hm⟩ : ∃ m, moves n = 14 + (16 + m) := ⟨moves n - 30, by omega⟩
      have hle := (hmoves (16 + m)).mp (Nat.le_of_eq hm)
      have hmany : 10 * n ≤ movedWords (moves n) := by
        rw [hm, movedWords_fourteen_add]
        nlinarith
      omega

example : (List.range 8).map capacityAfter = [2, 6, 10, 14, 18, 24, 32, 42] := by decide

end ObjectMemory.ListObject
