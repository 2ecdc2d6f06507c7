import ObjectMemory.Random.ChaCha

/-!
# Random sources

A source is an endless row of 64-bit numbers and the count of those that were drawn. A pick from
1 to `n` takes numbers from it until one is accepted.

## Picking without bias

A number `v` stands for the pick `1 + v * n / 2^64`. Some picks would own one number more than
the others, so the product's low 64 bits decide: those above a bound are refused and the next
number is drawn. At least half of all numbers are accepted.

## Picks come to an end

A row of numbers that are all refused would keep a pick waiting for ever, so a source has to show
that its row is none: from every place on one of the next numbers is accepted, after no more than
`patience` others. Zero is accepted for every pick. A finite row of numbers that goes on with
zeros is therefore a source.
-/

namespace ObjectMemory

-- Powers of numbers are those of the core library, also beside other instances.
attribute [local instance (2000)] instPowNat

namespace Source

/-- The pick from 1 to `n` that a number stands for. -/
def share (n : Nat) (v : UInt64) : Nat :=
  1 + v.toNat * n / 18446744073709551616

/-- The largest low half of the product that is accepted: `n` shifted up as far as 64 bits
allow, less one. -/
def zone (n : Nat) : Nat :=
  n * 2 ^ (63 - Nat.log2 n) - 1

/-- Is the number accepted for a pick from 1 to `n`? -/
def accepts (n : Nat) (v : UInt64) : Bool :=
  v.toNat * n % 18446744073709551616 ≤ zone n

/-- Zero is accepted for every pick. -/
theorem accepts_zero (n : Nat) : accepts n 0 = true := by
  simp [accepts]

end Source

/-- An endless row of numbers, drawn from in order. -/
structure Source where
  stream : Nat → UInt64
  /-- How many numbers were drawn. -/
  drawn : Nat := 0
  /-- How many numbers a pick may have to refuse. -/
  patience : Nat
  /-- From every place on there is a number that is accepted. -/
  settles : ∀ n i, ∃ k, k ≤ patience ∧ Source.accepts n (stream (i + k)) = true

namespace Source

/-- The first `bound` numbers of a row and then zeros. -/
def upTo (row : Nat → UInt64) (bound : Nat) : Source where
  stream i := if i < bound then row i else 0
  patience := bound
  settles n i := by
    refine ⟨bound, Nat.le_refl bound, ?_⟩
    rw [if_neg (Nat.not_lt.mpr (Nat.le_add_left bound i))]
    exact accepts_zero n

/-- The numbers of a list and then zeros. -/
def ofList (numbers : List UInt64) : Source :=
  let row := numbers.toArray
  upTo (fun i => row.getD i 0) numbers.length

/-- The numbers that a seed determines. The generator counts its blocks of 8 numbers in 64 bits,
so it starts over after 2^67 numbers; the row goes on with zeros from there. -/
def ofSeed (seed : UInt64) : Source :=
  upTo (ChaCha.draw (ChaCha.keyOfSeed seed)) 147573952589676412928

/-- The place of the first number from place `i` on that is accepted, among the next ones. -/
def settle (stream : Nat → UInt64) (n i : Nat) : Nat → Nat
  | 0 => i
  | tries + 1 => if accepts n (stream i) then i else settle stream n (i + 1) tries

/-- A pick from 1 to `n`, and the source after it. -/
def pick (s : Source) (n : Nat) : Nat × Source :=
  let place := settle s.stream n s.drawn s.patience
  (share n (s.stream place), { s with drawn := place + 1 })

/-! ## The number that is picked -/

/-- **The place is that of the first number that is accepted**, if there is one in reach. -/
theorem settle_eq {stream : Nat → UInt64} {n i tries : Nat}
    (h : ∃ k, k ≤ tries ∧ accepts n (stream (i + k)) = true) :
    ∃ k, settle stream n i tries = i + k ∧ accepts n (stream (i + k)) = true ∧
      ∀ j, j < k → accepts n (stream (i + j)) = false := by
  induction tries generalizing i with
  | zero =>
    obtain ⟨k, hk, hacc⟩ := h
    obtain rfl := Nat.le_zero.mp hk
    exact ⟨0, rfl, hacc, fun j hj => absurd hj (Nat.not_lt_zero j)⟩
  | succ tries ih =>
    by_cases hfirst : accepts n (stream i) = true
    · exact ⟨0, if_pos hfirst, hfirst, fun j hj => absurd hj (Nat.not_lt_zero j)⟩
    · -- the first number is refused, so the one in reach comes later
      have hlater : ∃ k, k ≤ tries ∧ accepts n (stream (i + 1 + k)) = true := by
        obtain ⟨k, hk, hacc⟩ := h
        cases k with
        | zero => exact absurd hacc hfirst
        | succ k =>
          refine ⟨k, Nat.le_of_succ_le_succ hk, ?_⟩
          rwa [Nat.add_assoc, Nat.add_comm 1 k]
      obtain ⟨k, hplace, hacc, hbefore⟩ := ih hlater
      have hshift (j : Nat) : i + (j + 1) = i + 1 + j := by omega
      refine ⟨k + 1, ?_, ?_, fun j hj => ?_⟩
      · rw [settle, if_neg hfirst, hplace, hshift k]
      · rwa [hshift k]
      · cases j with
        | zero => exact eq_false_of_ne_true hfirst
        | succ j =>
          rw [hshift j]
          exact hbefore j (Nat.lt_of_succ_lt_succ hj)

/-- **A pick draws up to the first number that is accepted**, and this number decides it. -/
theorem pick_eq (s : Source) (n : Nat) :
    ∃ k, s.pick n = (share n (s.stream (s.drawn + k)), { s with drawn := s.drawn + k + 1 }) ∧
      accepts n (s.stream (s.drawn + k)) = true ∧
      ∀ j, j < k → accepts n (s.stream (s.drawn + j)) = false := by
  obtain ⟨k, hplace, hacc, hbefore⟩ := settle_eq (s.settles n s.drawn)
  refine ⟨k, ?_, hacc, hbefore⟩
  simp only [pick, hplace]

theorem one_le_share (n : Nat) (v : UInt64) : 1 ≤ share n v := by
  unfold share
  omega

theorem share_le {n : Nat} (hn : 0 < n) (v : UInt64) : share n v ≤ n := by
  have hv := v.toNat_lt
  have h : v.toNat * n / 18446744073709551616 < n := by
    rw [Nat.div_lt_iff_lt_mul (by decide), Nat.mul_comm]
    exact Nat.mul_lt_mul_of_pos_left hv hn
  unfold share
  omega

/-- **A pick from 1 to `n` lies there**, whatever the source. -/
theorem pick_bounds (s : Source) {n : Nat} (hn : 0 < n) :
    1 ≤ (s.pick n).1 ∧ (s.pick n).1 ≤ n :=
  ⟨one_le_share _ _, share_le hn _⟩

end Source

end ObjectMemory
