import ObjectMemory.Store.Block

/-!
# Word stores

A store is an endless row of words, zero wherever nothing was written. Only a block at its start
is kept, twice as long whenever a write goes beyond it, and long stretches of one word take no
room in a block. So a large arena costs nothing before it is used.

## The view

`get` is the whole content: each operation is described by what `get` reads after it. `get_set`,
`get_fill` and `get_move` say that an operation changes the words it names and no others. `move`
reads the words of the store as it was before, so the two ranges may overlap.
-/

namespace ObjectMemory

-- Powers of numbers are those of the core library, also beside other instances.
attribute [local instance (2000)] instPowNat

/-- A row of words, zero beyond the part that is kept. -/
structure Store where
  /-- The height of the part that is kept. -/
  height : Nat := 0
  /-- The number of words that are kept. -/
  size : Nat := 1
  /-- The words that are kept. -/
  kept : Block := .uniform 0
  /-- They fill a block of that height. -/
  size_eq : size = 2 ^ height := by decide
  deriving Repr, Inhabited

namespace Store

/-- The word at an index. -/
def get (s : Store) (i : Nat) : Word :=
  if i < s.size then s.kept.get s.height i else 0

/-- The same words, with as many kept after them. -/
def double (s : Store) : Store where
  height := s.height + 1
  size := s.size * 2
  kept := .halves s.kept (.uniform 0)
  size_eq := by rw [s.size_eq, Nat.pow_succ]

/-- The same words, `n` times doubled. -/
def extend : (n : Nat) → Store → Store
  | 0, s => s
  | n + 1, s => extend n s.double

/-- The same words, the one at `i` among those that are kept. -/
def reach (s : Store) (i : Nat) : Store :=
  if i < s.size then s else extend (i.log2 + 1 - s.height) s

/-- The store with the word at `i` replaced. -/
def set (s : Store) (i : Nat) (w : Word) : Store :=
  match s.reach i with
  | ⟨height, size, kept, hsize⟩ => ⟨height, size, kept.set height i w, hsize⟩

/-- The store with the words from `lo` up to `hi` replaced. -/
def overwrite (s : Store) (p : Block.Pattern) (lo hi : Nat) : Store :=
  if lo < hi then
    match s.reach (hi - 1) with
    | ⟨height, size, kept, hsize⟩ => ⟨height, size, kept.overwrite p lo hi height size 0, hsize⟩
  else s

/-- The store with `n` words from `start` on replaced by `w`. -/
def fill (s : Store) (start : Nat) (w : Word) (n : Nat) : Store :=
  s.overwrite (.constant w) start (start + n)

/-! ## The part that is kept -/

theorem get_of_lt {s : Store} {i : Nat} (hi : i < s.size) : s.get i = s.kept.get s.height i := by
  rw [get, if_pos hi]

theorem get_of_le {s : Store} {i : Nat} (hi : s.size ≤ i) : s.get i = 0 := by
  rw [get, if_neg (Nat.not_lt.mpr hi)]

/-- A longer kept part holds the same words. -/
theorem get_double (s : Store) (j : Nat) : s.double.get j = s.get j := by
  have hsize := s.size_eq
  have hdouble : s.double.size = s.size * 2 := rfl
  have hpow : 2 ^ (s.height + 1) = 2 ^ s.height * 2 := Nat.pow_succ 2 s.height
  by_cases h1 : j < s.size
  · rw [get_of_lt h1, get_of_lt (by omega)]
    exact Block.get_lower (by omega)
  · rw [get_of_le (by omega : s.size ≤ j)]
    by_cases h2 : j < s.double.size
    · rw [get_of_lt h2]
      exact (Block.get_upper (by omega) (by omega)).trans (Block.get_uniform 0 _ _)
    · exact get_of_le (by omega)

theorem get_extend (n : Nat) (s : Store) (j : Nat) : (extend n s).get j = s.get j := by
  induction n generalizing s with
  | zero => rfl
  | succ n ih => rw [extend, ih, get_double]

theorem height_extend (n : Nat) (s : Store) : (extend n s).height = s.height + n := by
  induction n generalizing s with
  | zero => rfl
  | succ n ih => rw [extend, ih, double, Nat.add_right_comm, Nat.add_assoc]

theorem get_reach (s : Store) (i j : Nat) : (s.reach i).get j = s.get j := by
  unfold reach
  split
  · rfl
  · exact get_extend _ s j

theorem lt_size_reach (s : Store) (i : Nat) : i < (s.reach i).size := by
  unfold reach
  split
  · assumption
  · rw [size_eq, height_extend]
    exact Nat.lt_of_lt_of_le Nat.lt_log2_self (Nat.pow_le_pow_right (by decide) (by omega))

/-! ## What is read after a change -/

/-- **A written word is read back, and no other word changes.** -/
theorem get_set (s : Store) (i j : Nat) (w : Word) :
    (s.set i w).get j = if j = i then w else s.get j := by
  have hi := lt_size_reach s i
  rw [← get_reach s i j, set]
  generalize s.reach i = t at hi
  obtain ⟨h, n, b, hn⟩ := t
  simp only [get] at hi ⊢
  by_cases hj : j < n
  · rw [if_pos hj, if_pos hj, Block.get_set, ← hn, Nat.mod_eq_of_lt hi, Nat.mod_eq_of_lt hj]
  · rw [if_neg hj, if_neg hj, if_neg (by omega)]

theorem get_set_same (s : Store) (i : Nat) (w : Word) : (s.set i w).get i = w := by
  rw [get_set, if_pos rfl]

theorem get_set_other (s : Store) {i j : Nat} (w : Word) (h : j ≠ i) :
    (s.set i w).get j = s.get j := by
  rw [get_set, if_neg h]

/-- **Overwriting writes the range and nothing else.** -/
theorem get_overwrite (s : Store) (p : Block.Pattern) (lo hi j : Nat) :
    (s.overwrite p lo hi).get j = if lo ≤ j ∧ j < hi then p.word j else s.get j := by
  unfold overwrite
  by_cases hne : lo < hi
  · have hlast := lt_size_reach s (hi - 1)
    rw [if_pos hne, ← get_reach s (hi - 1) j]
    generalize s.reach (hi - 1) = t at hlast
    obtain ⟨h, n, b, hn⟩ := t
    simp only [get] at hlast ⊢
    by_cases hj : j < n
    · rw [if_pos hj, if_pos hj, hn, Block.get_overwrite p lo hi b (by omega), Nat.zero_add]
    · rw [if_neg hj, if_neg hj, if_neg (by omega)]
  · rw [if_neg hne, if_neg (by omega)]

/-- **Filling writes the range and nothing else.** -/
theorem get_fill (s : Store) (start : Nat) (w : Word) (n j : Nat) :
    (s.fill start w n).get j = if start ≤ j ∧ j < start + n then w else s.get j :=
  get_overwrite s (.constant w) start (start + n) j

/-! ## Moving words -/

/-- The word at all of the `n` indices from `i` on, where it is known to be one. -/
def stretch? (s : Store) (i n : Nat) : Option Word :=
  if i + n ≤ s.size then s.kept.constant? s.height s.size i (i + n)
  else if s.size ≤ i then some 0
  else none

theorem get_of_stretch? {s : Store} {i n k : Nat} {w : Word} (hw : s.stretch? i n = some w)
    (hk : k < n) : s.get (i + k) = w := by
  have hsize := s.size_eq
  unfold stretch? at hw
  split at hw
  · rw [get_of_lt (by omega)]
    rw [hsize] at hw
    exact Block.get_of_constant? hw (by omega) (by omega) (by omega)
  · split at hw
    · rw [get_of_le (by omega)]
      exact Option.some.inj hw
    · simp at hw

/-- The words of the store, those from `source` on at the indices from `target` on. -/
def shifted (s : Store) (source target : Nat) : Block.Pattern where
  word j := s.get (source + (j - target))
  stretch? i n := if target ≤ i then s.stretch? (source + (i - target)) n else none
  word_of_stretch? {i n k w} hw hk := by
    split at hw
    · rw [show source + (i + k - target) = source + (i - target) + k by omega]
      exact get_of_stretch? hw hk
    · simp at hw

/-- The store with `n` words copied from `source` on to `target` on. -/
def move (s : Store) (source target n : Nat) : Store :=
  s.overwrite (s.shifted source target) target (target + n)

/-- **A move is simultaneous**: each target word becomes what its source word was before. -/
theorem get_move (s : Store) (source target n j : Nat) :
    (s.move source target n).get j =
      if target ≤ j ∧ j < target + n then s.get (source + (j - target)) else s.get j :=
  get_overwrite s (s.shifted source target) target (target + n) j

end Store

end ObjectMemory
