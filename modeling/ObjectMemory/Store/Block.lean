import ObjectMemory.Word

/-!
# Blocks of words

A block of height `h` is a row of `2 ^ h` words. It is either one word over and over, or two
blocks of half the length side by side, so a long stretch of one word takes no more room than
the word alone. The height is not kept in the block: whoever holds the block knows it.

## The view

`get` is the content. The bits of an index, the highest first, lead down to the word, and the
bits above the block's height do not count. `get_set` and `get_overwrite` say which words a
change touches.

## Cost

Reading and writing a word take as many steps as the block is high. Overwriting a range takes
that many for each stretch of one word that is written, however long the stretch is.
-/

namespace ObjectMemory

-- Powers of numbers are those of the core library, also beside other instances.
attribute [local instance (2000)] instPowNat

/-- A row of words, by stretches of one word. -/
inductive Block where
  /-- One word over and over. -/
  | uniform (w : Word)
  /-- Two blocks of half the length. -/
  | halves (lower upper : Block)
  deriving Repr, Inhabited

namespace Block

/-- The first half of a block. -/
def lower : Block → Block
  | uniform w => uniform w
  | halves l _ => l

/-- The second half of a block. -/
def upper : Block → Block
  | uniform w => uniform w
  | halves _ u => u

/-- The word at an index of a block of height `h`. -/
def get : Block → (h i : Nat) → Word
  | uniform w, _, _ => w
  | halves _ _, 0, _ => 0
  | halves l u, h + 1, i => if i.testBit h then u.get h i else l.get h i

/-- The block with the word at `i` replaced. -/
def set : Block → (h i : Nat) → Word → Block
  | _, 0, _, w => uniform w
  | uniform v, h + 1, i, w =>
    if i.testBit h then halves (uniform v) ((uniform v).set h i w)
    else halves ((uniform v).set h i w) (uniform v)
  | halves l u, h + 1, i, w =>
    if i.testBit h then halves l (u.set h i w) else halves (l.set h i w) u

/-! ## Halves and indices -/

theorem get_uniform (w : Word) (h i : Nat) : (uniform w).get h i = w := by
  cases h <;> rfl

theorem get_succ (b : Block) (h i : Nat) :
    b.get (h + 1) i = if i.testBit h then b.upper.get h i else b.lower.get h i := by
  cases b with
  | uniform w => simp only [upper, lower, get_uniform, ite_self]
  | halves l u => rfl

/-- The highest of the bits that count splits a row in two. -/
theorem mod_two_pow_succ (i h : Nat) :
    i % 2 ^ (h + 1) = i % 2 ^ h + 2 ^ h * (i.testBit h).toNat := by
  rw [Nat.toNat_testBit, Nat.mod_pow_succ]

/-- Bits above the height do not count. -/
theorem get_congr (b : Block) {h i j : Nat} (hij : i % 2 ^ h = j % 2 ^ h) :
    b.get h i = b.get h j := by
  induction h generalizing b with
  | zero => cases b <;> rfl
  | succ h ih =>
    rw [mod_two_pow_succ, mod_two_pow_succ] at hij
    have hi := Nat.mod_lt i (Nat.two_pow_pos h)
    have hj := Nat.mod_lt j (Nat.two_pow_pos h)
    rw [get_succ, get_succ]
    cases hbi : i.testBit h <;> cases hbj : j.testBit h <;>
      simp only [hbi, hbj, Bool.toNat_false, Bool.toNat_true, Nat.mul_zero, Nat.mul_one] at hij
    · simpa using ih b.lower hij
    · omega
    · omega
    · simpa using ih b.upper (by omega)

theorem get_lower {b : Block} {h i : Nat} (hi : i < 2 ^ h) :
    b.get (h + 1) i = b.lower.get h i := by
  rw [get_succ, Nat.testBit_lt_two_pow hi]
  simp

theorem get_upper {b : Block} {h i : Nat} (hlo : 2 ^ h ≤ i) (hhi : i < 2 ^ (h + 1)) :
    b.get (h + 1) i = b.upper.get h (i - 2 ^ h) := by
  have hbit : i.testBit h = true := Nat.testBit_of_two_pow_le_and_two_pow_add_one_gt hlo hhi
  rw [get_succ, hbit, if_pos rfl]
  apply get_congr
  conv => lhs; rw [show i = i - 2 ^ h + 2 ^ h by omega, Nat.add_mod_right]

/-- **A written word is read back, and no other word changes.** -/
theorem get_set (b : Block) (h i j : Nat) (w : Word) :
    (b.set h i w).get h j = if j % 2 ^ h = i % 2 ^ h then w else b.get h j := by
  induction h generalizing b with
  | zero =>
    rw [set, get_uniform, if_pos (by simp [Nat.mod_one])]
  | succ h ih =>
    have hset : b.set (h + 1) i w =
        if i.testBit h then halves b.lower (b.upper.set h i w)
        else halves (b.lower.set h i w) b.upper := by
      cases b <;> rfl
    have hi := Nat.mod_lt i (Nat.two_pow_pos h)
    have hj := Nat.mod_lt j (Nat.two_pow_pos h)
    rw [hset, get_succ, get_succ, mod_two_pow_succ, mod_two_pow_succ]
    cases hbi : i.testBit h <;> cases hbj : j.testBit h <;>
      simp only [Bool.false_eq_true, if_true, if_false, lower, upper, ih, Bool.toNat_false,
        Bool.toNat_true, Nat.mul_zero, Nat.mul_one, Nat.add_zero, Nat.add_right_cancel_iff]
    · rw [if_neg (by omega)]
    · rw [if_neg (by omega)]

/-! ## Stretches of one word

A walk through a block takes the number of its words along, and not only its height, so that no
power is computed on the way. -/

theorem half_two_pow_succ (h : Nat) : 2 ^ (h + 1) / 2 = 2 ^ h := by
  rw [Nat.pow_succ, Nat.mul_div_cancel _ (by decide)]

/-- The word that stands at all indices from `lo` up to `hi` of a block of `size` words, if
there is one. -/
def constant? : Block → (h size lo hi : Nat) → Option Word
  | uniform w, _, _, _, _ => some w
  | halves _ _, 0, _, _, _ => none
  | halves l u, h + 1, size, lo, hi =>
    let half := size / 2
    if hi ≤ half then l.constant? h half lo hi
    else if half ≤ lo then u.constant? h half (lo - half) (hi - half)
    else
      match l.constant? h half lo half with
      | none => none
      | some v => (u.constant? h half 0 (hi - half)).filter (v == ·)

theorem get_of_constant? {b : Block} {h lo hi j : Nat} {w : Word}
    (hw : b.constant? h (2 ^ h) lo hi = some w) (hlo : lo ≤ j) (hhi : j < hi) (hj : j < 2 ^ h) :
    b.get h j = w := by
  induction b generalizing h lo hi j w with
  | uniform v =>
    rw [get_uniform]
    simpa [constant?] using hw
  | halves l u ihl ihu =>
    cases h with
    | zero => simp [constant?] at hw
    | succ h =>
      simp only [constant?, half_two_pow_succ] at hw
      by_cases hside : j < 2 ^ h
      · rw [get_lower hside, lower]
        by_cases h1 : hi ≤ 2 ^ h
        · rw [if_pos h1] at hw
          exact ihl hw hlo hhi hside
        · rw [if_neg h1, if_neg (by omega)] at hw
          split at hw
          · simp at hw
          · rename_i v hv
            obtain ⟨_, hvw⟩ := Option.filter_eq_some_iff.mp hw
            rw [← eq_of_beq hvw]
            exact ihl hv hlo hside hside
      · rw [get_upper (by omega) hj, upper]
        have hrest : j - 2 ^ h < 2 ^ h := by
          rw [Nat.pow_succ] at hj
          omega
        rw [if_neg (by omega)] at hw
        by_cases h2 : 2 ^ h ≤ lo
        · rw [if_pos h2] at hw
          exact ihu hw (by omega) (by omega) hrest
        · rw [if_neg h2] at hw
          split at hw
          · simp at hw
          · exact ihu (Option.filter_eq_some_iff.mp hw).1 (Nat.zero_le _) (by omega) hrest

/-! ## Overwriting a range -/

/-- Words to be written, by the index they go to. -/
structure Pattern where
  /-- The word for an index. -/
  word : Nat → Word
  /-- The word for all of the `n` indices from `i` on, where it is known to be one. -/
  stretch? : (i n : Nat) → Option Word
  /-- A stretch holds the word of each of its indices. -/
  word_of_stretch? : ∀ {i n k : Nat} {w : Word}, stretch? i n = some w → k < n → word (i + k) = w

/-- The same word for every index. -/
def Pattern.constant (w : Word) : Pattern where
  word _ := w
  stretch? _ _ := some w
  word_of_stretch? h _ := Option.some.inj h

/-- The block with the words from `lo` up to `hi` replaced. It has `size` words, and `base` is
the index of the first one. -/
def overwrite (p : Pattern) (lo hi : Nat) : Block → (h size base : Nat) → Block
  | b, 0, _, base => if lo ≤ base ∧ base < hi then uniform (p.word base) else b
  | b, h + 1, size, base =>
    if base + size ≤ lo ∨ hi ≤ base then b
    else
      let whole := if lo ≤ base ∧ base + size ≤ hi then p.stretch? base size else none
      match whole with
      | some w => uniform w
      | none =>
        let half := size / 2
        halves (b.lower.overwrite p lo hi h half base)
          (b.upper.overwrite p lo hi h half (base + half))

/-- **Overwriting writes the range and nothing else.** -/
theorem get_overwrite (p : Pattern) (lo hi : Nat) (b : Block) {h base j : Nat} (hj : j < 2 ^ h) :
    (b.overwrite p lo hi h (2 ^ h) base).get h j =
      if lo ≤ base + j ∧ base + j < hi then p.word (base + j) else b.get h j := by
  induction h generalizing b base j with
  | zero =>
    have hj0 : j = 0 := by simpa using hj
    subst hj0
    rw [overwrite, Nat.add_zero]
    split
    · rw [get_uniform]
    · rfl
  | succ h ih =>
    rw [overwrite]
    split
    · rename_i hout
      rw [if_neg (by omega)]
    · simp only [half_two_pow_succ]
      split
      · rename_i w hwhole
        rw [Option.ite_none_right_eq_some] at hwhole
        rw [get_uniform, if_pos (by omega), p.word_of_stretch? hwhole.2 hj]
      · by_cases hside : j < 2 ^ h
        · rw [get_lower hside, get_lower hside, lower, ih _ hside]
        · have hrest : j - 2 ^ h < 2 ^ h := by
            rw [Nat.pow_succ] at hj
            omega
          rw [get_upper (by omega) hj, get_upper (by omega) hj, upper, ih _ hrest,
            show base + 2 ^ h + (j - 2 ^ h) = base + j by omega]

end Block

end ObjectMemory
