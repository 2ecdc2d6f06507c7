/-!
# Words and the bytes in them

An arena is a row of 32-bit words. A byte container packs four bytes into each word, the
least significant byte first, so a word is also a row of four bytes.

## The two views

`Word.byte` reads one of the four bytes and `Word.ofBytes` packs four of them. Both are plain
arithmetic on the word's value. They are inverse to each other: `byte_ofBytes` reads back what
was packed, and `eq_of_byte_eq` says that the four bytes determine the word.
-/

namespace ObjectMemory

-- Powers of numbers are those of the core library, also beside other instances.
attribute [local instance (2000)] instPowNat

/-- One cell of an arena. -/
abbrev Word := UInt32

namespace Word

/-- Byte `i` of a word, counted from the least significant one. -/
def byte (w : Word) (i : Nat) : UInt8 :=
  UInt8.ofNat (w.toNat / 256 ^ i)

/-- The word whose bytes are `f 0`, `f 1`, `f 2` and `f 3`. -/
def ofBytes (f : Nat → UInt8) : Word :=
  UInt32.ofNat
    ((f 0).toNat + 256 * ((f 1).toNat + 256 * ((f 2).toNat + 256 * (f 3).toNat)))

/-- The same word with byte `i` replaced. -/
def setByte (w : Word) (i : Nat) (b : UInt8) : Word :=
  ofBytes fun j => if j = i then b else byte w j

theorem toNat_byte (w : Word) (i : Nat) : (byte w i).toNat = w.toNat / 256 ^ i % 256 := by
  simp [byte]

theorem toNat_ofBytes (f : Nat → UInt8) :
    (ofBytes f).toNat =
      (f 0).toNat + 256 * ((f 1).toNat + 256 * ((f 2).toNat + 256 * (f 3).toNat)) := by
  have h0 := (f 0).toNat_lt
  have h1 := (f 1).toNat_lt
  have h2 := (f 2).toNat_lt
  have h3 := (f 3).toNat_lt
  simp only [ofBytes, UInt32.toNat_ofNat']
  omega

/-- **Bytes that were packed are read back.** -/
theorem byte_ofBytes (f : Nat → UInt8) {i : Nat} (hi : i < 4) : byte (ofBytes f) i = f i := by
  have h0 := (f 0).toNat_lt
  have h1 := (f 1).toNat_lt
  have h2 := (f 2).toNat_lt
  have h3 := (f 3).toNat_lt
  apply UInt8.toNat_inj.mp
  rw [toNat_byte, toNat_ofBytes]
  match i, hi with
  | 0, _ => simp only [Nat.pow_zero]; omega
  | 1, _ => simp only [Nat.pow_one]; omega
  | 2, _ => simp only [show 256 ^ 2 = 65536 from rfl]; omega
  | 3, _ => simp only [show 256 ^ 3 = 16777216 from rfl]; omega

/-- **The four bytes determine the word.** -/
theorem eq_of_byte_eq {v w : Word} (h : ∀ i < 4, byte v i = byte w i) : v = w := by
  have key (i : Nat) (hi : i < 4) : v.toNat / 256 ^ i % 256 = w.toNat / 256 ^ i % 256 := by
    rw [← toNat_byte, ← toNat_byte, h i hi]
  have hv := v.toNat_lt
  have hw := w.toNat_lt
  have h0 := key 0 (by omega)
  have h1 := key 1 (by omega)
  have h2 := key 2 (by omega)
  have h3 := key 3 (by omega)
  simp only [Nat.pow_zero, Nat.pow_one, show 256 ^ 2 = 65536 from rfl,
    show 256 ^ 3 = 16777216 from rfl] at h0 h1 h2 h3
  apply UInt32.toNat_inj.mp
  omega

theorem byte_setByte_same (w : Word) {i : Nat} (b : UInt8) (hi : i < 4) :
    byte (setByte w i b) i = b := by
  rw [setByte, byte_ofBytes _ hi, if_pos rfl]

/-- The other bytes of the word stay. -/
theorem byte_setByte_other (w : Word) {i j : Nat} (b : UInt8) (hj : j < 4) (h : j ≠ i) :
    byte (setByte w i b) j = byte w j := by
  rw [setByte, byte_ofBytes _ hj, if_neg h]

end Word

end ObjectMemory
