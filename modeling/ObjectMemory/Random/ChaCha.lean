/-!
# ChaCha with twelve rounds

A key of eight words determines an endless row of blocks of sixteen words. A block is made from
a state of sixteen words: four constants, the key, the number of the block as 64 bits and two
zero words. Six double rounds mix it, and the state before is added to the result.

A seed of 64 bits is spread over a key by a second, smaller generator: eight steps of a linear
congruence, each giving a word through a shift, an exclusive or and a rotation.
-/

namespace ObjectMemory.ChaCha

/-- The state with the four words at `a`, `b`, `c` and `d` mixed. -/
def quarter (s : Array UInt32) (a b c d : Nat) : Array UInt32 :=
  let rotate (x : UInt32) (n : UInt32) := x <<< n ||| x >>> (32 - n)
  let word (i : Nat) := s.getD i 0
  let a1 := word a + word b
  let d1 := rotate (word d ^^^ a1) 16
  let c1 := word c + d1
  let b1 := rotate (word b ^^^ c1) 12
  let a2 := a1 + b1
  let d2 := rotate (d1 ^^^ a2) 8
  let c2 := c1 + d2
  let b2 := rotate (b1 ^^^ c2) 7
  (((s.setIfInBounds a a2).setIfInBounds b b2).setIfInBounds c c2).setIfInBounds d d2

/-- Where the quarters of a double round stand: the columns of the state, then its diagonals. -/
def quarters : List (Nat × Nat × Nat × Nat) :=
  [(0, 4, 8, 12), (1, 5, 9, 13), (2, 6, 10, 14), (3, 7, 11, 15),
    (0, 5, 10, 15), (1, 6, 11, 12), (2, 7, 8, 13), (3, 4, 9, 14)]

/-- Two rounds. -/
def doubleRound (s : Array UInt32) : Array UInt32 :=
  quarters.foldl (fun s (a, b, c, d) => quarter s a b c d) s

/-- The words that spell "expand 32-byte k". -/
def constants : Array UInt32 :=
  #[0x61707865, 0x3320646e, 0x79622d32, 0x6b206574]

/-- The state that block number `n` is made from. -/
def initial (key : Array UInt32) (n : Nat) : Array UInt32 :=
  constants ++ key ++
    #[UInt32.ofNat n, UInt32.ofNat (n / 4294967296), 0, 0]

/-- Block number `n`. -/
def block (key : Array UInt32) (n : Nat) : Array UInt32 :=
  let start := initial key n
  let mixed := Nat.repeat doubleRound 6 start
  Array.zipWith (· + ·) mixed start

/-- The 64-bit number at place `i` of the row, its low half first. -/
def draw (key : Array UInt32) (i : Nat) : UInt64 :=
  let words := block key (i / 8)
  let low := words.getD (2 * (i % 8)) 0
  let high := words.getD (2 * (i % 8) + 1) 0
  low.toUInt64 ||| high.toUInt64 <<< 32

/-! ## From a seed to a key -/

/-- One step of the linear congruence. -/
def advance (state : UInt64) : UInt64 :=
  state * 6364136223846793005 + 11634580027462260723

/-- The word that a state of the congruence gives. -/
def keyWord (state : UInt64) : UInt32 :=
  let x := ((state >>> 18 ^^^ state) >>> 27).toUInt32
  let n := (state >>> 59).toUInt32
  x >>> n ||| x <<< (32 - n)

/-- The words of the `n` states after a state. -/
def spread (state : UInt64) : Nat → List UInt32
  | 0 => []
  | n + 1 => keyWord (advance state) :: spread (advance state) n

/-- The key that a seed gives. -/
def keyOfSeed (seed : UInt64) : Array UInt32 :=
  (spread seed 8).toArray

end ObjectMemory.ChaCha
