/-!
# Code points

Strings are bytes that are mostly, but not always, UTF-8. They are divided into code points
without ever being refused: a lead byte takes the continuation bytes that follow it, however
many there are, and any other byte stands alone.

Positions and lengths are counted in bytes, code points from one on. `count` ends because every
code point takes at least one byte.
-/

namespace ObjectMemory.CodePoints

/-- A byte that starts a code point of several bytes. -/
def isLead (b : UInt8) : Bool :=
  192 ≤ b.toNat

/-- A byte that continues a code point. -/
def isContinuation (b : UInt8) : Bool :=
  128 ≤ b.toNat && b.toNat < 192

/-- The number of bytes of the code point that starts with `b`. -/
def width (b : UInt8) (rest : List UInt8) : Nat :=
  if isLead b then 1 + (rest.takeWhile isContinuation).length else 1

/-- The position after the code point at `pos`, or the end. -/
def next (bytes : List UInt8) (pos : Nat) : Nat :=
  match bytes.drop pos with
  | [] => bytes.length
  | b :: rest => pos + width b rest

/-- The number of code points. -/
def count : List UInt8 → Nat
  | [] => 0
  | b :: rest => 1 + count (rest.drop (width b rest - 1))
termination_by bytes => bytes.length
decreasing_by simp only [List.length_drop, List.length_cons]; omega

/-- The position after the first `n` code points, or the end if there are fewer. -/
def offset : List UInt8 → Nat → Nat
  | _, 0 => 0
  | [], _ + 1 => 0
  | b :: rest, n + 1 => width b rest + offset (rest.drop (width b rest - 1)) n

/-- The positions at which the code points from `first` to `last` start and end. There are none
if `first` is 0 or `last` is smaller. -/
def range (bytes : List UInt8) (first last : Nat) : Nat × Nat :=
  if first = 0 ∨ last < first then (0, 0)
  else
    let start := offset bytes (first - 1)
    (start, start + offset (bytes.drop start) (last - first + 1))

/-- The bytes of the code points from `first` to `last`. -/
def slice (bytes : List UInt8) (first last : Nat) : List UInt8 :=
  let (start, past) := range bytes first last
  (bytes.drop start).take (past - start)

/-- The same bytes, if the range of the code points lies in the row. -/
def slice? (bytes : List UInt8) (first last : Nat) : Option (List UInt8) :=
  let (start, past) := range bytes first last
  if start ≤ past ∧ past ≤ bytes.length then some (slice bytes first last) else none

/-- A scanner always moves on. -/
theorem one_le_width (b : UInt8) (rest : List UInt8) : 1 ≤ width b rest := by
  unfold width
  split <;> omega

/-- A character does not reach past the end. -/
theorem width_le (b : UInt8) (rest : List UInt8) : width b rest ≤ 1 + rest.length := by
  unfold width
  have := (List.takeWhile_sublist isContinuation (l := rest)).length_le
  split <;> omega

/-- A position moves on until it reaches the end, and never passes it. -/
theorem next_bounds {bytes : List UInt8} {pos : Nat} (h : pos < bytes.length) :
    pos < next bytes pos ∧ next bytes pos ≤ bytes.length := by
  unfold next
  have hlen : (bytes.drop pos).length = bytes.length - pos := List.length_drop
  cases hd : bytes.drop pos with
  | nil =>
    rw [hd, List.length_nil] at hlen
    omega
  | cons b rest =>
    rw [hd, List.length_cons] at hlen
    have h1 := one_le_width b rest
    have h2 := width_le b rest
    simp only
    omega

theorem offset_le (bytes : List UInt8) (n : Nat) : offset bytes n ≤ bytes.length := by
  induction n generalizing bytes with
  | zero => exact Nat.zero_le _
  | succ n ih =>
    cases bytes with
    | nil => exact Nat.le_refl _
    | cons b rest =>
      have hrest := ih (rest.drop (width b rest - 1))
      have h1 := one_le_width b rest
      have h2 := width_le b rest
      rw [List.length_drop] at hrest
      rw [offset, List.length_cons]
      omega

/-- **The range of code points always lies in the row.** -/
theorem range_le (bytes : List UInt8) (first last : Nat) :
    (range bytes first last).1 ≤ (range bytes first last).2 ∧
      (range bytes first last).2 ≤ bytes.length := by
  unfold range
  split
  · exact ⟨Nat.le_refl 0, Nat.zero_le _⟩
  · have hstart := offset_le bytes (first - 1)
    have hpast := offset_le (bytes.drop (offset bytes (first - 1))) (last - first + 1)
    rw [List.length_drop] at hpast
    dsimp only
    omega

theorem slice?_eq_some (bytes : List UInt8) (first last : Nat) :
    slice? bytes first last = some (slice bytes first last) :=
  if_pos (range_le bytes first last)

end ObjectMemory.CodePoints
