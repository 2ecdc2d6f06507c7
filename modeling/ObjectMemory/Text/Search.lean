/-!
# Search

The first place of one row of bytes in another. Places are counted from 1, and -1 stands for
none. Code points play no part: the search compares bytes.

A place is given as an integer of 32 bits, with no check. Here it is any integer, and `find_lt`
says that the two are the same where fewer than 2^31 bytes are searched, which holds for every
string in an arena. In a longer row of bytes a place beyond that would be cut off.
-/

namespace ObjectMemory.Search

/-- How many bytes to pass over before `needle` stands at the front. -/
def skip? (needle : List UInt8) : List UInt8 → Option Nat
  | [] => if needle.isEmpty then some 0 else none
  | b :: rest =>
    if needle.isPrefixOf (b :: rest) then some 0 else (skip? needle rest).map (· + 1)

/-- The first place of `needle` in `haystack` from `start` on, or -1. A start before the first
byte counts as 1. Past the last byte nothing is found, not even the empty row. -/
def find (needle haystack : List UInt8) (start : Int) : Int :=
  let first := (max start 1).toNat
  if haystack.length < first then -1
  else
    match skip? needle (haystack.drop (first - 1)) with
    | some n => (first + n : Nat)
    | none => -1

/-- A place that a search finds lies in the row that is searched, unless nothing was looked for. -/
theorem skip?_bounds {needle haystack : List UInt8} {n : Nat}
    (hn : skip? needle haystack = some n) : needle = [] ∧ n = 0 ∨ n < haystack.length := by
  induction haystack generalizing n with
  | nil =>
    simp only [skip?] at hn
    split at hn
    · next hempty =>
      cases hn
      exact Or.inl ⟨List.isEmpty_iff.mp hempty, rfl⟩
    · cases hn
  | cons b rest ih =>
    simp only [skip?] at hn
    split at hn
    · cases hn
      exact Or.inr (Nat.succ_pos _)
    · next hfront =>
      obtain ⟨m, hm, rfl⟩ := Option.map_eq_some_iff.mp hn
      rcases ih hm with ⟨rfl, _⟩ | hlt
      · -- the empty row stands at every front
        exact absurd rfl hfront
      · exact Or.inr (Nat.succ_lt_succ hlt)

theorem find_bounds (needle haystack : List UInt8) (start : Int) :
    -1 ≤ find needle haystack start ∧ find needle haystack start ≤ haystack.length := by
  unfold find
  dsimp only
  split
  · omega
  · split
    · next n hn =>
      have hbounds := skip?_bounds hn
      rw [List.length_drop] at hbounds
      omega
    · omega

/-- **Every place fits 32 bits** where fewer than 2^31 bytes are searched. -/
theorem find_lt {haystack : List UInt8} (needle : List UInt8) (start : Int)
    (hlen : haystack.length < 2147483648) :
    -2147483648 ≤ find needle haystack start ∧ find needle haystack start < 2147483648 := by
  have hbounds := find_bounds needle haystack start
  omega

end ObjectMemory.Search
