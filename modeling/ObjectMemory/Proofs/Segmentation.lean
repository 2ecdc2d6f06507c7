import ObjectMemory.Proofs.Pieces

/-!
# The segmentation into code points

Bytes are divided into code points by three rules. An ASCII byte stands alone, a lead byte takes
all continuation bytes that follow it, and a continuation byte that no lead byte took stands alone
as well. A `Segmentation` says no more than that. There is one of every row of bytes, and only
one: the `pieces`.

The scanner goes from one `boundary` to the next. Counting, skipping and cutting each walk over
the bytes on their own, and `code_points_segment_bytes` says that they all go by these boundaries.
-/

namespace ObjectMemory.CodePoints

/-! ## Segmentations -/

/-- A division of a row of bytes into code points. -/
inductive Segmentation : (bytes : List UInt8) → (segments : List (List UInt8)) → Prop
  | nil : Segmentation [] []
  | ascii {b : UInt8} {rest : List UInt8} {segments : List (List UInt8)} (small : b.toNat < 128)
    (tail : Segmentation rest segments) : Segmentation (b :: rest) ([b] :: segments)
  | stray {b : UInt8} {rest : List UInt8} {segments : List (List UInt8)}
    (continuation : isContinuation b = true) (tail : Segmentation rest segments) :
    Segmentation (b :: rest) ([b] :: segments)
  | lead {b : UInt8} {run rest : List UInt8} {segments : List (List UInt8)}
    (lead : isLead b = true) (taken : ∀ x ∈ run, isContinuation x = true) (maximal : Starts rest)
    (tail : Segmentation rest segments) : Segmentation (b :: (run ++ rest)) ((b :: run) :: segments)

variable {bytes rest run : List UInt8} {segments : List (List UInt8)} {b : UInt8}

/-- A byte that is neither a lead byte nor a continuation byte is an ASCII one. -/
theorem lt_of_not_lead (hlead : ¬ isLead b = true) (hcont : ¬ isContinuation b = true) :
    b.toNat < 128 := by
  rw [isLead_iff] at hlead
  rw [isContinuation_iff] at hcont
  omega

theorem pieces_of_not_lead (hlead : ¬ isLead b = true) :
    pieces (b :: rest) = [b] :: pieces rest := by
  rw [pieces_cons, width, if_neg hlead]
  rfl

/-- **A lead byte takes the run of continuation bytes that follows it.** -/
theorem pieces_of_lead (hlead : isLead b = true) (htaken : ∀ x ∈ run, isContinuation x = true)
    (hmaximal : Starts rest) : pieces (b :: (run ++ rest)) = (b :: run) :: pieces rest := by
  have hwidth : width b (run ++ rest) - 1 = run.length := by
    rw [width, if_pos hlead, takeWhile_continuation htaken hmaximal]
    omega
  rw [pieces_cons, hwidth, List.take_left, List.drop_left]

/-- What is left after a run of continuation bytes does not start with one. -/
theorem starts_dropWhile (bytes : List UInt8) : Starts (bytes.dropWhile isContinuation) := by
  induction bytes with
  | nil => trivial
  | cons b rest ih =>
    rw [List.dropWhile_cons]
    split
    · exact ih
    · next hb => exact Bool.eq_false_iff.mpr hb

/-- What a lead byte leaves starts after the run of continuation bytes. -/
theorem drop_width_of_lead (hlead : isLead b = true) (rest : List UInt8) :
    rest.drop (width b rest - 1) = rest.dropWhile isContinuation := by
  have hrest := @List.drop_left _ (rest.takeWhile isContinuation) (rest.dropWhile isContinuation)
  rw [List.takeWhile_append_dropWhile] at hrest
  rw [width, if_pos hlead, Nat.add_sub_cancel_left, hrest]

/-- **The pieces are a segmentation.** -/
theorem segmentation_pieces (bytes : List UInt8) : Segmentation bytes (pieces bytes) := by
  induction bytes using pieces.induct with
  | case1 =>
    rw [pieces]
    exact .nil
  | case2 b rest ih =>
    by_cases hlead : isLead b = true
    · have htaken : ∀ x ∈ rest.takeWhile isContinuation, isContinuation x = true :=
        List.all_eq_true.mp List.all_takeWhile
      have hmaximal := starts_dropWhile rest
      rw [drop_width_of_lead hlead] at ih
      have hseg := Segmentation.lead hlead htaken hmaximal ih
      rwa [← pieces_of_lead hlead htaken hmaximal, List.takeWhile_append_dropWhile] at hseg
    · have hrest : rest.drop (width b rest - 1) = rest := by
        rw [width, if_neg hlead]
        rfl
      rw [hrest] at ih
      rw [pieces_of_not_lead hlead]
      by_cases hcont : isContinuation b = true
      · exact .stray hcont ih
      · exact .ascii (lt_of_not_lead hlead hcont) ih

/-- **There is no other segmentation.** -/
theorem Segmentation.eq_pieces (hseg : Segmentation bytes segments) : segments = pieces bytes := by
  induction hseg with
  | nil => rw [pieces]
  | ascii small tail ih =>
    rw [ih, pieces_of_not_lead]
    rw [isLead_iff]
    omega
  | stray continuation tail ih =>
    rw [ih, pieces_of_not_lead]
    rw [isContinuation_iff] at continuation
    rw [isLead_iff]
    omega
  | lead lead taken maximal tail ih => rw [ih, pieces_of_lead lead taken maximal]

/-! ## Boundaries -/

/-- Where the scanner stands after `n` steps from the start. -/
def boundary (bytes : List UInt8) : Nat → Nat
  | 0 => 0
  | n + 1 => next bytes (boundary bytes n)

/-- Nothing comes after the end. -/
theorem next_of_le {pos : Nat} (hpos : bytes.length ≤ pos) : next bytes pos = bytes.length := by
  rw [next, List.drop_eq_nil_of_le hpos]

/-- The scanner sees only what lies ahead of it. -/
theorem next_add {p : Nat} (hp : p ≤ bytes.length) (q : Nat) :
    next bytes (p + q) = p + next (bytes.drop p) q := by
  rw [next, next, List.drop_drop, List.length_drop]
  cases bytes.drop (p + q) with
  | nil =>
    dsimp only
    omega
  | cons b rest =>
    dsimp only
    omega

/-- One step of the scanner skips one more code point. -/
theorem next_offset (bytes : List UInt8) (n : Nat) :
    next bytes (offset bytes n) = offset bytes (n + 1) := by
  induction n generalizing bytes with
  | zero =>
    cases bytes with
    | nil => rfl
    | cons b rest =>
      rw [offset, offset, offset, next]
      simp
  | succ n ih =>
    cases bytes with
    | nil => rfl
    | cons b rest =>
      have hlo := one_le_width b rest
      have hhi := width_le b rest
      have hdrop : (b :: rest).drop (width b rest) = rest.drop (width b rest - 1) := by
        obtain ⟨w, hw⟩ := Nat.exists_eq_add_of_le' hlo
        rw [hw, List.drop_succ_cons, Nat.add_sub_cancel]
      rw [offset, next_add (by rw [List.length_cons]; omega), hdrop, ih, ← offset]

/-- **The scanner stands where as many code points end as it took steps.** -/
theorem boundary_eq (bytes : List UInt8) (n : Nat) : boundary bytes n = offset bytes n := by
  induction n with
  | zero =>
    rw [offset]
    rfl
  | succ n ih => rw [boundary, ih, next_offset]

theorem offset_of_count_le {n : Nat} (hn : count bytes ≤ n) : offset bytes n = bytes.length := by
  rw [offset_eq, List.take_of_length_le (by rwa [length_pieces]), flatten_pieces]

/-- Skipping code points can be done in two goes. -/
theorem offset_add (bytes : List UInt8) (m n : Nat) :
    offset bytes (m + n) = offset bytes m + offset (bytes.drop (offset bytes m)) n := by
  rw [offset_eq (bytes.drop _), pieces_drop_offset, offset_eq, offset_eq, List.take_add,
    List.flatten_append, List.length_append]

/-- The scanner moves on as long as there are code points left. -/
theorem offset_lt_iff (bytes : List UInt8) (n : Nat) :
    offset bytes n < bytes.length ↔ n < count bytes := by
  constructor
  · intro hlt
    rcases Nat.lt_or_ge n (count bytes) with hn | hn
    · exact hn
    · rw [offset_of_count_le hn] at hlt
      exact absurd hlt (Nat.lt_irrefl _)
  · intro hn
    -- a code point is left, so there are bytes left
    have hmore := congrArg List.length (pieces_drop_offset bytes n)
    rw [length_pieces, List.length_drop, length_pieces] at hmore
    have hle := count_le (bytes.drop (offset bytes n))
    rw [List.length_drop] at hle
    omega

/-- **A piece lies between two boundaries that follow each other.** -/
theorem getElem?_pieces (bytes : List UInt8) (n : Nat) :
    (pieces bytes)[n]? =
      if n < count bytes then
        some ((bytes.drop (offset bytes n)).take (offset bytes (n + 1) - offset bytes n))
      else none := by
  split
  · next hn =>
    have hlen : n < (pieces bytes).length := by rwa [length_pieces]
    -- the bytes from the first boundary on start with the piece
    have hrest := flatten_pieces (bytes.drop (offset bytes n))
    rw [pieces_drop_offset, List.drop_eq_getElem_cons hlen, List.flatten_cons] at hrest
    have hsize : offset bytes (n + 1) - offset bytes n = (pieces bytes)[n].length := by
      rw [offset_eq, offset_eq, List.take_succ_eq_append_getElem hlen, List.flatten_append,
        List.length_append, Nat.add_sub_cancel_left]
      simp
    rw [List.getElem?_eq_getElem hlen, hsize, ← hrest, List.take_left]
  · next hn => rw [List.getElem?_eq_none (by rw [length_pieces]; omega)]

/-- The code points from one place to another lie between two boundaries. -/
theorem range_eq (bytes : List UInt8) (first last : Nat) :
    range bytes first last =
      if first = 0 ∨ last < first then (0, 0)
      else (offset bytes (first - 1), offset bytes last) := by
  unfold range
  split
  · rfl
  · have hlast : first - 1 + (last - first + 1) = last := by omega
    dsimp only
    rw [← offset_add, hlast]

/-- **The code points are the one segmentation of the bytes**, whether these are UTF-8 or not. The
pieces are what the three rules allow, and nothing else is. Together they are the bytes again.

From any place the scanner moves on, but not past the end, and at the end it stays. So it comes
to the end just when all code points are counted, and each piece lies between two boundaries that
follow each other. As many code points as are skipped end at the same boundary, and a range of
code points lies between two of them, also where it asks for more than there are. -/
theorem code_points_segment_bytes (bytes : List UInt8) :
    (∀ segments, Segmentation bytes segments ↔ segments = pieces bytes) ∧
    (pieces bytes).flatten = bytes ∧
    (∀ pos, (pos < bytes.length → pos < next bytes pos ∧ next bytes pos ≤ bytes.length) ∧
      (bytes.length ≤ pos → next bytes pos = bytes.length)) ∧
    count bytes = (pieces bytes).length ∧
    (∀ n, (n < count bytes ↔ boundary bytes n < bytes.length) ∧
      (count bytes ≤ n → boundary bytes n = bytes.length) ∧
      (pieces bytes)[n]? =
        if n < count bytes then
          some ((bytes.drop (boundary bytes n)).take (boundary bytes (n + 1) - boundary bytes n))
        else none) ∧
    (∀ n, offset bytes n = boundary bytes n ∧
      offset bytes n = ((pieces bytes).take n).flatten.length) ∧
    ∀ first last, range bytes first last =
      if first = 0 ∨ last < first then (0, 0)
      else (offset bytes (first - 1), offset bytes last) := by
  refine ⟨fun segments => ⟨Segmentation.eq_pieces, ?_⟩, flatten_pieces bytes, fun pos => ?_,
    (length_pieces bytes).symm, fun n => ?_, fun n => ?_, range_eq bytes⟩
  · rintro rfl
    exact segmentation_pieces bytes
  · exact ⟨next_bounds, next_of_le⟩
  · simp only [boundary_eq]
    exact ⟨(offset_lt_iff bytes n).symm, offset_of_count_le, getElem?_pieces bytes n⟩
  · exact ⟨(boundary_eq bytes n).symm, offset_eq bytes n⟩

-- A lead byte that lacks a byte, then a continuation byte too many.
example : pieces [0xE2, 0x82, 0x41, 0x80, 0x80] = [[0xE2, 0x82], [0x41], [0x80], [0x80]] := by
  cbv

end ObjectMemory.CodePoints
