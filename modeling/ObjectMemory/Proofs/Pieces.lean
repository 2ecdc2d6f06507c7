import ObjectMemory.CodePoints
import ObjectMemory.Text.Utf8

/-!
# Pieces

The code points of a row of bytes, taken one after another, are its `pieces`. What is counted,
skipped and cut out by code points is counted, skipped and cut out of the row of pieces.

Nothing is asked of the bytes. If they are those of a text, a piece is what one character is
encoded to (`Utf8.pieces_encodeAll`), so that code points are characters then.
-/

namespace ObjectMemory

namespace CodePoints

/-- The bytes of each code point. -/
def pieces : List UInt8 → List (List UInt8)
  | [] => []
  | b :: rest => (b :: rest.take (width b rest - 1)) :: pieces (rest.drop (width b rest - 1))
termination_by bytes => bytes.length
decreasing_by simp only [List.length_drop, List.length_cons]; omega

variable {bytes rest more : List UInt8} {b : UInt8}

theorem pieces_cons (b : UInt8) (rest : List UInt8) :
    pieces (b :: rest) =
      (b :: rest.take (width b rest - 1)) :: pieces (rest.drop (width b rest - 1)) := by
  rw [pieces]

/-- **The pieces are the row.** -/
theorem flatten_pieces (bytes : List UInt8) : (pieces bytes).flatten = bytes := by
  induction bytes using pieces.induct with
  | case1 => rw [pieces, List.flatten_nil]
  | case2 b rest ih => rw [pieces, List.flatten_cons, ih, List.cons_append, List.take_append_drop]

theorem length_pieces (bytes : List UInt8) : (pieces bytes).length = count bytes := by
  induction bytes using pieces.induct with
  | case1 =>
    rw [pieces, count]
    rfl
  | case2 b rest ih => rw [pieces, count, List.length_cons, ih, Nat.add_comm]

/-- A code point takes at least one byte. -/
theorem count_le (bytes : List UInt8) : count bytes ≤ bytes.length := by
  induction bytes using pieces.induct with
  | case1 =>
    rw [count]
    exact Nat.le_refl 0
  | case2 b rest ih =>
    rw [List.length_drop] at ih
    rw [count, List.length_cons]
    omega

/-- **The first code points end where the first pieces do.** -/
theorem offset_eq (bytes : List UInt8) (n : Nat) :
    offset bytes n = ((pieces bytes).take n).flatten.length := by
  induction n generalizing bytes with
  | zero =>
    rw [offset, List.take_zero]
    rfl
  | succ n ih =>
    cases bytes with
    | nil =>
      rw [offset, pieces]
      rfl
    | cons b rest =>
      have h1 := one_le_width b rest
      have h2 := width_le b rest
      rw [offset, pieces, List.take_succ_cons, List.flatten_cons, List.length_append,
        List.length_cons, List.length_take, ih]
      omega

/-- **What is left after the first code points has the pieces that are left.** -/
theorem pieces_drop_offset (bytes : List UInt8) (n : Nat) :
    pieces (bytes.drop (offset bytes n)) = (pieces bytes).drop n := by
  induction n generalizing bytes with
  | zero => rw [offset, List.drop_zero, List.drop_zero]
  | succ n ih =>
    cases bytes with
    | nil =>
      rw [List.drop_nil, pieces]
      rfl
    | cons b rest =>
      have hwidth : width b rest = width b rest - 1 + 1 := by
        have := one_le_width b rest
        omega
      have hdrop : (b :: rest).drop (width b rest) = rest.drop (width b rest - 1) := by
        rw [hwidth, List.drop_succ_cons, Nat.add_sub_cancel]
      rw [offset, ← List.drop_drop, hdrop, ih, pieces_cons, List.drop_succ_cons]

/-- **A slice is its pieces.** -/
theorem slice_eq (bytes : List UInt8) {first last : Nat} (hfirst : 1 ≤ first)
    (hlast : first ≤ last) :
    slice bytes first last =
      (((pieces bytes).drop (first - 1)).take (last + 1 - first)).flatten := by
  have hsize : last - first + 1 = last + 1 - first := by omega
  have hmore := flatten_pieces (bytes.drop (offset bytes (first - 1)))
  rw [pieces_drop_offset] at hmore
  rw [slice, range, if_neg (by omega)]
  dsimp only
  rw [Nat.add_sub_cancel_left, hsize, offset_eq, pieces_drop_offset]
  generalize (pieces bytes).drop (first - 1) = ps at hmore
  have hsplit : ps.flatten = (ps.take (last + 1 - first)).flatten ++
      (ps.drop (last + 1 - first)).flatten := by
    rw [← List.flatten_append, List.take_append_drop]
  rw [← hmore, hsplit, List.take_left]

/-! ## Rows that are one piece -/

/-- The row does not start in the middle of a code point. -/
def Starts : List UInt8 → Prop
  | [] => True
  | b :: _ => isContinuation b = false

/-- The bytes form one code point: none after the first starts another one, and if there are any,
the first announces them. -/
def OnePiece : List UInt8 → Prop
  | [] => False
  | b :: rest => isContinuation b = false ∧ (∀ x ∈ rest, isContinuation x = true) ∧
      (rest ≠ [] → isLead b = true)

theorem takeWhile_continuation (hrest : ∀ x ∈ rest, isContinuation x = true) (hmore : Starts more) :
    (rest ++ more).takeWhile isContinuation = rest := by
  rw [List.takeWhile_append_of_pos hrest]
  cases more with
  | nil => rw [List.takeWhile_nil, List.append_nil]
  | cons b more =>
    have hb : isContinuation b = false := hmore
    rw [List.takeWhile_cons_of_neg (by rw [hb]; exact Bool.false_ne_true), List.append_nil]

/-- **A code point ends where the next one starts.** -/
theorem pieces_append (hone : OnePiece bytes) (hmore : Starts more) :
    pieces (bytes ++ more) = bytes :: pieces more := by
  cases bytes with
  | nil => exact hone.elim
  | cons b rest =>
    obtain ⟨_, hrest, hlead⟩ := hone
    have hwidth : width b (rest ++ more) - 1 = rest.length := by
      unfold width
      rw [takeWhile_continuation hrest hmore]
      by_cases hb : isLead b = true
      · rw [if_pos hb]
        omega
      · have hnone : rest = [] := Decidable.byContradiction fun hne => hb (hlead hne)
        rw [if_neg hb, hnone]
        rfl
    rw [List.cons_append, pieces_cons, hwidth, List.take_left, List.drop_left]

theorem OnePiece.starts (hone : OnePiece bytes) (more : List UInt8) : Starts (bytes ++ more) := by
  cases bytes with
  | nil => exact hone.elim
  | cons b rest => exact hone.1

theorem isContinuation_iff : isContinuation b = true ↔ 128 ≤ b.toNat ∧ b.toNat < 192 := by
  rw [isContinuation, Bool.and_eq_true, decide_eq_true_eq, decide_eq_true_eq]

theorem isLead_iff : isLead b = true ↔ 192 ≤ b.toNat := by
  rw [isLead, decide_eq_true_eq]

/-- The bytes after the first one of a character each carry six bits. -/
theorem isContinuation_tail (n : Nat) : isContinuation (UInt8.ofNat (n % 64 + 128)) = true := by
  rw [isContinuation_iff, UInt8.toNat_ofNat_of_lt' (show n % 64 + 128 < 256 by omega)]
  omega

/-- A first byte that announces others is no continuation. -/
theorem lead_bounds {n : Nat} (hlo : 192 ≤ n) (hhi : n < 256) :
    isContinuation (UInt8.ofNat n) = false ∧ isLead (UInt8.ofNat n) = true := by
  rw [isLead_iff, ← Bool.not_eq_true, isContinuation_iff, UInt8.toNat_ofNat_of_lt' hhi]
  omega

/-- **A character is encoded to one code point.** -/
theorem onePiece_encodeChar (c : Char) : OnePiece (String.utf8EncodeChar c) := by
  unfold String.utf8EncodeChar
  dsimp only
  generalize c.val.toNat = v
  split
  · refine ⟨?_, by simp, fun hne => absurd rfl hne⟩
    rw [← Bool.not_eq_true, isContinuation_iff,
      UInt8.toNat_ofNat_of_lt' (show v < 256 by omega)]
    omega
  · split
    · obtain ⟨hfirst, hlead⟩ := lead_bounds (n := v / 64 % 32 + 192) (by omega) (by omega)
      refine ⟨hfirst, ?_, fun _ => hlead⟩
      simp only [List.mem_cons, List.not_mem_nil, or_false, forall_eq, isContinuation_tail]
    · split
      · obtain ⟨hfirst, hlead⟩ := lead_bounds (n := v / 4096 % 16 + 224) (by omega) (by omega)
        refine ⟨hfirst, ?_, fun _ => hlead⟩
        simp only [List.mem_cons, List.not_mem_nil, or_false, forall_eq_or_imp, forall_eq,
          isContinuation_tail, and_self]
      · obtain ⟨hfirst, hlead⟩ := lead_bounds (n := v / 262144 % 8 + 240) (by omega) (by omega)
        refine ⟨hfirst, ?_, fun _ => hlead⟩
        simp only [List.mem_cons, List.not_mem_nil, or_false, forall_eq_or_imp, forall_eq,
          isContinuation_tail, and_self]

end CodePoints

/-! ## Pieces of UTF-8 -/

namespace Utf8

open CodePoints

/-- The bytes of a row of characters. -/
abbrev encodeAll (cs : List Char) : List UInt8 :=
  cs.flatMap String.utf8EncodeChar

theorem starts_encodeAll (cs : List Char) : Starts (encodeAll cs) := by
  cases cs with
  | nil => trivial
  | cons c cs =>
    rw [encodeAll, List.flatMap_cons]
    exact (onePiece_encodeChar c).starts _

/-- **The pieces of UTF-8 are its characters.** -/
theorem pieces_encodeAll (cs : List Char) :
    pieces (encodeAll cs) = cs.map String.utf8EncodeChar := by
  induction cs with
  | nil =>
    rw [encodeAll, List.flatMap_nil, pieces]
    rfl
  | cons c cs ih =>
    rw [encodeAll, List.flatMap_cons, pieces_append (onePiece_encodeChar c) (starts_encodeAll cs),
      ih, List.map_cons]

theorem count_encodeAll (cs : List Char) : count (encodeAll cs) = cs.length := by
  rw [← length_pieces, pieces_encodeAll, List.length_map]

/-- **A slice of UTF-8 is a slice of its characters.** -/
theorem slice_encodeAll (cs : List Char) {first last : Nat} (hfirst : 1 ≤ first)
    (hlast : first ≤ last) :
    slice (encodeAll cs) first last =
      encodeAll ((cs.drop (first - 1)).take (last + 1 - first)) := by
  rw [slice_eq _ hfirst hlast, pieces_encodeAll, ← List.map_drop, ← List.map_take, encodeAll,
    List.flatMap_def]

/-- Different characters have different bytes. -/
theorem encodeAll_injective {cs ds : List Char} (heq : encodeAll cs = encodeAll ds) : cs = ds := by
  have hscan := congrArg scan heq
  rw [encodeAll, encodeAll, scan_flatMap, scan_flatMap] at hscan
  exact (List.map_inj_right fun _ _ hsome => Option.some.inj hsome).mp hscan

/-! ## Zero bytes in UTF-8 -/

/-- Only the zero character has a zero byte. -/
theorem ne_zero_of_mem_encodeChar {c : Char} (hc : c ≠ '\x00') {x : UInt8}
    (hx : x ∈ String.utf8EncodeChar c) : x ≠ 0 := by
  have hpos : c.val.toNat ≠ 0 := by
    intro hzero
    refine hc (Char.ext ?_)
    exact UInt32.toNat_inj.mp hzero
  have hne {n : Nat} (hlo : 0 < n) (hhi : n < 256) : UInt8.ofNat n ≠ 0 := by
    intro heq
    have := congrArg UInt8.toNat heq
    rw [UInt8.toNat_ofNat_of_lt' hhi] at this
    exact absurd this (Nat.ne_of_gt hlo)
  unfold String.utf8EncodeChar at hx
  dsimp only at hx
  generalize c.val.toNat = v at hpos hx
  split at hx
  · rw [List.mem_singleton.mp hx]
    exact hne (by omega) (by omega)
  · split at hx
    · simp only [List.mem_cons, List.not_mem_nil, or_false] at hx
      rcases hx with rfl | rfl <;> exact hne (by omega) (by omega)
    · split at hx
      · simp only [List.mem_cons, List.not_mem_nil, or_false] at hx
        rcases hx with rfl | rfl | rfl <;> exact hne (by omega) (by omega)
      · simp only [List.mem_cons, List.not_mem_nil, or_false] at hx
        rcases hx with rfl | rfl | rfl | rfl <;> exact hne (by omega) (by omega)

/-- **What is cut at the first zero byte is cut at the first zero character.** -/
theorem takeWhile_encodeAll (cs : List Char) :
    (encodeAll cs).takeWhile (· ≠ 0) = encodeAll (cs.takeWhile (· ≠ '\x00')) := by
  induction cs with
  | nil => rfl
  | cons c cs ih =>
    rw [encodeAll, List.flatMap_cons]
    by_cases hc : c = '\x00'
    · subst hc
      rw [List.takeWhile_cons_of_neg (by decide)]
      exact List.takeWhile_cons_of_neg (by decide)
    · have hbytes : ∀ x ∈ String.utf8EncodeChar c, decide (x ≠ 0) = true := by
        intro x hx
        exact decide_eq_true (ne_zero_of_mem_encodeChar hc hx)
      have hkept : (c :: cs).takeWhile (· ≠ '\x00') = c :: cs.takeWhile (· ≠ '\x00') :=
        List.takeWhile_cons_of_pos (decide_eq_true hc)
      rw [List.takeWhile_append_of_pos hbytes, ih, hkept, encodeAll, encodeAll, List.flatMap_cons]

end Utf8

end ObjectMemory
