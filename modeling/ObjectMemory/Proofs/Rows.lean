import Mathlib.Data.List.Forall2
import ObjectMemory.Store

/-!
# Rows of words and bytes

The payload of an object is a row of words, and a row of words is a row of bytes four times as
long. What the operations of the arena do to a payload is said here for rows alone.

* `splice` — a range of entries is replaced
* `Word.putByte`, `Word.putBytes` — bytes are replaced in words
* `Word.packed` — bytes become words
-/

namespace ObjectMemory

/-! ## Replacing a range -/

section Splice

variable {α : Type} {l part : List α} {i k : Nat}

/-- The row with `part` in place of as many entries from `i` on. -/
def splice (l : List α) (i : Nat) (part : List α) : List α :=
  l.take i ++ part ++ l.drop (i + part.length)

theorem splice_nil (l : List α) (i : Nat) : splice l i [] = l := by
  simp [splice]

/-- The whole row is replaced. -/
theorem splice_whole (h : part.length = l.length) : splice l 0 part = part := by
  simp [splice, h]

theorem length_splice (h : i + part.length ≤ l.length) : (splice l i part).length = l.length := by
  simp only [splice, List.length_append, List.length_take, List.length_drop]
  omega

/-- **A splice replaces a range of entries and keeps the others.** -/
theorem getElem?_splice (h : i + part.length ≤ l.length) :
    (splice l i part)[k]? = if i ≤ k ∧ k < i + part.length then part[k - i]? else l[k]? := by
  have htake : (l.take i).length = i := by
    rw [List.length_take]
    omega
  rw [splice, List.append_assoc]
  by_cases hlo : k < i
  · rw [List.getElem?_append_left (by omega), List.getElem?_take_of_lt hlo, if_neg (by omega)]
  · rw [List.getElem?_append_right (by omega), htake]
    by_cases hhi : k < i + part.length
    · rw [List.getElem?_append_left (by omega), if_pos (by omega)]
    · rw [List.getElem?_append_right (by omega), List.getElem?_drop, if_neg (by omega)]
      congr 1
      omega

/-- A row that is replaced from `i` on, first one entry and then those after it. -/
theorem splice_cons {x : α} (h : i + 1 + part.length ≤ l.length) :
    splice (l.set i x) (i + 1) part = splice l i (x :: part) := by
  apply List.ext_getElem?
  intro k
  rw [getElem?_splice (by rw [List.length_set]; exact h),
    getElem?_splice (by rw [List.length_cons]; omega), List.getElem?_set, List.length_cons]
  by_cases heq : i = k
  · subst heq
    rw [if_neg (by omega), if_pos rfl, if_pos (by omega), if_pos (by omega), Nat.sub_self]
    rfl
  · rw [if_neg heq]
    by_cases hin : i + 1 ≤ k ∧ k < i + 1 + part.length
    · obtain ⟨m, hm⟩ : ∃ m, k - i = m + 1 := ⟨k - (i + 1), by omega⟩
      have hm' : k - (i + 1) = m := by omega
      rw [if_pos hin, if_pos (by omega), hm, hm', List.getElem?_cons_succ]
    · rw [if_neg hin, if_neg (by omega)]

/-- A row that is replaced by two parts, one after the other. -/
theorem splice_append {rest : List α} (h : i + part.length + rest.length ≤ l.length) :
    splice (splice l i part) (i + part.length) rest = splice l i (part ++ rest) := by
  apply List.ext_getElem?
  intro k
  have hpart : i + part.length ≤ l.length := by omega
  rw [getElem?_splice (by rw [length_splice hpart]; exact h), getElem?_splice hpart,
    getElem?_splice (by rw [List.length_append]; omega), List.length_append, List.getElem?_append]
  by_cases hin : i + part.length ≤ k ∧ k < i + part.length + rest.length
  · have hsub : k - (i + part.length) = k - i - part.length := by omega
    rw [if_pos hin, if_pos (by omega), if_neg (by omega), hsub]
  · rw [if_neg hin]
    by_cases hfirst : i ≤ k ∧ k < i + part.length
    · rw [if_pos hfirst, if_pos (by omega), if_pos (by omega)]
    · rw [if_neg hfirst, if_neg (by omega)]

/-- A part that ends before the last entries of a row leaves them. -/
theorem splice_append_left {pad : List α} (h : i + part.length ≤ l.length) :
    splice (l ++ pad) i part = splice l i part ++ pad := by
  rw [splice, splice, List.take_append_of_le_length (by omega),
    List.drop_append_of_le_length h, List.append_assoc, List.append_assoc, List.append_assoc]

end Splice

/-! ## The entries before one -/

section Before

variable {α : Type} [DecidableEq α] {l : List α} {x : α}

theorem not_mem_takeWhile_ne (l : List α) (x : α) : x ∉ l.takeWhile (· ≠ x) := by
  intro hmem
  have hall := List.all_eq_true.mp List.all_takeWhile x hmem
  simp at hall

/-- A row without the entry is the part before it. -/
theorem takeWhile_ne (hx : x ∉ l) : l.takeWhile (· ≠ x) = l := by
  have hall : ∀ y ∈ l, decide (y ≠ x) = true := by
    intro y hy
    refine decide_eq_true ?_
    rintro rfl
    exact hx hy
  have happend := @List.takeWhile_append_of_pos _ _ l [] hall
  rwa [List.append_nil, List.takeWhile_nil, List.append_nil] at happend

end Before

/-! ## Words as bytes -/

namespace Word

/-- The four bytes of a word, the least significant one first. -/
def bytes (w : Word) : List UInt8 :=
  [byte w 0, byte w 1, byte w 2, byte w 3]

theorem length_flatMap_bytes (ws : List Word) : (ws.flatMap bytes).length = 4 * ws.length := by
  induction ws with
  | nil => rfl
  | cons w ws ih =>
    simp only [List.flatMap_cons, List.length_append, ih, bytes, List.length_cons, List.length_nil]
    omega

/-- Byte `k` of a row of words is byte `k % 4` of word `k / 4`. -/
theorem getElem?_flatMap_bytes (ws : List Word) (k : Nat) :
    (ws.flatMap bytes)[k]? = ws[k / 4]?.map (byte · (k % 4)) := by
  induction ws generalizing k with
  | nil => simp
  | cons w ws ih =>
    rw [List.flatMap_cons]
    by_cases hk : k < 4
    · rw [List.getElem?_append_left (by simpa [bytes] using hk), Nat.div_eq_of_lt hk,
        Nat.mod_eq_of_lt hk]
      match k, hk with
      | 0, _ | 1, _ | 2, _ | 3, _ => rfl
    · obtain ⟨m, rfl⟩ : ∃ m, k = m + 4 := ⟨k - 4, by omega⟩
      rw [List.getElem?_append_right (by simp [bytes])]
      simp [bytes, ih]

/-- Rows of words with the same bytes are the same. -/
theorem eq_of_flatMap_bytes_eq {vs ws : List Word} (h : vs.flatMap bytes = ws.flatMap bytes) :
    vs = ws := by
  have hlen : vs.length = ws.length := by
    have := congrArg List.length h
    rw [length_flatMap_bytes, length_flatMap_bytes] at this
    omega
  refine List.ext_getElem hlen fun k hv hw => eq_of_byte_eq fun i hi => ?_
  have hbyte := congrArg (·[4 * k + i]?) h
  have hdiv : (4 * k + i) / 4 = k := by omega
  have hmod : (4 * k + i) % 4 = i := by omega
  simpa only [getElem?_flatMap_bytes, hdiv, hmod, List.getElem?_eq_getElem hv,
    List.getElem?_eq_getElem hw, Option.map_some, Option.some.injEq] using hbyte

/-- The row with byte `i` replaced. -/
def putByte (ws : List Word) (i : Nat) (b : UInt8) : List Word :=
  ws.set (i / 4) (setByte (ws.getD (i / 4) 0) (i % 4) b)

/-- The row with the bytes from `offset` on replaced. -/
def putBytes (ws : List Word) (offset : Nat) : List UInt8 → List Word
  | [] => ws
  | b :: rest => putBytes (putByte ws offset b) (offset + 1) rest

theorem length_putByte (ws : List Word) (i : Nat) (b : UInt8) :
    (putByte ws i b).length = ws.length := by
  rw [putByte, List.length_set]

/-- **Replacing a byte replaces it in the row of bytes**, and no other. -/
theorem flatMap_bytes_putByte (ws : List Word) (i : Nat) (b : UInt8) :
    (putByte ws i b).flatMap bytes = (ws.flatMap bytes).set i b := by
  apply List.ext_getElem?
  intro k
  rw [getElem?_flatMap_bytes, List.getElem?_set, getElem?_flatMap_bytes, putByte,
    List.getElem?_set, length_flatMap_bytes]
  by_cases hword : i / 4 = k / 4
  · rw [if_pos hword]
    by_cases hlt : i / 4 < ws.length
    · rw [if_pos hlt, ← hword, List.getD_eq_getElem?_getD, List.getElem?_eq_getElem hlt]
      -- the byte lies in the word that is replaced, so its place within the word decides
      have hk : k % 4 < 4 := Nat.mod_lt k (by decide)
      by_cases hik : i = k
      · subst hik
        rw [if_pos rfl, if_pos (by omega)]
        exact congrArg some (byte_setByte_same _ b hk)
      · rw [if_neg hik]
        exact congrArg some (byte_setByte_other _ b hk (by omega))
    · have hnone : ws[k / 4]? = none := List.getElem?_eq_none (by omega)
      have hout : ¬ i < 4 * ws.length := by omega
      rw [if_neg hlt, hnone, if_neg hout, Option.map_none, ite_self]
  · rw [if_neg hword, if_neg (by omega)]

theorem flatMap_bytes_putBytes {ws : List Word} {offset : Nat} {bs : List UInt8}
    (h : offset + bs.length ≤ 4 * ws.length) :
    (putBytes ws offset bs).flatMap bytes = splice (ws.flatMap bytes) offset bs := by
  induction bs generalizing ws offset with
  | nil => rw [putBytes, splice_nil]
  | cons b rest ih =>
    rw [List.length_cons] at h
    rw [putBytes, ih (by rw [length_putByte]; omega), flatMap_bytes_putByte]
    exact splice_cons (by rw [length_flatMap_bytes]; omega)

/-- The bytes in `n` words, and zero bytes after them. -/
def packed (n : Nat) (bs : List UInt8) : List Word :=
  (List.range n).map fun k => ofBytes fun j => bs.getD (4 * k + j) 0

theorem length_packed (n : Nat) (bs : List UInt8) : (packed n bs).length = n := by
  simp [packed]

theorem getElem?_flatMap_bytes_packed (n : Nat) (bs : List UInt8) (k : Nat) :
    ((packed n bs).flatMap bytes)[k]? = if k < 4 * n then some (bs.getD k 0) else none := by
  rw [getElem?_flatMap_bytes, packed, List.getElem?_map]
  by_cases hk : k < 4 * n
  · have hsum : 4 * (k / 4) + k % 4 = k := Nat.div_add_mod k 4
    have hmod : k % 4 < 4 := Nat.mod_lt k (by decide)
    rw [List.getElem?_range (by omega), if_pos hk]
    show some (byte (ofBytes _) (k % 4)) = _
    rw [byte_ofBytes _ hmod, hsum]
  · rw [List.getElem?_eq_none (by rw [List.length_range]; omega), if_neg hk]
    rfl

theorem flatMap_bytes_blank (n : Nat) :
    (List.replicate n (0 : Word)).flatMap bytes = List.replicate (4 * n) 0 := by
  induction n with
  | zero => rfl
  | succ n ih =>
    rw [List.replicate_succ, List.flatMap_cons, ih]
    rfl

/-- **Bytes that are written into blank words are packed in them.** -/
theorem putBytes_blank {n : Nat} {bs : List UInt8} (h : bs.length ≤ 4 * n) :
    putBytes (List.replicate n 0) 0 bs = packed n bs := by
  apply eq_of_flatMap_bytes_eq
  have hle : 0 + bs.length ≤ 4 * (List.replicate n (0 : Word)).length := by
    rw [List.length_replicate]
    omega
  apply List.ext_getElem?
  intro k
  rw [flatMap_bytes_putBytes hle, getElem?_splice (by rw [length_flatMap_bytes]; exact hle),
    getElem?_flatMap_bytes_packed, flatMap_bytes_blank, List.getElem?_replicate, Nat.sub_zero]
  by_cases hk : k < bs.length
  · rw [if_pos (by omega), if_pos (by omega), List.getD_eq_getElem?_getD,
      List.getElem?_eq_getElem hk]
    rfl
  · -- past the end both rows hold zero bytes
    rw [if_neg (by omega), List.getD_eq_getElem?_getD, List.getElem?_eq_none (by omega)]
    rfl

end Word

/-! ## Reading one after the other -/

/-- A row that is read at one place after the other is a part of it. -/
theorem map_getD_range {α : Type} {l : List α} {start n : Nat} (d : α) (h : start + n ≤ l.length) :
    (List.range n).map (fun i => l.getD (start + i) d) = (l.drop start).take n := by
  apply List.ext_getElem
  · simp only [List.length_map, List.length_range, List.length_take, List.length_drop]
    omega
  · intro k hk _
    have hlt : start + k < l.length := by
      rw [List.length_map, List.length_range] at hk
      omega
    simp [List.getElem?_eq_getElem hlt]

namespace Store

/-- The `n` words from `i` on. -/
def words (s : Store) (i n : Nat) : List Word :=
  (List.range n).map fun k => s.get (i + k)

theorem length_words (s : Store) (i n : Nat) : (s.words i n).length = n := by
  simp [words]

theorem getElem?_words (s : Store) (i n k : Nat) :
    (s.words i n)[k]? = if k < n then some (s.get (i + k)) else none := by
  unfold words
  by_cases hk : k < n
  · simp [hk]
  · simp [hk]

theorem words_congr {s t : Store} {i n : Nat} (h : ∀ k < n, t.get (i + k) = s.get (i + k)) :
    t.words i n = s.words i n := by
  apply List.ext_getElem?
  intro k
  rw [getElem?_words, getElem?_words]
  split
  · next hk => rw [h k hk]
  · rfl

end Store

/-! ## Rows side by side -/

/-- Each entry of one row has a partner in the other. -/
theorem exists_of_mem_forall₂ {α β : Type} {R : α → β → Prop} {xs : List α} {ys : List β} {x : α}
    (hall : List.Forall₂ R xs ys) (hx : x ∈ xs) : ∃ y ∈ ys, R x y := by
  induction hall with
  | nil => cases hx
  | cons hfirst _ ih =>
    rcases List.mem_cons.mp hx with rfl | hx
    · exact ⟨_, List.mem_cons_self, hfirst⟩
    · obtain ⟨y, hy, hr⟩ := ih hx
      exact ⟨y, List.mem_cons_of_mem _ hy, hr⟩

end ObjectMemory
