import ObjectMemory.Proofs.Lists

/-!
# Lists as sequences

To a program a list is a row of items and the number of items there is room for, a `Sequence`. The
words of a list say both: the count in the first one, the items in as many of those after it.

Every row of words that an operation leaves is read as a sequence here, next to the sequence that
the row was before. The rows are those of a list that fits into an arena, so that its count can be
stated without loss.
-/

namespace ObjectMemory

/-- The items of a list and how many it has room for. -/
structure Sequence where
  items : List Ref
  capacity : Nat
  deriving DecidableEq, Repr

/-- What is left of a reference once it was stored: integers wrap. -/
def Ref.kept : Ref → Ref
  | .int n => .smallInt n
  | r => r

theorem Ref.ofWord_toWord_of_small {r : Ref} (hr : ∀ h, r = .obj h → h.index < 1073741824) :
    Ref.ofWord r.toWord = r.kept := by
  cases r with
  | int n => exact ofWord_toWord_int n
  | obj h =>
    have hcanonical : (Ref.obj h).Canonical := hr h rfl
    exact ofWord_toWord hcanonical
  | _ => rfl

/-- The items from place `first` to place `last`, as far as there are any. -/
def slice (items : List Ref) (first : Int) (last : Option Int) : List Ref :=
  let upTo := match last with
    | some e => items.take e.toNat
    | none => items
  upTo.drop (first - 1).toNat

namespace Content

variable {c : Content} {cls : ObjClass} {words part : List Word} {i n : Nat}

/-- A list as a program sees it. -/
def sequence (c : Content) : Sequence :=
  ⟨c.items, c.capacity⟩

theorem length_items (c : Content) : c.items.length = c.count := by
  rw [items, List.length_map, length_itemWords]

/-! ## Rows with another count -/

theorem count_restated (hn : n < words.length) (hsize : words.length ≤ maxArenaWords) :
    (Content.mk cls (restated words n)).count = n := by
  have hlen : (restated words n).length = words.length := List.length_set
  have hfirst : (Content.mk cls (restated words n)).field 0 = Ref.ofCount n := by
    rw [field, List.getD_eq_getElem?_getD, restated, List.getElem?_set_self (by omega)]
    exact Ref.ofWord_toWord (Ref.canonical_ofCount n)
  unfold maxArenaWords at hsize
  rw [count, hfirst, capacity, hlen, Ref.ofCount, ListObject.stated, Ref.maxSmallInt]
  omega

/-- **The count says how many of the words after it are items.** -/
theorem sequence_restated (hn : n < words.length) (hsize : words.length ≤ maxArenaWords) :
    (Content.mk cls (restated words n)).sequence =
      ⟨((words.drop 1).take n).map Ref.ofWord, words.length - 1⟩ := by
  have hdrop : (restated words n).drop 1 = words.drop 1 := by
    rw [restated, List.drop_set_of_lt (Nat.zero_lt_one)]
  have hlen : (restated words n).length = words.length := List.length_set
  rw [sequence, items, itemWords, count_restated hn hsize, capacity, hdrop, hlen]

theorem sequence_appended (hn : n + 1 < words.length) (hsize : words.length ≤ maxArenaWords)
    (item : Ref) :
    (Content.mk cls (appended words n item)).sequence =
      ⟨((words.drop 1).take n).map Ref.ofWord ++ [Ref.ofWord item.toWord], words.length - 1⟩ := by
  have hlen : (words.set (n + 1) item.toWord).length = words.length := List.length_set
  have hitems : ((words.set (n + 1) item.toWord).drop 1).take (n + 1) =
      (words.drop 1).take n ++ [item.toWord] := by
    have hroom : n < (words.drop 1).length := by
      rw [List.length_drop]
      omega
    rw [List.drop_set, if_neg (by omega), Nat.add_sub_cancel, List.take_add_one,
      List.getElem?_set_self hroom, List.take_set_of_le (Nat.le_refl n)]
    rfl
  rw [appended, sequence_restated (hlen ▸ hn) (hlen ▸ hsize), hitems, hlen, List.map_append]
  rfl

/-- **Deleting an item erases it from the row of items.** -/
theorem sequence_without (hi : 1 ≤ i ∧ i ≤ n) (hn : n < words.length)
    (hsize : words.length ≤ maxArenaWords) :
    (Content.mk cls (without words i n)).sequence =
      ⟨(((words.drop 1).take n).map Ref.ofWord).eraseIdx (i - 1), words.length - 1⟩ := by
  have hpart : i + ((words.drop (i + 1)).take (n - i)).length ≤ words.length := by
    rw [List.length_take, List.length_drop]
    omega
  have hlen : ((splice words i ((words.drop (i + 1)).take (n - i))).set n blank).length =
      words.length := by
    rw [List.length_set, length_splice hpart]
  have hrest : (((splice words i ((words.drop (i + 1)).take (n - i))).set n blank).drop 1).take
      (n - 1) = ((words.drop 1).take n).eraseIdx (i - 1) := by
    apply List.ext_getElem?
    intro k
    rw [List.getElem?_eraseIdx, List.getElem?_take, List.getElem?_take, List.getElem?_take,
      List.getElem?_drop, List.getElem?_drop, List.getElem?_drop]
    by_cases hk : k < n - 1
    · rw [if_pos hk, List.getElem?_set_ne (by omega), getElem?_splice hpart]
      have hplen : ((words.drop (i + 1)).take (n - i)).length = n - i := by
        rw [List.length_take, List.length_drop]
        omega
      rw [hplen]
      by_cases hmoved : i ≤ 1 + k
      · -- the items from place `i` on come from one word further
        have hword : i + 1 + (1 + k - i) = 1 + (k + 1) := by omega
        rw [if_pos ⟨hmoved, by omega⟩, if_neg (by omega), if_pos (by omega),
          List.getElem?_take_of_lt (by omega), List.getElem?_drop, hword]
      · rw [if_neg fun h => hmoved h.1, if_pos (by omega), if_pos (by omega)]
    · rw [if_neg hk]
      split
      · rw [if_neg (by omega)]
      · rw [if_neg (by omega)]
  rw [without, sequence_restated (by omega) (hlen ▸ hsize), hrest, hlen,
    List.eraseIdx_eq_take_drop_succ, List.eraseIdx_eq_take_drop_succ, List.map_append,
    List.map_take, List.map_drop]

/-! ## New rows -/

theorem sequence_ofItems (hsize : words.length + 1 ≤ maxArenaWords) :
    (ofItems words).sequence = ⟨words.map Ref.ofWord, words.length⟩ := by
  have hrow : ofItems words = ⟨.list, restated (0 :: words) words.length⟩ := rfl
  have hn : words.length < (0 :: words).length := Nat.lt_succ_self _
  rw [hrow, sequence_restated hn hsize]
  simp

/-- A blank row is a list of no items. -/
theorem sequence_blank (n : Nat) :
    (Content.mk cls (List.replicate n blank)).sequence = ⟨[], n - 1⟩ := by
  have hcount : (Content.mk cls (List.replicate n blank)).count = 0 := by
    have hfirst : (Content.mk cls (List.replicate n blank)).field 0 = .int 0 ∨
        (Content.mk cls (List.replicate n blank)).field 0 = .nil := by
      cases n with
      | zero => exact Or.inr rfl
      | succ n =>
        have hzero : (Ref.int 0).Canonical := ⟨by decide, by decide⟩
        exact Or.inl (Ref.ofWord_toWord hzero)
    rw [count]
    rcases hfirst with h | h
    · rw [h]
      exact Nat.zero_min _
    · rw [h]
      exact Nat.zero_min _
  rw [sequence, items, itemWords, hcount, capacity, List.length_replicate]
  rfl

/-! ## Rows with other items -/

/-- A row that starts with the same word and is as long has as many items. -/
theorem count_of_first (hlen : words.length = c.words.length)
    (hfirst : words[0]? = c.words[0]?) : (Content.mk cls words).count = c.count := by
  rw [count, count, field, field, capacity, capacity, List.getD_eq_getElem?_getD, hfirst, hlen,
    ← List.getD_eq_getElem?_getD]

theorem sequence_of_first (hlen : words.length = c.words.length)
    (hfirst : words[0]? = c.words[0]?) :
    (Content.mk cls words).sequence =
      ⟨((words.drop 1).take c.count).map Ref.ofWord, c.capacity⟩ := by
  rw [sequence, items, itemWords, count_of_first hlen hfirst, capacity, hlen]
  rfl

theorem sequence_set (hi : 1 ≤ i ∧ i ≤ c.count) (w : Word) :
    (Content.mk cls (c.words.set i w)).sequence =
      ⟨c.items.set (i - 1) (Ref.ofWord w), c.capacity⟩ := by
  have hitems : ((c.words.set i w).drop 1).take c.count = c.itemWords.set (i - 1) w := by
    rw [List.drop_set, if_neg (by omega), List.take_set]
    rfl
  rw [sequence_of_first List.length_set (List.getElem?_set_ne (by omega)), hitems, items,
    List.map_set]

/-- **Overwriting at least all items leaves as many of the new one.** -/
theorem sequence_overwritten {m : Nat} (hcount : c.count ≤ m) (hm : m ≤ c.capacity) (w : Word) :
    (Content.mk cls (splice c.words 1 (List.replicate m w))).sequence =
      ⟨List.replicate c.items.length (Ref.ofWord w), c.capacity⟩ := by
  have hlenI := c.length_items
  -- a list without a word has no items to overwrite
  by_cases hpos : 0 < c.words.length
  · unfold capacity at hm
    have hpart : 1 + (List.replicate m w).length ≤ c.words.length := by
      rw [List.length_replicate]
      omega
    have hitems : ((splice c.words 1 (List.replicate m w)).drop 1).take c.count =
        List.replicate c.count w := by
      have hfirst : (c.words.take 1).length = 1 := by
        rw [List.length_take]
        omega
      rw [splice, List.append_assoc, List.drop_left' hfirst,
        List.take_append_of_le_length (by rw [List.length_replicate]; exact hcount),
        List.take_replicate, Nat.min_eq_left hcount]
    rw [sequence_of_first (length_splice hpart) ?_, hitems, List.map_replicate, hlenI]
    rw [getElem?_splice hpart, if_neg (by omega)]
  · have hnone : c.words = [] := List.eq_nil_of_length_eq_zero (by omega)
    have hzero : m = 0 := by
      unfold capacity at hm
      omega
    subst hzero
    rw [List.replicate_zero, splice_nil, sequence_of_first rfl rfl, hlenI,
      Nat.le_zero.mp hcount, List.take_zero]
    rfl

/-! ## Reading rows -/

theorem getElem?_items (hi : 1 ≤ i ∧ i ≤ c.count) : c.items[i - 1]? = some (c.field i) := by
  have hplace : 1 + (i - 1) = i := by omega
  rw [items_eq_map, List.getElem?_map, List.getElem?_range (by omega), Option.map_some, hplace]

/-- A larger copy of a list starts with the same items. -/
theorem itemWords_enlarged (c : Content) : (c.enlarged.drop 1).take c.count = c.itemWords := by
  have hcount := c.count_le
  apply List.ext_getElem?
  intro k
  rw [itemWords, List.getElem?_take, List.getElem?_take, List.getElem?_drop, List.getElem?_drop]
  by_cases hk : k < c.count
  · unfold capacity at hcount
    have hword : 1 + k < c.words.length := by omega
    rw [if_pos hk, if_pos hk, enlarged, Arena.getElem?_grown (by unfold capacity; omega),
      List.getD_eq_getElem?_getD, List.getElem?_eq_getElem hword]
    rfl
  · rw [if_neg hk, if_neg hk]

/-- **A slice of the words after the count is a slice of the items.** -/
theorem slice_items (c : Content) (first : Int) (last : Option Int) :
    let part := ListObject.sliceOf c.count first last
    ((c.words.drop part.1).take part.2).map Ref.ofWord = slice c.items first last := by
  intro part
  have hstart : part.1 = (first - 1).toNat + 1 := by
    show (max first 1).toNat = _
    omega
  rw [items, itemWords]
  cases last with
  | none =>
    have hsize : part.2 = c.count - (first - 1).toNat := by
      show ((c.count : Int) - max first 1 + 1).toNat = _
      omega
    rw [hsize, hstart, slice, ← List.map_drop, List.drop_take, List.drop_drop, Nat.add_comm 1]
  | some e =>
    have hsize : part.2 = min e.toNat c.count - (first - 1).toNat := by
      show (min e (c.count : Int) - max first 1 + 1).toNat = _
      omega
    rw [hsize, hstart, slice, ← List.map_take, ← List.map_drop, List.take_take, List.drop_take,
      List.drop_drop, Nat.add_comm 1]

example : slice [.int 5, .nil, .true] (-2) (some 2) = [.int 5, .nil] := by decide

end Content

end ObjectMemory
