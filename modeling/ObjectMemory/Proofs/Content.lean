import ObjectMemory.Primitive
import ObjectMemory.Proofs.Rows

/-!
# What the objects hold

A primitive looks at objects in many ways: as a row of words, of references, of bytes, as a
count with items, as a text. All of these are functions of the object's class and payload words,
its `Content`. The functions here are total and read no arena.

A `View` gives the content for each handle. What a reference names is a function of the view.
-/

namespace ObjectMemory

/-! ## Contents -/

/-- An object's class and payload words. -/
structure Content where
  cls : ObjClass
  words : List Word
  deriving DecidableEq, Repr

namespace Content

/-- Payload word `i`, as a reference. -/
def field (c : Content) (i : Nat) : Ref :=
  Ref.ofWord (c.words.getD i 0)

/-- The number of items that a list has room for. -/
def capacity (c : Content) : Nat :=
  c.words.length - 1

/-- The number of items of a list. -/
def count (c : Content) : Nat :=
  min (ListObject.stated (c.field 0)) c.capacity

/-- The words of a list's items. -/
def itemWords (c : Content) : List Word :=
  (c.words.drop 1).take c.count

/-- The items of a list. -/
def items (c : Content) : List Ref :=
  c.itemWords.map Ref.ofWord

/-- All bytes of the payload. -/
def bytes (c : Content) : List UInt8 :=
  c.words.flatMap Word.bytes

/-- The number of bytes before a string's end mark. -/
def textLength (c : Content) : Nat :=
  match c.words.getLast? with
  | some last => 4 * c.capacity + Arena.tailLength last
  | none => 0

/-- The bytes of a string. -/
def text (c : Content) : List UInt8 :=
  c.bytes.take c.textLength

/-- A string of the bytes before the first zero byte, filled up with zero bytes. -/
def ofText (bytes : List UInt8) : Content where
  cls := .string
  words := Word.packed (Arena.wordsForBytes ((bytes.takeWhile (· ≠ 0)).length + 1))
    (bytes.takeWhile (· ≠ 0))

theorem count_le (c : Content) : c.count ≤ c.capacity :=
  Nat.min_le_right _ _

/-- The place of an item is the number of a payload word. -/
theorem place_lt (c : Content) {i : Nat} (h1 : 1 ≤ i) (hi : i ≤ c.count) : i < c.words.length := by
  have hcount := c.count_le
  unfold capacity at hcount
  omega

theorem length_itemWords (c : Content) : c.itemWords.length = c.count := by
  have := c.count_le
  rw [itemWords, List.length_take, List.length_drop]
  unfold capacity at this
  omega

theorem items_eq_map (c : Content) :
    c.items = (List.range c.count).map fun i => c.field (1 + i) := by
  have hle : 1 + c.count ≤ c.words.length ∨ c.count = 0 := by
    have := c.count_le
    unfold capacity at this
    omega
  rcases hle with hle | hzero
  · rw [items, itemWords, ← map_getD_range 0 hle, List.map_map]
    rfl
  · simp [items, itemWords, hzero]

theorem length_bytes (c : Content) : c.bytes.length = 4 * c.words.length :=
  Word.length_flatMap_bytes c.words

theorem tailLength_le (w : Word) : Arena.tailLength w ≤ 4 := by
  have := (List.takeWhile_sublist (fun i => Word.byte w i ≠ 0) (l := List.range 4)).length_le
  simpa [Arena.tailLength] using this

theorem textLength_le (c : Content) : c.textLength ≤ 4 * c.words.length := by
  unfold textLength capacity
  split
  · next last hlast =>
    have := tailLength_le last
    have : c.words ≠ [] := fun h => by simp [h] at hlast
    have := List.length_pos_iff.mpr this
    omega
  · omega

theorem length_text (c : Content) : c.text.length = c.textLength := by
  rw [text, List.length_take, length_bytes, Nat.min_eq_left c.textLength_le]

/-! ## New strings -/

/-- A string takes up room for its bytes and a zero byte after them. -/
theorem wordsForBytes_succ (n : Nat) : Arena.wordsForBytes (n + 1) = n / 4 + 1 := by
  unfold Arena.wordsForBytes
  omega

/-- A new string has a word for each four of its bytes, and one more. -/
theorem length_words_ofText (bytes : List UInt8) :
    (ofText bytes).words.length = (bytes.takeWhile (· ≠ 0)).length / 4 + 1 := by
  rw [ofText, Word.length_packed, wordsForBytes_succ]

/-- The bytes of a word before its first zero byte are counted. -/
theorem tailLength_eq {w : Word} {n : Nat} (hn : n < 4) (hbytes : ∀ i < n, Word.byte w i ≠ 0)
    (hend : Word.byte w n = 0) : Arena.tailLength w = n := by
  have hrange : List.range 4 = List.range n ++ n :: (List.range (3 - n)).map (n + 1 + ·) := by
    match n, hn with
    | 0, _ | 1, _ | 2, _ | 3, _ => rfl
  have hbefore : ∀ i ∈ List.range n, decide (Word.byte w i ≠ 0) = true := by
    intro i hi
    exact decide_eq_true (hbytes i (List.mem_range.mp hi))
  rw [Arena.tailLength, hrange, List.takeWhile_append_of_pos hbefore,
    List.takeWhile_cons_of_neg (by simp [hend]), List.append_nil, List.length_range]

/-- The end mark of a new string comes right after its bytes. -/
theorem textLength_ofText (bytes : List UInt8) :
    (ofText bytes).textLength = (bytes.takeWhile (· ≠ 0)).length := by
  have hnonzero : ∀ b ∈ bytes.takeWhile (· ≠ 0), b ≠ 0 := by
    rintro b hb rfl
    exact not_mem_takeWhile_ne _ _ hb
  rw [textLength, capacity, ofText]
  dsimp only
  generalize bytes.takeWhile (· ≠ 0) = text at hnonzero
  have hbyte (i : Nat) (hi : i < 4) :
      Word.byte (Word.ofBytes fun j => text.getD (4 * (text.length / 4) + j) 0) i =
        text.getD (4 * (text.length / 4) + i) 0 := Word.byte_ofBytes _ hi
  -- the last word holds the bytes that fill no word, and a zero byte after them
  have htail : Arena.tailLength (Word.ofBytes fun j => text.getD (4 * (text.length / 4) + j) 0) =
      text.length % 4 := by
    refine tailLength_eq (Nat.mod_lt _ (by decide)) (fun i hi => ?_) ?_
    · rw [hbyte i (by omega), List.getD_eq_getElem?_getD, List.getElem?_eq_getElem (by omega)]
      exact hnonzero _ (List.getElem_mem _)
    · rw [hbyte _ (Nat.mod_lt _ (by decide)), List.getD_eq_getElem?_getD,
        List.getElem?_eq_none (by omega)]
      rfl
  rw [Word.length_packed, wordsForBytes_succ, List.getLast?_eq_getElem?, Word.length_packed,
    Word.packed, List.getElem?_map, List.getElem?_range (by omega)]
  show 4 * (text.length / 4 + 1 - 1) + Arena.tailLength (Word.ofBytes _) = _
  rw [Nat.add_sub_cancel, htail]
  omega

/-- **A new string holds the bytes before the first zero byte.** -/
theorem text_ofText (bytes : List UInt8) : (ofText bytes).text = bytes.takeWhile (· ≠ 0) := by
  rw [text, textLength_ofText, Content.bytes, ofText, wordsForBytes_succ]
  generalize bytes.takeWhile (· ≠ 0) = text
  apply List.ext_getElem?
  intro k
  rw [List.getElem?_take, Word.getElem?_flatMap_bytes_packed]
  by_cases hk : k < text.length
  · rw [if_pos hk, if_pos (by omega), List.getD_eq_getElem?_getD, List.getElem?_eq_getElem hk]
    rfl
  · rw [if_neg hk, List.getElem?_eq_none (by omega)]

end Content

/-- What each handle's object holds. -/
abbrev View := Handle → Content

namespace View

/-- The handle that a reference names, if its object is of the given class. -/
def named? (v : View) (c : ObjClass) : Ref → Option Handle
  | .obj h => if (v h).cls = c then some h else none
  | _ => none

theorem named?_eq_some {v : View} {c : ObjClass} {r : Ref} {h : Handle} :
    v.named? c r = some h ↔ r = .obj h ∧ (v h).cls = c := by
  cases r with
  | obj g =>
    by_cases hc : (v g).cls = c
    · simp only [named?, if_pos hc, Option.some.injEq, Ref.obj.injEq]
      constructor
      · rintro rfl
        exact ⟨rfl, hc⟩
      · rintro ⟨hgh, _⟩
        exact hgh
    · simp only [named?, if_neg hc, Ref.obj.injEq]
      constructor
      · intro hs
        cases hs
      · rintro ⟨rfl, hcls⟩
        exact absurd hcls hc
  | _ => simp [named?]

/-- The string that a reference names. -/
def string? (v : View) (r : Ref) : Option Handle :=
  v.named? .string r

/-- The list that a reference names. -/
def list? (v : View) (r : Ref) : Option Handle :=
  v.named? .list r

/-- The container that a reference names. -/
def container? (v : View) : Ref → Option Container
  | .obj h => Container.ofClass? h (v h).cls
  | _ => none

/-- **A container has the class of its kind**, and is the object that the reference names. -/
theorem container?_eq_some {v : View} {r : Ref} {target : Container} :
    v.container? r = some target ↔
      ∃ h, r = .obj h ∧
        ((target = .list h ∧ (v h).cls = .list) ∨ (target = .string h ∧ (v h).cls = .string) ∨
          (target = .byteArray h ∧ (v h).cls = .byteArray)) := by
  cases r with
  | obj g =>
    simp only [container?, Ref.obj.injEq, exists_eq_left']
    cases (v g).cls <;> simp [Container.ofClass?, eq_comm]
  | _ => simp [container?]

/-- The bytes of the string that a reference names. -/
def text? (v : View) (r : Ref) : Option (List UInt8) :=
  (v.string? r).map fun h => (v h).text

/-- The selector that a reference names. -/
def selector? (v : View) : Ref → Option Selector
  | .int i => some (.index i)
  | r =>
    if v.text? r = some (Utf8.encode "last") then some .last
    else if v.text? r = some (Utf8.encode "random") then some .random
    else if v.text? r = some (Utf8.encode "all") then some .all
    else none

theorem selector?_obj (v : View) (h : Handle) :
    v.selector? (.obj h) =
      if v.text? (.obj h) = some (Utf8.encode "last") then some .last
      else if v.text? (.obj h) = some (Utf8.encode "random") then some .random
      else if v.text? (.obj h) = some (Utf8.encode "all") then some .all
      else none := rfl

/-- What a reference looks like among joined strings. -/
def printed? (v : View) : Ref → Option (List UInt8)
  | .int n => some (Utf8.encode (Numeral.signed n))
  | .true => some (Utf8.encode "true")
  | .false => some (Utf8.encode "false")
  | r => v.text? r

end View

end ObjectMemory
