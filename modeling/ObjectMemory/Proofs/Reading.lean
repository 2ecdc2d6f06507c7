import ObjectMemory.Proofs.Content
import ObjectMemory.Proofs.Frame

/-!
# Reading what the objects hold

`Arena.view` gives the content of every object that the arena holds. On such objects each reading
function of the arena, of the containers and of the selectors gives what the function of the same
meaning gives on the view. So whatever a program reads depends on the view alone, and a program
may be described without an arena.
-/

namespace ObjectMemory

namespace Arena

variable {a b : Arena} {h : Handle} {r : Ref}

instance (a : Arena) (h : Handle) : Decidable (a.Holds h) :=
  decidable_of_iff (a.store.after h.index ≤ a.used ∧ a.used ≤ a.capacity)
    ⟨fun ⟨h1, h2⟩ => ⟨h1, h2⟩, fun ⟨h1, h2⟩ => ⟨h1, h2⟩⟩

/-- The class and the payload words at a handle. -/
def content (a : Arena) (h : Handle) : Content where
  cls := (Header.mk (a.store.get h.index)).cls
  words := a.store.words (h.index + 1) (a.store.wordsAt h.index)

/-- What the objects of the arena hold. A handle of none of them shows an empty record. -/
def view (a : Arena) : View := fun h =>
  if a.Holds h then a.content h else ⟨.other 0, []⟩

/-- The reference is no handle, or one of an object that the arena holds. -/
def Knows (a : Arena) (r : Ref) : Prop :=
  ∀ h, r = .obj h → a.Holds h

theorem view_of_holds (hh : a.Holds h) : a.view h = a.content h :=
  if_pos hh

/-- The view shows as many words as the header states. -/
theorem length_view (hh : a.Holds h) : (a.view h).words.length = a.store.wordsAt h.index := by
  rw [view_of_holds hh]
  exact a.store.length_words _ _

/-- Each word of the view is one of the store, and there are no others. -/
theorem getElem?_view (hh : a.Holds h) (i : Nat) :
    (a.view h).words[i]? =
      if i < a.store.wordsAt h.index then some (a.store.get (h.index + 1 + i)) else none := by
  rw [view_of_holds hh]
  exact a.store.getElem?_words _ _ i

theorem getElem?_view_of_lt (hh : a.Holds h) {i : Nat} (hi : i < a.store.wordsAt h.index) :
    (a.view h).words[i]? = some (a.store.get (h.index + 1 + i)) := by
  rw [getElem?_view hh, if_pos hi]

/-! ## Arenas that show the same -/

/-- The object has the same words in both arenas, its header included. -/
def Keeps (a : Arena) (h : Handle) (b : Arena) : Prop :=
  ∀ j, h.index ≤ j → j < a.store.after h.index → b.store.get j = a.store.get j

/-- The header is among the words that are kept. -/
theorem Keeps.header (hk : a.Keeps h b) : b.store.get h.index = a.store.get h.index :=
  hk h.index (Nat.le_refl _) (a.store.lt_after h.index)

theorem Keeps.after (hk : a.Keeps h b) : b.store.after h.index = a.store.after h.index :=
  Store.after_congr hk.header

/-- An object that keeps its words stays held where no more words are used than there are. -/
theorem Keeps.holds (hk : a.Keeps h b) (hh : a.Holds h) (hused : a.used ≤ b.used)
    (hcap : b.used ≤ b.capacity) : b.Holds h :=
  ⟨by rw [hk.after]; exact Nat.le_trans hh.after_le hused, hcap⟩

/-- **An object is shown by its words alone.** -/
theorem Keeps.content_eq (hk : a.Keeps h b) : b.content h = a.content h := by
  have hheader := hk.header
  have hwordsAt : b.store.wordsAt h.index = a.store.wordsAt h.index := by
    rw [Store.wordsAt, hheader]
    rfl
  have hwords : b.store.words (h.index + 1) (a.store.wordsAt h.index) =
      a.store.words (h.index + 1) (a.store.wordsAt h.index) := by
    refine Store.words_congr fun k hk' => hk _ (by omega) ?_
    rw [Store.after_eq]
    omega
  simp only [content, hheader, hwordsAt, hwords]

/-- An object that both arenas hold and that keeps its words shows the same in both. -/
theorem Keeps.view_eq (hk : a.Keeps h b) (ha : a.Holds h) (hb : b.Holds h) :
    b.view h = a.view h := by
  rw [view_of_holds ha, view_of_holds hb, hk.content_eq]

/-- **The view depends on the used words only.** -/
theorem Holds.congr (hused : b.used = a.used) (hcap : b.capacity = a.capacity)
    (hget : ∀ i < a.used, b.store.get i = a.store.get i) (hh : a.Holds h) :
    b.Holds h ∧ b.content h = a.content h := by
  have hkeeps : a.Keeps h b := fun j _ hj => hget j (Nat.lt_of_lt_of_le hj hh.after_le)
  refine ⟨hkeeps.holds hh (Nat.le_of_eq hused.symm) ?_, hkeeps.content_eq⟩
  rw [hused, hcap]
  exact hh.used_le

theorem view_congr (hused : b.used = a.used) (hcap : b.capacity = a.capacity)
    (hget : ∀ i < a.used, b.store.get i = a.store.get i) : b.view = a.view := by
  funext h
  by_cases hh : a.Holds h
  · obtain ⟨hb, hcontent⟩ := hh.congr hused hcap hget
    rw [view_of_holds hh, view_of_holds hb, hcontent]
  · have hb : ¬ b.Holds h := by
      intro hb
      refine hh (hb.congr hused.symm hcap.symm fun i hi => (hget i ?_).symm).1
      rw [← hused]
      exact hi
    rw [view, if_neg hb, view, if_neg hh]

/-! ## Words and references -/

/-- The class that is read is the class that is shown. -/
theorem classOf_eq (hh : a.Holds h) : a.classOf h = .ok (a.view h).cls := by
  rw [classOf_of_holds hh, view_of_holds hh]
  rfl

theorem classOf_eq_ok_iff (hh : a.Holds h) {cls : ObjClass} :
    a.classOf h = .ok cls ↔ (a.view h).cls = cls := by
  rw [classOf_eq hh, Except.ok.injEq]

/-- The payload size that is read is the number of words that are shown. -/
theorem payloadWords_eq (hh : a.Holds h) : a.payloadWords h = .ok (a.view h).words.length := by
  rw [payloadWords_of_holds hh, length_view hh]

/-- A payload word that is read is the one that is shown. -/
theorem payloadWord_eq (hh : a.Holds h) {i : Nat} (hi : i < (a.view h).words.length) :
    a.payloadWord h i = .ok ((a.view h).words.getD i 0) := by
  have hwords := length_view hh
  rw [payloadWord_of_holds hh, if_pos (hwords ▸ hi), List.getD_eq_getElem?_getD,
    getElem?_view hh, if_pos (hwords ▸ hi)]
  rfl

/-- A payload word that is read as a reference is the one that is shown. -/
theorem field_eq (hh : a.Holds h) {i : Nat} (hi : i < (a.view h).words.length) :
    a.field h i = .ok ((a.view h).field i) := by
  rw [field, payloadWord_eq hh hi]
  rfl

/-! ## Bytes -/

/-- A byte that is read is the one that is shown. -/
theorem byteAt_eq (hh : a.Holds h) {i : Nat} (hi : i < (a.view h).bytes.length) :
    a.byteAt h i = .ok ((a.view h).bytes.getD i 0) := by
  rw [Content.length_bytes] at hi
  have hword : i / 4 < (a.view h).words.length := by omega
  rw [byteAt, payloadWord_eq hh hword, List.getD_eq_getElem?_getD, List.getD_eq_getElem?_getD,
    Content.bytes, Word.getElem?_flatMap_bytes, List.getElem?_eq_getElem hword]
  rfl

/-- An object has far fewer bytes than 64 bits can count. -/
theorem spans_of_le (hh : a.Holds h) {offset n : Nat}
    (hn : offset + n ≤ (a.view h).bytes.length) : Size.Spans offset n := by
  have hwords := wordsAt_le a.store h.index
  rw [Content.length_bytes, length_view hh] at hn
  unfold maxPayloadWords at hwords
  unfold Size.Spans Size.longest
  rw [Size.largest_eq]
  omega

/-- **A run of bytes that the object has is read**, and the end of such a run is a size. -/
theorem readBytes_eq (hh : a.Holds h) {offset n : Nat}
    (hn : offset + n ≤ (a.view h).bytes.length) :
    a.readBytes h offset n = .ok (((a.view h).bytes.drop offset).take n) := by
  have hread : ∀ i, offset ≤ i → i < offset + n →
      a.byteAt h i = .ok ((a.view h).bytes.getD i 0) :=
    fun i _ hi => byteAt_eq hh (Nat.lt_of_lt_of_le hi hn)
  rw [readBytes, if_pos (spans_of_le hh hn), readRange_of_ok hread, map_getD_range 0 hn]

theorem byteArrayLength_eq (hh : a.Holds h) :
    a.byteArrayLength h = .ok (a.view h).bytes.length := by
  rw [byteArrayLength, payloadWords_eq hh, Content.length_bytes]
  rfl

/-- **The length of a string is found in its last word**, and it is that of the text shown. -/
theorem stringLength_eq (hh : a.Holds h) : a.stringLength h = .ok (a.view h).textLength := by
  have hwords := payloadWords_eq hh
  rw [stringLength, hwords]
  show (if (a.view h).words.length = 0 then pure 0 else _) = _
  by_cases hempty : (a.view h).words.length = 0
  · rw [if_pos hempty, Content.textLength, List.length_eq_zero_iff.mp hempty]
    rfl
  · have hlast := payloadWord_eq hh (i := (a.view h).words.length - 1) (by omega)
    rw [if_neg hempty, hlast, Content.textLength, List.getLast?_eq_getElem?,
      List.getD_eq_getElem?_getD, List.getElem?_eq_getElem (by omega)]
    rfl

/-- The bytes of a string are the text that is shown. -/
theorem stringBytes_eq (hh : a.Holds h) : a.stringBytes h = .ok (a.view h).text := by
  have hle : 0 + (a.view h).textLength ≤ (a.view h).bytes.length := by
    rw [Nat.zero_add, Content.length_bytes]
    exact (a.view h).textLength_le
  rw [stringBytes, stringLength_eq hh]
  exact readBytes_eq hh hle

/-- Which references are strings can be told from the view. -/
theorem asString_eq (hk : a.Knows r) : a.asString r = .ok (a.view.string? r) := by
  cases r with
  | obj h =>
    rw [asString, classOf_eq (hk h rfl)]
    rfl
  | _ => rfl

theorem holds_of_named? {c : ObjClass} (hk : a.Knows r) (hs : a.view.named? c r = some h) :
    a.Holds h :=
  hk h (View.named?_eq_some.mp hs).1

/-- **Comparing the lengths first comes to the same as comparing the texts.** -/
theorem stringMatches_eq (hk : a.Knows r) (bytes : List UInt8) :
    a.stringMatches r bytes = .ok (decide (a.view.text? r = some bytes)) := by
  rw [stringMatches, asString_eq hk, View.text?]
  cases hs : a.view.string? r with
  | none => rfl
  | some h =>
    have hh := holds_of_named? hk hs
    show (do if (← a.stringLength h) = bytes.length then _ else _) = _
    rw [stringLength_eq hh]
    show (if (a.view h).textLength = bytes.length then _ else _) = _
    -- strings of another length are told apart without a look at their bytes
    by_cases hlen : (a.view h).textLength = bytes.length
    · rw [if_pos hlen, stringBytes_eq hh]
      show Except.ok ((a.view h).text == bytes) = _
      congr 1
      rw [Bool.eq_iff_iff]
      simp
    · have hne : (a.view h).text ≠ bytes := by
        rintro rfl
        exact hlen (a.view h).length_text.symm
      rw [if_neg hlen]
      simp [hne]
      rfl

end Arena

open Arena

variable {a : Arena} {h : Handle} {r : Ref}

/-! ## Lists -/

namespace ListObject

theorem capacity_eq (hh : a.Holds h) : capacity a h = .ok (a.view h).capacity := by
  rw [capacity, payloadWords_eq hh]
  rfl

/-- **The number of items that is read is the one shown**: what the first word states, limited to
the capacity. -/
theorem count_eq (hh : a.Holds h) : count a h = .ok (a.view h).count := by
  rw [count, payloadWords_eq hh]
  show (if (a.view h).words.length = 0 then pure 0 else _) = _
  by_cases hempty : (a.view h).words.length = 0
  · rw [if_pos hempty, Content.count, Content.capacity, hempty]
    exact congrArg Except.ok (Nat.min_zero _).symm
  · rw [if_neg hempty, field_eq hh (Nat.pos_of_ne_zero hempty)]
    rfl

/-- The items that are read are the ones shown. -/
theorem items_eq (hh : a.Holds h) : items a h = .ok (a.view h).items := by
  have hread : ∀ i, 1 ≤ i → i < 1 + (a.view h).count → a.field h i = .ok ((a.view h).field i) := by
    intro i h1 hi
    exact field_eq hh ((a.view h).place_lt h1 (by omega))
  rw [items, count_eq hh]
  show readRange (a.field h) 1 (a.view h).count = _
  rw [readRange_of_ok hread, Content.items_eq_map]

/-- Which references are lists can be told from the view. -/
theorem asList_eq (hk : a.Knows r) : asList a r = .ok (a.view.list? r) := by
  cases r with
  | obj h =>
    rw [asList, classOf_eq (hk h rfl)]
    rfl
  | _ => rfl

end ListObject

/-! ## Texts -/

namespace StringObject

/-- The length of a string is the number of code points of the text shown. -/
theorem length_eq (hh : a.Holds h) : length a h = .ok (CodePoints.count (a.view h).text) := by
  rw [length, stringBytes_eq hh]
  rfl

/-- The text of a string, where what is no string is left to the caller. -/
theorem text_of_asString {α : Type} (hk : a.Knows r) (f : Option (List UInt8) → α) :
    (do
      match ← a.asString r with
      | some h => return f (some (← a.stringBytes h))
      | none => return f none) = (.ok (f (a.view.text? r)) : Except Stop α) := by
  rw [asString_eq hk, View.text?]
  cases hs : a.view.string? r with
  | none => rfl
  | some h =>
    show (do return f (some (← a.stringBytes h))) = _
    rw [stringBytes_eq (holds_of_named? hk hs)]
    rfl

/-- What a reference looks like among joined strings can be told from the view. -/
theorem printed_eq (hk : a.Knows r) : printed a r = .ok (a.view.printed? r) := by
  cases r with
  | int n => rfl
  | true => rfl
  | false => rfl
  | nil => exact text_of_asString hk id
  | obj h => exact text_of_asString hk id

/-- A separator that is no string counts as an empty one, in the view as well. -/
theorem separatorBytes_eq {separator : Option Ref} (hk : ∀ r ∈ separator, a.Knows r) :
    separatorBytes a separator = .ok ((separator.bind a.view.text?).getD []) := by
  cases separator with
  | none => rfl
  | some r =>
    rw [separatorBytes, asString_eq (hk r rfl), Option.bind_some, View.text?]
    cases hs : a.view.string? r with
    | none => rfl
    | some h => exact stringBytes_eq (holds_of_named? (hk r rfl) hs)

end StringObject

theorem text?_of_classOf (hh : a.Holds h) (hcls : a.classOf h = .ok .string) :
    a.view.text? (.obj h) = some (a.view h).text := by
  have hnamed := View.named?_eq_some.mpr ⟨rfl, (classOf_eq_ok_iff hh).mp hcls⟩
  rw [View.text?, View.string?, hnamed, Option.map_some]

/-- **A selector is parsed from the view**: only strings are compared with words. -/
theorem Selector.parse_eq (hk : a.Knows r) : Selector.parse a r = .ok (a.view.selector? r) := by
  have hmatch : ∀ bytes, a.stringMatches r bytes = .ok (decide (a.view.text? r = some bytes)) :=
    stringMatches_eq hk
  cases r with
  | int i => rfl
  | _ =>
    simp only [Selector.parse, hmatch, View.selector?, bind, Except.bind, decide_eq_true_eq]
    split
    · rfl
    · split
      · rfl
      · split <;> rfl

/-- An object is the container of its kind. -/
theorem container?_of_classOf (hh : a.Holds h) {cls : ObjClass} (hcls : a.classOf h = .ok cls) :
    a.view.container? (.obj h) = Container.ofClass? h cls := by
  rw [View.container?, (classOf_eq_ok_iff hh).mp hcls]

/-- Which references are containers, and of which kind, can be told from the view. -/
theorem Container.classify_eq (hk : a.Knows r) :
    Container.classify a r = .ok (a.view.container? r) := by
  cases r with
  | obj h =>
    rw [classify, classOf_eq (hk h rfl)]
    rfl
  | _ => rfl

end ObjectMemory
