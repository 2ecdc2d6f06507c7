import ObjectMemory.Proofs.Operation
import ObjectMemory.Proofs.Rows

/-!
# Dumps

A dump shows the header and the payload words at a handle. Before it reads anything it asks whether
the handle lies among the used words (`Arena.contains`), and shows a bad object if not. So a handle
of an issued object is shown as it should be, and so is one at or beyond the boundary.

What this question cannot tell is whether an object starts at the handle. Within an object a payload
word is taken for a header, and the size that it seems to state may lead out of the used words, and
of the arena. `dumps_safe_iff` says that these are exactly the handles that go wrong, and
`dump_within_object` shows one that stops the program.
-/

namespace ObjectMemory

namespace Arena

variable {a b : Arena} {h : Handle} {hs : List Handle}

/-! ## Runs of readings that stop -/

/-- A run of readings stops with the first one that does. -/
theorem readRange_of_error {α : Type} {read : Nat → Except Stop α} {s : Stop} {start k n : Nat}
    (hk : k < n) (hok : ∀ i < k, ∃ x, read (start + i) = .ok x)
    (hstop : read (start + k) = .error s) :
    readRange read start n = .error s := by
  induction k generalizing start n with
  | zero =>
    obtain ⟨n, rfl⟩ : ∃ m, n = m + 1 := ⟨n - 1, by omega⟩
    rw [Nat.add_zero] at hstop
    rw [readRange_succ, hstop]
    rfl
  | succ k ih =>
    obtain ⟨n, rfl⟩ : ∃ m, n = m + 1 := ⟨n - 1, by omega⟩
    obtain ⟨x, hx⟩ := hok 0 (by omega)
    have hrest : readRange read (start + 1) n = .error s := by
      refine ih (by omega) (fun i hi => ?_) ?_
      · obtain ⟨y, hy⟩ := hok (i + 1) (by omega)
        exact ⟨y, by rw [← hy]; congr 1; omega⟩
      · rw [← hstop]
        congr 1
        omega
    rw [Nat.add_zero] at hx
    rw [readRange_succ, hx, hrest]
    rfl

/-! ## What is shown -/

/-- The text that shows a header and payload words: a title, the header in base sixteen, and a line
for each word. -/
def listing (h : Handle) (header : Header) (words : List Word) : String :=
  let title := Numeral.hex h.index ++ ": " ++ Numeral.decimal header.payloadWords ++
    " words, class " ++ header.cls.describe ++ "\n"
  let raw := "Header: " ++ Numeral.hex header.word.toNat ++ "\n"
  title ++ raw ++ String.join (words.map fun w => "\t0x" ++ Numeral.hex w.toNat ++ ",\n")

/-- The text that shows that there is no object. -/
def noListing (h : Handle) : String :=
  "bad object at " ++ Numeral.decimal h.index

/-- The two texts are never the same: only the first has a colon. -/
theorem listing_ne_noListing (h : Handle) (header : Header) (words : List Word) :
    listing h header words ≠ noListing h := by
  intro heq
  have hcolon : ':' ∈ (listing h header words).toList := by
    simp [listing]
  rw [heq, noListing, String.toList_append, List.mem_append] at hcolon
  rcases hcolon with hin | hin
  · exact absurd hin (by decide)
  · rw [Numeral.decimal, String.toList_ofList] at hin
    have hdigit := List.all_eq_true.mp (Numeral.all_isDigit_digits h.index) ':' hin
    exact absurd hdigit (by decide)

/-- A handle at or beyond the boundary is shown as a bad object. -/
theorem dump_of_le (hle : a.used ≤ h.index) : a.dump h = .ok (noListing h) := by
  have hnot : a.contains h = false := decide_eq_false (Nat.not_lt.mpr hle)
  rw [dump, hnot]
  rfl

/-- A payload word that the word at the handle states is read if it lies in the arena. -/
theorem payloadWord_of_stated {i : Nat} (hindex : h.index < a.capacity)
    (hi : i < a.store.wordsAt h.index) :
    a.payloadWord h i =
      if h.index + 1 + i < a.capacity then .ok (a.store.get (h.index + 1 + i))
      else .error .outside := by
  have hn : a.payloadWords h = .ok (a.store.wordsAt h.index) := payloadWords_of_lt hindex
  rw [payloadWord]
  split
  · next hcap =>
    rw [locate_of_lt hn hi hcap]
    rfl
  · next hcap =>
    rw [locate, hn]
    simp [bind, Except.bind, throw, throwThe, MonadExceptOf.throw, Except.map, Nat.not_le.mpr hi,
      Nat.not_lt.mp hcap]

/-- **At a handle below the boundary the word there is taken for a header.** What it states is
listed if it ends within the arena, and stops the run if not. -/
theorem dump_of_lt (hlt : h.index < a.used) (hcap : a.used ≤ a.capacity) :
    a.dump h =
      if a.store.after h.index ≤ a.capacity then
        .ok (listing h ⟨a.store.get h.index⟩
          (a.store.words (h.index + 1) (a.store.wordsAt h.index)))
      else .error .outside := by
  have hin : a.contains h = true := decide_eq_true hlt
  have hindex : h.index < a.capacity := Nat.lt_of_lt_of_le hlt hcap
  have hwords : readRange (a.payloadWord h) 0 (a.store.wordsAt h.index) =
      if a.store.after h.index ≤ a.capacity then
        .ok (a.store.words (h.index + 1) (a.store.wordsAt h.index))
      else .error .outside := by
    rw [Store.after_eq]
    split
    · next hends =>
      have hall : ∀ i, 0 ≤ i → i < 0 + a.store.wordsAt h.index →
          a.payloadWord h i = .ok (a.store.get (h.index + 1 + i)) := by
        intro i _ hi
        rw [payloadWord_of_stated hindex (by omega), if_pos (by omega)]
      rw [readRange_of_ok hall]
      simp only [Nat.zero_add]
      rfl
    · next hends =>
      -- the first word that is not there is the one after the last of the arena
      have hstop := payloadWord_of_stated (i := a.capacity - (h.index + 1)) hindex (by omega)
      rw [if_neg (by omega)] at hstop
      refine readRange_of_error (k := a.capacity - (h.index + 1)) (by omega) (fun i hi => ?_) ?_
      · rw [Nat.zero_add, payloadWord_of_stated hindex (by omega), if_pos (by omega)]
        exact ⟨_, rfl⟩
      · rw [Nat.zero_add, hstop]
  rw [dump, hin, header_of_lt hindex]
  show (readRange (a.payloadWord h) 0 (a.store.wordsAt h.index) >>= _) = _
  rw [hwords]
  split <;> rfl

/-- **An issued object is listed with its header and all of its words.** -/
theorem dump_of_holds (hh : a.Holds h) :
    a.dump h = .ok (listing h ⟨a.store.get h.index⟩
      (a.store.words (h.index + 1) (a.store.wordsAt h.index))) := by
  have hlt : h.index < a.used := Nat.lt_of_lt_of_le (a.store.lt_after h.index) hh.after_le
  rw [dump_of_lt hlt hh.used_le, if_pos (Nat.le_trans hh.after_le hh.used_le)]

/-! ## Which handles are safe -/

/-- The object at the handle has this header and these payload words, as they are read one by one,
and its dump lists them in order. Nothing that lies at or beyond the boundary plays a part in it. -/
structure Listed (a : Arena) (h : Handle) (header : Header) (words : List Word) : Prop where
  header_eq : a.header h = .ok header
  length_words : words.length = header.payloadWords
  word : ∀ i w, words[i]? = some w → a.payloadWord h i = .ok w
  dump_eq : a.dump h = .ok (listing h header words)
  below : ∀ b : Arena, b.used = a.used → b.used ≤ b.capacity →
    (∀ i < a.used, b.store.get i = a.store.get i) → b.dump h = a.dump h

/-- The dump at a handle is what it should be: an issued object is listed, and any other handle is
shown as a bad object. -/
structure SafelyDumped (a : Arena) (hs : List Handle) (h : Handle) : Prop where
  listed : h ∈ hs → ∃ header words, a.Listed h header words
  bad : h ∉ hs → a.dump h = .ok (noListing h)

theorem listed_of_holds (hh : a.Holds h) :
    a.Listed h ⟨a.store.get h.index⟩
      (a.store.words (h.index + 1) (a.store.wordsAt h.index)) where
  header_eq := header_of_holds hh
  length_words := a.store.length_words _ _
  word i w hw := by
    have hsome := a.store.getElem?_words (h.index + 1) (a.store.wordsAt h.index) i
    rw [hw] at hsome
    rw [payloadWord_of_holds hh]
    split at hsome
    · next hi => rw [if_pos hi, Option.some.inj hsome]
    · cases hsome
  dump_eq := dump_of_holds hh
  below b hused hcap hget := by
    have hafter := hh.after_le
    have hheader := hget h.index (Nat.lt_of_lt_of_le (a.store.lt_after h.index) hafter)
    have hsize : b.store.wordsAt h.index = a.store.wordsAt h.index := by
      rw [Store.wordsAt, hheader]
      rfl
    have hb : b.Holds h := ⟨by rw [Store.after_congr hheader, hused]; exact hafter, hcap⟩
    have hwords : b.store.words (h.index + 1) (a.store.wordsAt h.index) =
        a.store.words (h.index + 1) (a.store.wordsAt h.index) := by
      refine Store.words_congr fun k hk => hget _ ?_
      rw [Store.after_eq] at hafter
      omega
    rw [dump_of_holds hh, dump_of_holds hb, hheader, hsize, hwords]

end Arena

open Arena

/-- **The dump is safe exactly at issued objects and outside the used words.** Where the used words
are tiled by the objects that were issued, as they are after every run (`Reached.accounted`,
`Course.accounted`), it lists each of these objects with its header and words, reading nothing at
or beyond the boundary, and shows a bad object for a handle from there. At every other handle,
within an object, it never does: it lists the words that the word there states when it is taken for
a header, wherever they lie, or stops the run if they reach beyond the arena. -/
theorem dumps_safe_iff {a : Arena} {hs : List Handle} (ht : a.Tiled hs) (h : Handle) :
    (a.SafelyDumped hs h ↔ h ∈ hs ∨ a.used ≤ h.index) ∧
    (h ∉ hs → h.index < a.used →
      a.dump h =
        if a.store.after h.index ≤ a.capacity then
          .ok (listing h ⟨a.store.get h.index⟩
            (a.store.words (h.index + 1) (a.store.wordsAt h.index)))
        else .error .outside) := by
  refine ⟨⟨fun hsafe => ?_, fun hor => ?_⟩, fun _ hlt => dump_of_lt hlt ht.used_le⟩
  · by_cases hh : h ∈ hs
    · exact Or.inl hh
    · refine Or.inr (Nat.not_lt.mp fun hlt => ?_)
      have hbad := hsafe.bad hh
      rw [dump_of_lt hlt ht.used_le] at hbad
      split at hbad
      · exact listing_ne_noListing _ _ _ (Except.ok.inj hbad)
      · cases hbad
  · exact ⟨fun hh => ⟨_, _, listed_of_holds (ht.holds hh)⟩, fun hh =>
      dump_of_le (hor.resolve_left hh)⟩

/-- A record of two words: it is listed, what lies beyond it is a bad object, and what lies within
it is neither. -/
theorem dumps_beside_record :
    ∃ a, Reached a [⟨⟨0⟩, .other 9, 2⟩] ∧ a.SafelyDumped [⟨0⟩] ⟨0⟩ ∧ a.SafelyDumped [⟨0⟩] ⟨3⟩ ∧
      ¬ a.SafelyDumped [⟨0⟩] ⟨1⟩ := by
  have h1 := Reached.make (.object (.other 9) 2 (.int 1000)) (Reached.start 16 .panic) rfl
  have ht := h1.accounted.tiled
  refine ⟨_, h1, (dumps_safe_iff ht ⟨0⟩).1.mpr (Or.inl List.mem_cons_self),
    (dumps_safe_iff ht ⟨3⟩).1.mpr (Or.inr (Nat.le_refl 3)), fun hsafe => ?_⟩
  rcases (dumps_safe_iff ht ⟨1⟩).1.mp hsafe with hin | hle
  · exact absurd hin (by decide)
  · exact absurd hle (by decide)

/-- The second word of a record of two words is taken for the header of an object of 125 words, and
the dump stops the program. -/
theorem dump_within_object :
    ∃ a, Reached a [⟨⟨0⟩, .other 9, 2⟩] ∧ a.contains ⟨1⟩ = true ∧
      a.dump ⟨1⟩ = .error .outside := by
  have h1 := Reached.make (.object (.other 9) 2 (.int 1000)) (Reached.start 16 .panic) rfl
  exact ⟨_, h1, rfl, by rw [dump_of_lt (by decide) (by decide), if_neg (by decide)]⟩

end ObjectMemory
