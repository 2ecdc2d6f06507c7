import ObjectMemory.Proofs.Moves
import ObjectMemory.Proofs.Relocation

/-!
# References and words

A reference that a word can hold comes back from its word, and a word comes back from the reference
that it reads as. The exceptions are the stray words (`Word.Stray`): the multiples of four that
stand for no singleton. They read as nil, and no reference is stored as one of them. Only words and
bytes that were stored as such are stray.

So it makes no difference whether a slot of a list is carried over as a word or as a reference,
unless its word is stray: `references_and_words_convert`.
-/

namespace ObjectMemory

/-! ## There and back -/

/-- A word that stores no reference: its low two bits are zero, and it is not one of the three
singletons. -/
def Word.Stray (w : Word) : Prop :=
  w.toNat % 4 = 0 ∧ w ≠ 0 ∧ w ≠ 4 ∧ w ≠ 8

instance : DecidablePred Word.Stray :=
  fun _ => inferInstanceAs (Decidable (_ ∧ _))

namespace Ref

variable {r q : Ref} {w : Word}

/-- **References that a word can hold have different words.** -/
theorem toWord_injective (hr : r.Canonical) (hq : q.Canonical) (h : r.toWord = q.toWord) :
    r = q := by
  rw [← ofWord_toWord hr, h, ofWord_toWord hq]

/-- No reference is stored as a stray word, whatever its integer or its handle. -/
theorem not_stray_toWord (r : Ref) : ¬ r.toWord.Stray := by
  rintro ⟨hlow, hnil, htrue, hfalse⟩
  cases r with
  | int n =>
    have hodd := toNat_toWord_int n
    omega
  | obj h =>
    rw [toWord, UInt32.toNat_ofNat'] at hlow
    omega
  | nil => exact hnil rfl
  | true => exact htrue rfl
  | false => exact hfalse rfl

/-- The value that an odd word stores, doubled plus one, is the word's number again. -/
theorem signedHalf_back {n : Nat} (hn : n < 4294967296) (hodd : n % 2 = 1) :
    (2 * signedHalf n + 1) % 4294967296 = n := by
  unfold signedHalf
  split <;> omega

/-- **A word that is not stray is the word of what it reads as.** -/
theorem toWord_ofWord (hw : ¬ w.Stray) : (ofWord w).toWord = w := by
  have hlt := w.toNat_lt
  unfold ofWord
  dsimp only
  split
  · next hodd =>
    rw [toWord, signedHalf_back hlt hodd, Int.toNat_natCast, UInt32.ofNat_toNat]
  · next heven =>
    split
    · next htag =>
      have hnumber : 4 * (w.toNat / 4) + 2 = w.toNat := by omega
      rw [toWord, hnumber, UInt32.ofNat_toNat]
    · next hlow =>
      have hsingle : w = 0 ∨ w = 4 ∨ w = 8 := by
        by_contra hnone
        rw [not_or, not_or] at hnone
        exact hw ⟨by omega, hnone⟩
      rcases hsingle with rfl | rfl | rfl <;> rfl

theorem ofWord_of_stray (hw : w.Stray) : ofWord w = .nil := by
  obtain ⟨hlow, _, htrue, hfalse⟩ := hw
  have htrue : ¬ w.toNat = 4 := fun h => htrue (UInt32.toNat_inj.mp h)
  have hfalse : ¬ w.toNat = 8 := fun h => hfalse (UInt32.toNat_inj.mp h)
  unfold ofWord
  dsimp only
  rw [if_neg (by omega), if_neg (by omega), if_neg htrue, if_neg hfalse]

example : ofWord 12 = .nil := by decide

/-- **The words that come back are those of references.** -/
theorem toWord_ofWord_iff : (ofWord w).toWord = w ↔ ∃ r : Ref, r.toWord = w := by
  constructor
  · intro h
    exact ⟨_, h⟩
  · rintro ⟨r, rfl⟩
    exact toWord_ofWord (not_stray_toWord r)

end Ref

namespace Arena

variable {a b : Arena} {g h : Handle} {hs : List Handle}

/-! ## Storing a reference -/

/-- The arena `b` is `a` with a reference stored in payload word `i` of the object `h`. -/
structure Stowed (a : Arena) (hs : List Handle) (h : Handle) (i : Nat) (r : Ref) (b : Arena) : Prop
    extends a.ChangedOnly hs h (· = i) b where
  word : b.payloadWord h i = .ok r.toWord
  field : b.field h i = .ok r.kept

theorem setField_stows (ht : a.Tiled hs) (hh : h ∈ hs) {i : Nat}
    (hi : i < (a.view h).words.length) {r : Ref}
    (hr : ∀ g, r = .obj g → g.index < 1073741824) :
    ∃ b, setField h i r a = .ok () b ∧ a.Stowed hs h i r b := by
  have hold := ht.holds hh
  obtain ⟨b, hrun, hst⟩ := setField_stored hold hi r
  have hword : b.payloadWord h i = .ok r.toWord := by
    rw [payloadWord_eq_ok_iff (hst.holds hold), hst.words, List.getElem?_set_self hi]
  have hchanged : a.ChangedOnly hs h (· = i) b :=
    hst.changedOnly ht hh fun k hk => List.getElem?_set_ne fun heq => hk heq.symm
  refine ⟨b, hrun, { hchanged with word := hword, field := ?_ }⟩
  rw [field, hword]
  exact congrArg Except.ok (Ref.ofWord_toWord_of_small hr)

/-! ## Carrying slots over -/

/-- Payload word `i` is the word of some reference, as if that was stored there. -/
def HoldsRef (a : Arena) (h : Handle) (i : Nat) : Prop :=
  ∃ r : Ref, a.payloadWord h i = .ok r.toWord

/-- **A word that is read as a reference and stored as that is the same again** exactly if a
reference was stored there before. -/
theorem sameWord_iff_holdsRef {w : Word} {i k : Nat} (hwas : a.payloadWord h i = .ok w)
    (hnew : b.payloadWord g k = .ok (Ref.ofWord w).toWord) :
    a.SameWord h i b g k ↔ a.HoldsRef h i := by
  unfold SameWord HoldsRef
  rw [hwas, hnew]
  constructor
  · rintro ⟨v, hv, hsame⟩
    cases hv
    obtain ⟨r, hr⟩ := Ref.toWord_ofWord_iff.mp (Except.ok.inj hsame)
    exact ⟨r, congrArg Except.ok hr.symm⟩
  · rintro ⟨r, hr⟩
    cases hr
    exact ⟨_, rfl, congrArg Except.ok (Ref.toWord_ofWord (Ref.not_stray_toWord r))⟩

/-- The slots of the items lie in front of those that a larger copy has more. -/
theorem grow_slots (ht : a.Tiled hs) (hh : h ∈ hs) (n : Nat) (fill : Ref)
    (hroom : a.used + (n + 1) < a.capacity) :
    ∃ b, grow h n fill a = .ok ⟨a.used⟩ b ∧ b.classOf ⟨a.used⟩ = .ok (a.view h).cls ∧
      ∀ j < (a.view h).count, 1 + j < n → a.SameWord h (1 + j) b ⟨a.used⟩ (1 + j) := by
  have hold := ht.holds hh
  have hfits : a.Fits (grown (a.view h).words n fill.toWord).length := by
    rw [length_grown, ht.fits_iff]
    omega
  have hsize : 1 + n ≤ Size.largest := by
    have hsized := hfits.sized
    rwa [length_grown] at hsized
  obtain ⟨b, hrun, hmade⟩ := (grow_makes hold hsize fill).of_fits hfits
  have hcopied := hmade.copied hold
  refine ⟨b, hrun, hcopied.cls, fun j hj hn => hcopied.kept _ (Nat.lt_min.mpr ⟨?_, hn⟩)⟩
  exact (a.view h).place_lt (Nat.le_add_right 1 j) (by omega)

/-- The slots of the items are moved as words. -/
theorem copyFields_slots (ht : a.Tiled hs) (hh : h ∈ hs) (hg : g ∈ hs) {start : Nat}
    (hroom : start + (a.view h).count ≤ (a.view g).words.length) :
    ∃ b, copyFields h 1 g start (a.view h).count a = .ok () b ∧
      ∀ j < (a.view h).count, a.SameWord h (1 + j) b g (start + j) := by
  rcases Nat.eq_zero_or_pos (a.view h).count with hzero | hpos
  · rw [hzero]
    refine ⟨a, ?_, fun j hj => absurd hj (Nat.not_lt_zero j)⟩
    rw [copyFields_of_holds (ht.holds hh) (ht.holds hg), if_pos rfl]
  · have hlast := (a.view h).place_lt hpos (Nat.le_refl _)
    have hsource : 1 + (a.view h).count ≤ (a.view h).words.length := by omega
    obtain ⟨b, hrun, hmoved⟩ := copyFields_moves ht hh hg hsource hroom
    exact ⟨b, hrun, hmoved.moved⟩

/-- A list made from the items of another has them in the same slots, each as the word of what the
old word reads as. -/
theorem payloadWord_ofItems (hm : a.Made .fresh
    (.ofItems ((a.view h).items.map Ref.toWord)) b) {j : Nat} {w : Word}
    (hj : j < (a.view h).count) (hw : (a.view h).words[1 + j]? = some w) :
    b.payloadWord ⟨a.used⟩ (1 + j) = .ok (Ref.ofWord w).toWord := by
  rw [payloadWord_eq_ok_iff hm.holds_new, hm.words, Content.ofItems, Nat.add_comm 1 j,
    List.getElem?_cons_succ, Content.items, Content.itemWords, List.getElem?_map,
    List.getElem?_map, List.getElem?_take_of_lt hj, List.getElem?_drop, hw]
  rfl

/-- A new list that was made from some items has them. -/
theorem items_ofItems {items : List Ref}
    (hm : a.Made .fresh (.ofItems (items.map Ref.toWord)) b)
    (hitems : ∀ r ∈ items, r.Canonical) : ListObject.items b ⟨a.used⟩ = .ok items := by
  have hfits := hm.fits
  unfold Fits at hfits
  have hsize : (items.map Ref.toWord).length + 1 ≤ maxArenaWords :=
    Nat.le_trans hfits.2 (by decide)
  have hsequence := Content.sequence_ofItems hsize
  rw [ListObject.items_eq hm.holds_new, hm.view_new]
  refine congrArg Except.ok ((congrArg Sequence.items hsequence).trans ?_)
  rw [List.map_map]
  refine (List.map_congr_left fun r hr => ?_).trans (List.map_id items)
  exact Ref.ofWord_toWord (hitems r hr)

/-- The slots of the items are moved as references. -/
theorem ofItems_slots (ht : a.Tiled hs) (hh : h ∈ hs)
    (hroom : a.used + ((a.view h).items.length + 2) < a.capacity) :
    ∃ b, ListObject.ofItems (a.view h).items a = .ok ⟨a.used⟩ b ∧
      b.classOf ⟨a.used⟩ = .ok .list ∧ ListObject.items b ⟨a.used⟩ = .ok (a.view h).items ∧
      ∀ j < (a.view h).items.length,
        a.SameWord h (1 + j) b ⟨a.used⟩ (1 + j) ↔ a.HoldsRef h (1 + j) := by
  have hold := ht.holds hh
  have hcanonical : ∀ r ∈ (a.view h).items, r.Canonical := by
    intro r hr
    obtain ⟨w, _, rfl⟩ := List.mem_map.mp hr
    exact Ref.canonical_ofWord w
  have hsize : (Content.ofItems ((a.view h).items.map Ref.toWord)).words.length =
      (a.view h).items.length + 1 := by
    rw [Content.ofItems, List.length_cons, List.length_map]
  have hfits : a.Fits (Content.ofItems ((a.view h).items.map Ref.toWord)).words.length := by
    rw [hsize, ht.fits_iff]
    omega
  obtain ⟨b, hrun, hmade⟩ := (ListObject.ofItems_makes (a.view h).items a).of_fits hfits
  refine ⟨b, hrun, ?_, items_ofItems hmade hcanonical, fun j hj => ?_⟩
  · rw [classOf_eq hmade.holds_new, hmade.view_new]
    rfl
  · rw [(a.view h).length_items] at hj
    have hin := (a.view h).place_lt (Nat.le_add_right 1 j) (by omega)
    have hword := List.getElem?_eq_getElem hin
    exact sameWord_iff_holdsRef ((payloadWord_eq_ok_iff hold).mpr hword)
      (payloadWord_ofItems hmade hj hword)

end Arena

open Arena

/-- **References and words convert into each other.** Where the used words are tiled by the objects
that were issued, as they are after every run (`Reached.accounted`, `Course.accounted`), a
reference that is stored in a payload word of one of them is read back, an integer wrapped, and
nothing else differs.

References that a word can hold have different words. Every word is the word of the reference that
it reads as, but for the stray words, which read as nil.

So where the slots of a list are moved as words, to a copy of another size or to other objects, each
of them keeps its word. Where they are read as items and a new list is made of these, the new list
has the same items, and exactly those slots keep their words that hold references. -/
theorem references_and_words_convert {a : Arena} {hs : List Handle} (ht : a.Tiled hs) :
    (∀ h ∈ hs, ∃ n, a.payloadWords h = .ok n ∧
      ∀ i < n, ∀ r : Ref, (∀ g, r = .obj g → g.index < 1073741824) →
        ∃ b, setField h i r a = .ok () b ∧ a.Stowed hs h i r b) ∧
    (∀ r q : Ref, r.Canonical → q.Canonical → r.toWord = q.toWord → r = q) ∧
    (∀ w : Word, if w.Stray then Ref.ofWord w = .nil else (Ref.ofWord w).toWord = w) ∧
    ∀ h ∈ hs, a.classOf h = .ok .list → ∃ items, ListObject.items a h = .ok items ∧
      (∀ n fill, a.used + (n + 1) < a.capacity →
        ∃ b, grow h n fill a = .ok ⟨a.used⟩ b ∧ b.classOf ⟨a.used⟩ = .ok .list ∧
          ∀ j < items.length, 1 + j < n → a.SameWord h (1 + j) b ⟨a.used⟩ (1 + j)) ∧
      (∀ g ∈ hs, ∃ m, a.payloadWords g = .ok m ∧ ∀ start, start + items.length ≤ m →
        ∃ b, copyFields h 1 g start items.length a = .ok () b ∧
          ∀ j < items.length, a.SameWord h (1 + j) b g (start + j)) ∧
      (a.used + (items.length + 2) < a.capacity →
        ∃ b, ListObject.ofItems items a = .ok ⟨a.used⟩ b ∧ b.classOf ⟨a.used⟩ = .ok .list ∧
          ListObject.items b ⟨a.used⟩ = .ok items ∧
          ∀ j < items.length,
            a.SameWord h (1 + j) b ⟨a.used⟩ (1 + j) ↔ a.HoldsRef h (1 + j)) := by
  refine ⟨fun h hh => ?_, fun r q hr hq => Ref.toWord_injective hr hq, fun w => ?_,
    fun h hh hcls => ?_⟩
  · exact ⟨_, payloadWords_eq (ht.holds hh), fun i hi r hr => setField_stows ht hh hi hr⟩
  · split
    · next hstray => exact Ref.ofWord_of_stray hstray
    · next hback => exact Ref.toWord_ofWord hback
  · have hold := ht.holds hh
    have hlist := (classOf_eq_ok_iff hold).mp hcls
    have hlen := (a.view h).length_items
    refine ⟨_, ListObject.items_eq hold, fun n fill hroom => ?_, fun g hg => ?_,
      ofItems_slots ht hh⟩
    · rw [hlen, ← hlist]
      exact grow_slots ht hh n fill hroom
    · refine ⟨_, payloadWords_eq (ht.holds hg), fun start hroom => ?_⟩
      rw [hlen] at hroom ⊢
      exact copyFields_slots ht hh hg hroom

/-- A list has an integer in its first slot, that wrapped, and a stray word in its second one. A
larger copy has the same two words. A list that is made of the items has the first one only. -/
theorem conversions_in_list :
    ∃ a, Reached a [⟨⟨0⟩, .list, 3⟩] ∧
      (∃ b, setField ⟨0⟩ 1 (.int 1073741824) a = .ok () b ∧
        b.field ⟨0⟩ 1 = .ok (.int (-1073741824))) ∧
      ListObject.items a ⟨0⟩ = .ok [.int (-1073741824), .nil] ∧
      (∃ b, grow ⟨0⟩ 5 .nil a = .ok ⟨4⟩ b ∧
        a.SameWord ⟨0⟩ 1 b ⟨4⟩ 1 ∧ a.SameWord ⟨0⟩ 2 b ⟨4⟩ 2) ∧
      ∃ b, ListObject.ofItems [.int (-1073741824), .nil] a = .ok ⟨4⟩ b ∧
        a.SameWord ⟨0⟩ 1 b ⟨4⟩ 1 ∧ ¬ a.SameWord ⟨0⟩ 2 b ⟨4⟩ 2 := by
  have h0 := Reached.start 16 .panic
  have h1 := Reached.make (.object .list 3 (.int 2)) h0 rfl
  have h2 := Reached.edit (.field 1 (.int 1073741824)) h1 List.mem_cons_self
    (fun g hg => by cases hg) rfl
  have h3 := Reached.edit (.word 2 12) h2 List.mem_cons_self (fun g hg => by cases hg) rfl
  have hmem : (⟨0⟩ : Handle) ∈ [(⟨0⟩ : Handle)] := List.mem_cons_self
  obtain ⟨hstore, _, _, hlists⟩ := references_and_words_convert h3.accounted.tiled
  obtain ⟨_, hitems, hgrow, _, hmake⟩ := hlists ⟨0⟩ hmem rfl
  cases hitems
  refine ⟨_, h3, ?_, rfl, ?_, ?_⟩
  · obtain ⟨_, hsize, hfield⟩ := hstore ⟨0⟩ hmem
    cases hsize
    obtain ⟨b, hrun, hstowed⟩ := hfield 1 (by decide) (.int 1073741824) (fun g hg => by cases hg)
    exact ⟨b, hrun, hstowed.field⟩
  · obtain ⟨b, hrun, _, hsame⟩ := hgrow 5 .nil (by decide)
    exact ⟨b, hrun, hsame 0 (by decide) (by decide), hsame 1 (by decide) (by decide)⟩
  · obtain ⟨b, hrun, _, _, hsame⟩ := hmake (by decide)
    refine ⟨b, hrun, (hsame 0 (by decide)).mpr ⟨.int 1073741824, rfl⟩, fun hsecond => ?_⟩
    obtain ⟨r, hr⟩ := (hsame 1 (by decide)).mp hsecond
    have hstray : Word.Stray 12 := by decide
    exact Ref.not_stray_toWord r (Except.ok.inj hr ▸ hstray)

end ObjectMemory
