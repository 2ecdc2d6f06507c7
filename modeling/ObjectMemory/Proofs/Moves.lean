import ObjectMemory.Proofs.Invocation
import ObjectMemory.Proofs.Sequences
import ObjectMemory.Proofs.SmallNumbers

/-!
# Moves of words

Words are moved within an object, or from one object to another, all at once: each target word
becomes what its source word was before the move, also where the two ranges overlap, in whichever
direction. `moves_are_simultaneous` says so, when a move is refused, and what a list looks like
after an item was deleted by such a move.

`Arena.ChangedOnly` is what a store into some words of an object leaves alone: every header, every
other payload word of every object, and every other word of the arena.

Starts and lengths are any numbers, also those whose sum takes more than 64 bits. Such a sum names
no range that an object has, and the move is refused like any other one out of range; that the stop
is `Stop.overflow` then is the way of a build with overflow checks (see `Size`).
-/

namespace ObjectMemory

namespace Arena

variable {a b : Arena} {g h : Handle} {hs : List Handle} {ws : List Word}

/-! ## Words by what the objects show -/

/-- A payload word is one that the object shows, and any other is refused. -/
theorem payloadWord_view (hh : a.Holds h) (i : Nat) :
    a.payloadWord h i =
      ((a.view h).words[i]?).elim (.error (.payloadIndex i h)) Except.ok := by
  rw [payloadWord_of_holds hh, getElem?_view hh]
  split <;> rfl

theorem payloadWord_eq_ok_iff (hh : a.Holds h) {i : Nat} {w : Word} :
    a.payloadWord h i = .ok w ↔ (a.view h).words[i]? = some w := by
  rw [payloadWord_view hh]
  cases (a.view h).words[i]? with
  | none => exact ⟨nofun, nofun⟩
  | some v => exact ⟨fun heq => congrArg some (Except.ok.inj heq), fun heq => by cases heq; rfl⟩

/-! ## What is left alone -/

/-- Nothing differs but payload words of the object `h`, and of these only those whose numbers are
in `changed`. The other objects are `hs`. -/
structure ChangedOnly (a : Arena) (hs : List Handle) (h : Handle) (changed : Nat → Prop)
    (b : Arena) : Prop extends a.WroteIn h b where
  headers : ∀ g ∈ hs, b.header g = a.header g
  words : ∀ g ∈ hs, ∀ i, (g = h → ¬ changed i) → b.payloadWord g i = a.payloadWord g i
  cells : ∀ k, (∀ i, changed i → k ≠ h.index + 1 + i) → b.cell k = a.cell k

/-- An object of a tiling has a header, which a store into one of them leaves alone. -/
theorem Tiled.wrote_headers (ht : a.Tiled hs) (hh : h ∈ hs) (hg : g ∈ hs) (hw : a.WroteIn h b) :
    b.header g = a.header g := by
  rw [header_of_holds ((ht.wrote hh hw).holds hg), header_of_holds (ht.holds hg),
    ht.wrote_header hh hg hw]

/-- **A store that keeps some words of a row changes the others only.** -/
theorem Stored.changedOnly (ht : a.Tiled hs) (hh : h ∈ hs) (hst : a.Stored h ws b)
    {changed : Nat → Prop} (hsame : ∀ i, ¬ changed i → ws[i]? = (a.view h).words[i]?) :
    a.ChangedOnly hs h changed b := by
  have hold := ht.holds hh
  have hnew := hst.holds hold
  have hw := hst.toWroteIn
  have hrow : ∀ i, ¬ changed i → (b.view h).words[i]? = (a.view h).words[i]? := by
    intro i hi
    rw [hst.words, hsame i hi]
  refine { toWroteIn := hw, headers := fun g hg => ht.wrote_headers hh hg hw,
           words := fun g hg i hi => ?_, cells := fun k hk => ?_ }
  · rw [payloadWord_view ((ht.wrote hh hw).holds hg), payloadWord_view (ht.holds hg)]
    by_cases hgh : g = h
    · subst hgh
      rw [hrow i (hi rfl)]
    · rw [ht.view_other hh hg hgh hw]
  · have hget : b.store.get k = a.store.get k := by
      by_cases hin : h.index < k ∧ k < a.store.after h.index
      · -- a word of the object, which is one of those that the row keeps
        rw [Store.after_eq] at hin
        obtain ⟨i, rfl⟩ : ∃ i, k = h.index + 1 + i := ⟨k - (h.index + 1), by omega⟩
        have hi : i < a.store.wordsAt h.index := by omega
        have hkept := hrow i fun hchanged => hk i hchanged rfl
        rw [getElem?_view_of_lt hold hi, getElem?_view_of_lt hnew (hw.wordsAt ▸ hi)] at hkept
        exact Option.some.inj hkept
      · exact hw.get k hin
    rw [cell, cell, hw.capacity, hget]

/-- A splice keeps the entries that lie outside its range. -/
theorem getElem?_splice_outside {α : Type} {l part : List α} {i n k : Nat} (hlen : part.length = n)
    (hfits : i + n ≤ l.length) (hout : ¬ (i ≤ k ∧ k < i + n)) : (splice l i part)[k]? = l[k]? := by
  subst hlen
  rw [getElem?_splice hfits, if_neg hout]

/-! ## Moves -/

/-- Payload word `k` of the object `g` in the arena `b` is payload word `i` of `h` in `a`. -/
def SameWord (a : Arena) (h : Handle) (i : Nat) (b : Arena) (g : Handle) (k : Nat) : Prop :=
  ∃ w, a.payloadWord h i = .ok w ∧ b.payloadWord g k = .ok w

/-- The arena `b` is `a` after `n` words were moved at once, from one object to another or within
one: each target word is what its source word was. -/
structure Moved (a : Arena) (hs : List Handle) (source : Handle) (sourceStart : Nat)
    (target : Handle) (targetStart n : Nat) (b : Arena) : Prop
    extends a.ChangedOnly hs target (fun i => targetStart ≤ i ∧ i < targetStart + n) b where
  moved : ∀ j < n, a.SameWord source (sourceStart + j) b target (targetStart + j)

theorem copyFields_moves (ht : a.Tiled hs) (hg : g ∈ hs) (hh : h ∈ hs)
    {sourceStart targetStart n : Nat} (hsource : sourceStart + n ≤ (a.view g).words.length)
    (htarget : targetStart + n ≤ (a.view h).words.length) :
    ∃ b, copyFields g sourceStart h targetStart n a = .ok () b ∧
      a.Moved hs g sourceStart h targetStart n b := by
  have holdG := ht.holds hg
  have holdH := ht.holds hh
  obtain ⟨b, hrun, hst⟩ := copyFields_stored holdG holdH (Or.inr ⟨hsource, htarget⟩)
  have hlen : (((a.view g).words.drop sourceStart).take n).length = n := by
    rw [List.length_take, List.length_drop]
    omega
  have hchanged : a.ChangedOnly hs h (fun i => targetStart ≤ i ∧ i < targetStart + n) b :=
    hst.changedOnly ht hh fun i hi => getElem?_splice_outside hlen htarget hi
  refine ⟨b, hrun, { hchanged with moved := fun j hj => ?_ }⟩
  -- the target holds the part that the source showed before the move
  have hin : sourceStart + j < (a.view g).words.length := by omega
  refine ⟨_, (payloadWord_eq_ok_iff holdG).mpr (List.getElem?_eq_getElem hin), ?_⟩
  rw [payloadWord_eq_ok_iff (hst.holds holdH), hst.words,
    getElem?_splice (by rw [hlen]; exact htarget), hlen, if_pos (by omega),
    Nat.add_sub_cancel_left, List.getElem?_take_of_lt hj, List.getElem?_drop,
    List.getElem?_eq_getElem hin]

/-- A move that is out of range is refused for a sum that is too large or for the range itself. The
source comes first. -/
theorem moveStop_of_out {sourceStart sourceWords targetStart targetWords n : Nat}
    (hout : ¬ (sourceStart + n ≤ sourceWords ∧ targetStart + n ≤ targetWords)) :
    moveStop sourceStart sourceWords targetStart targetWords n =
      some (if Size.largest < sourceStart + n ∨
          sourceStart + n ≤ sourceWords ∧ Size.largest < targetStart + n
        then .overflow else .badRange) := by
  unfold moveStop
  by_cases hsumS : Size.largest < sourceStart + n
  · rw [if_pos hsumS, if_pos (Or.inl hsumS)]
  · rw [if_neg hsumS]
    by_cases hsource : sourceWords < sourceStart + n
    · rw [if_pos hsource, if_neg (by omega)]
    · rw [if_neg hsource]
      by_cases hsumT : Size.largest < targetStart + n
      · rw [if_pos hsumT, if_pos (Or.inr ⟨Nat.not_lt.mp hsource, hsumT⟩)]
      · rw [if_neg hsumT, if_pos (by omega), if_neg (by omega)]

/-! ## Deleting an item -/

/-- The arena `b` is `a` after item `i` of a list was deleted, that had these items. -/
structure Deleted (a : Arena) (hs : List Handle) (h : Handle) (items : List Ref) (i : Nat)
    (b : Arena) : Prop
    extends a.ChangedOnly hs h (fun k => k = 0 ∨ i ≤ k ∧ k ≤ items.length) b where
  items : ListObject.items b h = .ok (items.take (i - 1) ++ items.drop i)

/-- Where an item is deleted, the words before its place and those of the spare slots stay, the
count apart. -/
theorem getElem?_without {words : List Word} {i n k : Nat} (hi : 1 ≤ i ∧ i ≤ n)
    (hn : n < words.length) (hk : ¬ (k = 0 ∨ i ≤ k ∧ k ≤ n)) :
    (Content.without words i n)[k]? = words[k]? := by
  have hlen : ((words.drop (i + 1)).take (n - i)).length = n - i := by
    rw [List.length_take, List.length_drop]
    omega
  rw [Content.without, Content.restated, List.getElem?_set_ne (by omega),
    List.getElem?_set_ne (by omega), getElem?_splice_outside hlen (by omega) (by omega)]

theorem plan_delete_index {v : View} (hcls : (v h).cls = .list) (i : Int) :
    Plan.delete v (.obj h) (.int i) =
      if 1 ≤ i ∧ i ≤ (v h).count then
        .give (.rewrite h (Content.without (v h).words i.toNat (v h).count) .false)
      else .refuse .indexOutOfRange := by
  rw [Plan.delete, View.list?, View.named?_eq_some.mpr ⟨rfl, hcls⟩]
  rfl

/-- A list that holds the words without item `i` has the items without it. -/
theorem Stored.deleted (ht : a.Tiled hs) (hh : h ∈ hs) {i : Nat}
    (hi : 1 ≤ i ∧ i ≤ (a.view h).count)
    (hst : a.Stored h (Content.without (a.view h).words i (a.view h).count) b) :
    a.Deleted hs h (a.view h).items i b := by
  have hold := ht.holds hh
  have hsize : (a.view h).words.length ≤ maxArenaWords :=
    Nat.le_trans (ht.fitsHeaders h hh) (by decide)
  have hroom : (a.view h).count < (a.view h).words.length :=
    (a.view h).place_lt (Nat.le_trans hi.1 hi.2) (Nat.le_refl _)
  have hchanged : a.ChangedOnly hs h
      (fun k => k = 0 ∨ i ≤ k ∧ k ≤ (a.view h).items.length) b := by
    refine hst.changedOnly ht hh fun k hk => ?_
    rw [(a.view h).length_items] at hk
    exact getElem?_without hi hroom hk
  refine { hchanged with items := ?_ }
  have hsequence : (b.view h).sequence =
      ⟨(a.view h).items.eraseIdx (i - 1), (a.view h).words.length - 1⟩ := by
    rw [hst.view_eq hold]
    exact Content.sequence_without hi hroom hsize
  rw [ListObject.items_eq (hst.holds hold)]
  refine congrArg Except.ok ((congrArg Sequence.items hsequence).trans ?_)
  dsimp only
  rw [List.eraseIdx_eq_take_drop_succ, Nat.sub_add_cancel hi.1]

end Arena

open Arena

/-- **Words are moved all at once.** Where the used words are tiled by the objects that were issued,
as they are after every run (`Reached.accounted`, `Course.accounted`), words can be moved from each
of these objects to each, also within one object.

A move of no words does nothing, wherever it starts. Any other one is carried out if both objects
have its range. Then each target word is what its source word was before the move, also where the
two ranges overlap, in either direction, and nothing else differs. If not both have it, the move is
refused with nothing changed: for a sum of start and length that 64 bits do not hold, the source's
first and the target's only if the source has its range, and else for the range.

So to delete item `i` of a list leaves exactly the items before it and those after it, in order, and
a place that has no item is refused. -/
theorem moves_are_simultaneous {a : Arena} {hs : List Handle} (ht : a.Tiled hs) :
    (∀ source ∈ hs, ∀ target ∈ hs, ∀ sourceStart targetStart n,
      ∃ sourceWords targetWords,
        a.payloadWords source = .ok sourceWords ∧ a.payloadWords target = .ok targetWords ∧
        if n = 0 then copyFields source sourceStart target targetStart n a = .ok () a
        else if sourceStart + n ≤ sourceWords ∧ targetStart + n ≤ targetWords then
          ∃ b, copyFields source sourceStart target targetStart n a = .ok () b ∧
            a.Moved hs source sourceStart target targetStart n b
        else
          copyFields source sourceStart target targetStart n a =
            .error
              (if Size.largest < sourceStart + n ∨
                  sourceStart + n ≤ sourceWords ∧ Size.largest < targetStart + n
                then .overflow else .badRange)
              a) ∧
    ∀ h ∈ hs, a.classOf h = .ok .list → ∀ (i : Int) (s : Source),
      ∃ items, ListObject.items a h = .ok items ∧
        if 1 ≤ i ∧ i ≤ items.length then
          ∃ b, ListObject.delete (.obj h) (.int i) ⟨a, s⟩ = .ok .false ⟨b, s⟩ ∧
            a.Deleted hs h items i.toNat b
        else ListObject.delete (.obj h) (.int i) ⟨a, s⟩ =
          .error (.failure .indexOutOfRange) ⟨a, s⟩ := by
  refine ⟨fun source hsource target htarget sourceStart targetStart n => ?_,
    fun h hh hcls i s => ?_⟩
  · have holdS := ht.holds hsource
    have holdT := ht.holds htarget
    have hrun := copyFields_of_holds holdS holdT sourceStart targetStart n
    rw [← length_view holdS, ← length_view holdT] at hrun
    refine ⟨_, _, payloadWords_eq holdS, payloadWords_eq holdT, ?_⟩
    by_cases hzero : n = 0
    · rw [if_pos hzero] at hrun ⊢
      exact hrun
    · rw [if_neg hzero] at hrun ⊢
      split
      · next hfits => exact copyFields_moves ht hsource htarget hfits.1 hfits.2
      · next hrange => rwa [moveStop_of_out hrange] at hrun
  · have hold := ht.holds hh
    have hlist : (Context.mk a s).arena.Knows (.obj h) := ht.knows (among_obj.mpr hh)
    have hplace : (Context.mk a s).arena.Knows (.int i) :=
      ht.knows (among_of_obj? (rfl : (Ref.int i).obj? = none) hs)
    have hcarries := delete_carries hlist hplace
    rw [plan_delete_index ((classOf_eq_ok_iff hold).mp hcls)] at hcarries
    refine ⟨_, ListObject.items_eq hold, ?_⟩
    rw [(a.view h).length_items]
    split
    · next hi =>
      rw [if_pos hi] at hcarries
      obtain ⟨b, hrun, hst⟩ := carries_effect.mp hcarries
      exact ⟨b, hrun, hst.deleted ht hh (by omega)⟩
    · next hi => rwa [if_neg hi] at hcarries

/-- In a list of three items, words are moved down by one and up by one, each time over words that
are moved themselves. A move of no words from beyond the list does nothing. One that ends beyond it
is refused, also a move to the largest place that 64 bits can name. Without its second item the list
has the other two. -/
theorem moves_within_list :
    ∃ a, Reached a [⟨⟨0⟩, .list, 5⟩] ∧
      (∃ b, copyFields ⟨0⟩ 1 ⟨0⟩ 0 4 a = .ok () b ∧ a.Moved [⟨0⟩] ⟨0⟩ 1 ⟨0⟩ 0 4 b) ∧
      (∃ b, copyFields ⟨0⟩ 0 ⟨0⟩ 1 4 a = .ok () b ∧ a.Moved [⟨0⟩] ⟨0⟩ 0 ⟨0⟩ 1 4 b) ∧
      copyFields ⟨0⟩ 9 ⟨0⟩ 9 0 a = .ok () a ∧
      copyFields ⟨0⟩ 0 ⟨0⟩ 2 4 a = .error .badRange a ∧
      copyFields ⟨0⟩ 0 ⟨0⟩ 18446744073709551615 1 a = .error .overflow a ∧
      ∃ b, ListObject.delete (.obj ⟨0⟩) (.int 2) ⟨a, Source.ofList []⟩ =
          .ok .false ⟨b, Source.ofList []⟩ ∧
        ListObject.items b ⟨0⟩ = .ok [.true, .int 7] := by
  have h0 := Reached.start 16 .panic
  have h1 := Reached.make (.object .list 5 (.int 7)) h0 rfl
  have h2 := Reached.edit (.field 0 (.int 3)) h1 List.mem_cons_self (fun g hg => by cases hg) rfl
  have h3 := Reached.edit (.field 1 .true) h2 List.mem_cons_self (fun g hg => by cases hg) rfl
  have h4 := Reached.edit (.field 2 .nil) h3 List.mem_cons_self (fun g hg => by cases hg) rfl
  have hmem : (⟨0⟩ : Handle) ∈ [(⟨0⟩ : Handle)] := List.mem_cons_self
  obtain ⟨hmoves, hdeletes⟩ := moves_are_simultaneous h4.accounted.tiled
  refine ⟨_, h4, ?_, ?_, ?_, ?_, ?_, ?_⟩
  · obtain ⟨_, _, hs, ht, hif⟩ := hmoves ⟨0⟩ hmem ⟨0⟩ hmem 1 0 4
    cases hs
    cases ht
    exact hif
  · obtain ⟨_, _, hs, ht, hif⟩ := hmoves ⟨0⟩ hmem ⟨0⟩ hmem 0 1 4
    cases hs
    cases ht
    exact hif
  · obtain ⟨_, _, _, _, hif⟩ := hmoves ⟨0⟩ hmem ⟨0⟩ hmem 9 9 0
    exact hif
  · obtain ⟨_, _, hs, ht, hif⟩ := hmoves ⟨0⟩ hmem ⟨0⟩ hmem 0 2 4
    cases hs
    cases ht
    exact hif
  · obtain ⟨_, _, hs, ht, hif⟩ := hmoves ⟨0⟩ hmem ⟨0⟩ hmem 0 18446744073709551615 1
    cases hs
    cases ht
    exact hif
  · obtain ⟨_, hitems, hif⟩ := hdeletes ⟨0⟩ hmem rfl 2 (Source.ofList [])
    cases hitems
    obtain ⟨b, hrun, hdeleted⟩ := hif
    exact ⟨b, hrun, hdeleted.items⟩

end ObjectMemory
