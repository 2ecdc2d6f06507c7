import ObjectMemory.Proofs.Issues
import ObjectMemory.Proofs.SmallNumbers

/-!
# Copies of another size

An object cannot change its size, so what needs another one is copied. The old object and its
copy lie in one row of words, and the words are carried over by index. `Arena.Copied` says what
may differ afterwards: the words of the copy, five numbers and the journal. Every other word, below
the copy or beyond it, is as it was, also when the copy is smaller than the old object.

A copy that does not fit is refused before anything is written, with a report of the want of room:
`copies_keep_old_words`. There is one size without such a report, the largest that 64 bits hold. It
has no successor for the header, so that the sum stops the run before room is looked for:
`copy_of_largest_size`.
-/

namespace ObjectMemory

namespace Arena

variable {a b : Arena} {h : Handle} {hs : List Handle} {n : Nat} {fill : Word}

/-- The arena `b` is `a` with a copy of the object `h` at the boundary. The object has class `c` and
`old` payload words, the copy has `n` of them. -/
structure Copied (a : Arena) (h : Handle) (c : ObjClass) (old n : Nat) (fill : Word)
    (b : Arena) : Prop where
  cls : b.classOf ⟨a.used⟩ = .ok c
  size : b.payloadWords ⟨a.used⟩ = .ok n
  /-- The words that both have are the same. -/
  kept : ∀ i, i < min old n →
    ∃ w, a.payloadWord h i = .ok w ∧ b.payloadWord ⟨a.used⟩ i = .ok w
  /-- Further ones are filled. -/
  filled : ∀ i, old ≤ i → i < n → b.payloadWord ⟨a.used⟩ i = .ok fill
  below : ∀ i, i < a.used → b.cell i = a.cell i
  beyond : ∀ i, b.used ≤ i → b.cell i = a.cell i
  used : b.used = a.used + (n + 1)
  capacity : b.capacity = a.capacity
  action : b.onExhaustion = a.onExhaustion
  counters : b.counters =
    { peak := max a.counters.peak b.used
      allocations := a.counters.allocations + 1
      relocations := a.counters.relocations + 1
      relocatedWords := a.counters.relocatedWords + (n + 1)
      resets := a.counters.resets }
  journal : b.journal =
    (a.journal.push (.allocated a.used c n)).push (.relocated h.index a.used old n)

/-- A class that was read from a header is kept by the next one. -/
theorem stored_cls (header : Header) : header.cls.stored = header.cls := by
  unfold Header.cls ObjClass.ofTag
  split
  · rfl
  · split
    · rfl
    · split
      · rfl
      · exact congrArg ObjClass.other (Nat.mod_mod _ 16)

/-- **The words of a copy** are those of the old object as far as these go. -/
theorem Made.payloadWord_copy (hm : a.Made (.copyOf h) ⟨(a.view h).cls,
    grown (a.view h).words n fill⟩ b) {i : Nat} (hi : i < n) :
    b.payloadWord ⟨a.used⟩ i = .ok ((a.view h).words.getD i fill) := by
  have hlen : (b.view ⟨a.used⟩).words.length = n := by
    rw [hm.words]
    exact length_grown _ n fill
  rw [payloadWord_eq hm.holds_new (hlen ▸ hi), hm.words, List.getD_eq_getElem?_getD]
  dsimp only
  rw [getElem?_grown hi, Option.getD_some]

/-- Words that are not those of the new object read as before. -/
theorem Gained.cell {cls : ObjClass} (hg : a.Gained cls n b) {i : Nat}
    (hi : i < a.used ∨ b.used ≤ i) : b.cell i = a.cell i := by
  have hused := hg.used
  rw [Arena.cell, Arena.cell, hg.capacity, hg.get i (by omega)]

theorem Made.copied (hh : a.Holds h) (hm : a.Made (.copyOf h) ⟨(a.view h).cls,
    grown (a.view h).words n fill⟩ b) :
    a.Copied h (a.view h).cls (a.view h).words.length n fill b := by
  have hlen := length_grown (a.view h).words n fill
  have hwords : (b.view ⟨a.used⟩).words.length = n := by
    rw [hm.words]
    exact hlen
  have hused : b.used = a.used + (n + 1) := by
    rw [hm.used]
    dsimp only
    omega
  have hcounters := hm.counters
  have hjournal := hm.journal
  dsimp only at hcounters hjournal
  rw [hlen] at hcounters hjournal
  refine
    { cls := ?_, size := ?_, kept := fun i hi => ?_, filled := fun i hlo hhi => ?_,
      below := fun i hi => hm.cell (Or.inl hi), beyond := fun i hi => hm.cell (Or.inr hi),
      used := hused, capacity := hm.capacity, action := hm.action, counters := ?_, journal := ?_ }
  · rw [classOf_eq hm.holds_new, hm.view_new, view_of_holds hh]
    exact congrArg Except.ok (stored_cls _)
  · rw [payloadWords_eq hm.holds_new, hwords]
  · have hold : i < (a.view h).words.length := by omega
    refine ⟨_, payloadWord_eq hh hold, ?_⟩
    rw [hm.payloadWord_copy (by omega), List.getD_eq_getElem?_getD, List.getD_eq_getElem?_getD,
      List.getElem?_eq_getElem hold]
    rfl
  · rw [hm.payloadWord_copy hhi, List.getD_eq_getElem?_getD, List.getElem?_eq_none hlo]
    rfl
  · rw [hcounters, hused, Nat.add_comm n 1]
    rfl
  · rw [hjournal]
    rfl

end Arena

open Arena

/-- **A copy leaves every old word in its place.** Where the used words are tiled by the objects
that were issued, as they are after every run (`Reached.accounted`, `Course.accounted`), each of
these objects can be copied to each size, a smaller or larger one, its own or none at all. The copy
starts at the boundary, has the object's class and the size that was asked for, carries the words
that both sizes have and is filled up with `fill`. No other word changes, the copy is the next of
the issued objects, and its words, the header included, are counted as used and as moved. Without
room for it, and one more word, the copy is refused with every word and every number as it was.

The refusal is a report of the want of room, with what would be used as far as 64 bits can tell it.
Only a size that 64 bits do not hold together with the header is refused without a report. -/
theorem copies_keep_old_words {a : Arena} {hs : List Handle} (ht : a.Tiled hs) {h : Handle}
    (hh : h ∈ hs) (n : Nat) (fill : Ref) :
    ∃ cls old, a.classOf h = .ok cls ∧ a.payloadWords h = .ok old ∧
      if a.used + (n + 1) < a.capacity then
        ∃ b, grow h n fill a = .ok ⟨a.used⟩ b ∧ a.Copied h cls old n fill.toWord b ∧
          b.Tiled (hs ++ [⟨a.used⟩])
      else if n + 1 ≤ Size.largest then
        grow h n fill a =
          .error (.exhausted a.onExhaustion (min (a.used + (n + 1)) Size.largest) a.capacity)
            { a with journal := a.journal.push (.exhausted a.used (n + 1) a.capacity) }
      else grow h n fill a = .error .overflow a := by
  have hholds := ht.holds hh
  have hfits : a.Fits n ↔ a.used + (n + 1) < a.capacity := by
    rw [ht.fits_iff, Nat.add_comm n 1]
  refine ⟨_, _, classOf_eq hholds, payloadWords_eq hholds, ?_⟩
  split
  · next hroom =>
    have hlen := length_grown (a.view h).words n fill.toWord
    have hroomy := hfits.mpr hroom
    obtain ⟨b, hrun, hmade⟩ := (grow_makes hholds hroomy.sized fill).of_fits (hlen.symm ▸ hroomy)
    exact ⟨b, hrun, hmade.copied hholds, ht.gained hmade.toGained⟩
  · next hfull =>
    rw [Nat.add_comm n 1]
    split
    · next hsize =>
      rw [grow_eq hholds hsize, if_neg fun hf => hfull (hfits.mp hf)]
      rfl
    · next hsize => exact grow_of_lt hholds (Nat.not_le.mp hsize) fill

/-- A record of two words is copied to a record without any and to one of three words. A copy of
58 words would end with the last word of the arena, which stays free. -/
theorem copies_of_record :
    ∃ a, Reached a [⟨⟨0⟩, .other 9, 2⟩, ⟨⟨3⟩, .string, 1⟩] ∧
      (∃ b, grow ⟨0⟩ 0 .nil a = .ok ⟨5⟩ b ∧ a.Copied ⟨0⟩ (.other 9) 2 0 Ref.nil.toWord b) ∧
      (∃ b, grow ⟨0⟩ 3 (.int 7) a = .ok ⟨5⟩ b ∧ a.Copied ⟨0⟩ (.other 9) 2 3 (Ref.int 7).toWord b) ∧
      ∃ d, grow ⟨0⟩ 58 .nil a = .error (.exhausted .panic 64 64) d ∧ d.store = a.store := by
  have h0 := Reached.start 64 .panic
  have h1 := Reached.make (.object (.other 9) 2 .nil) h0 rfl
  have h2 := Reached.make (.string [97, 98, 99]) h1 rfl
  have ht := h2.accounted.tiled
  have hmem : (⟨0⟩ : Handle) ∈ [(⟨0⟩ : Handle), ⟨3⟩] := List.mem_cons_self
  refine ⟨_, h2, ?_, ?_, ?_⟩
  · obtain ⟨cls, old, hcls, hold, hif⟩ := copies_keep_old_words ht hmem 0 .nil
    cases hcls
    cases hold
    obtain ⟨b, hrun, hcopied, _⟩ := hif
    exact ⟨b, hrun, hcopied⟩
  · obtain ⟨cls, old, hcls, hold, hif⟩ := copies_keep_old_words ht hmem 3 (.int 7)
    cases hcls
    cases hold
    obtain ⟨b, hrun, hcopied, _⟩ := hif
    exact ⟨b, hrun, hcopied⟩
  · obtain ⟨_, _, _, _, hif⟩ := copies_keep_old_words ht hmem 58 .nil
    exact ⟨_, hif, rfl⟩

/-- A copy of the largest size that 64 bits hold does not fit, but is refused without a report. -/
theorem copy_of_largest_size :
    ∃ a, Reached a [⟨⟨0⟩, .other 9, 2⟩] ∧
      (∀ action demand capacity b, grow ⟨0⟩ 18446744073709551615 .nil a ≠
        .error (.exhausted action demand capacity) b) ∧
      grow ⟨0⟩ 18446744073709551615 .nil a = .error .overflow a := by
  have h1 := Reached.make (.object (.other 9) 2 (.int 1000)) (Reached.start 16 .panic) rfl
  have hholds := h1.accounted.tiled.holds (h := ⟨0⟩) List.mem_cons_self
  have hgrow : grow ⟨0⟩ 18446744073709551615 .nil _ = _ := grow_of_lt hholds (by decide) .nil
  refine ⟨_, h1, fun action demand capacity b heq => ?_, hgrow⟩
  rw [hgrow] at heq
  cases heq

end ObjectMemory
