import ObjectMemory.Proofs.Capacities
import ObjectMemory.Proofs.Invocation
import ObjectMemory.Proofs.Sequences

/-!
# Appending item after item

A program makes a list and appends items to it, each to the list that the call before gave. What
comes of it depends on the number of items only: how often the list moves and how many slots it
has in the end (`moves`, `capacityAfter`), and how many words that takes up (`movedWords`).

`Arena.Collected` says so of an arena in which some items were appended. One call keeps it
(`Arena.Collected.append`), and so does a row of calls (`Arena.Collected.appendAll`), unless there
is no room for the words that the moves take up. The items are all there in the end, however often
they moved: `appended_list_moves_when_full`.

The words of all moves are linear in the number of items as long as the list grows by a third of
its size, and no longer then: `moved_words_grow_with_square`.
-/

namespace ObjectMemory

open ListObject (capacityAfter moves movedWords movedWords_mono moves_mono)

/-- Appends items, each to the list that the call before gave. -/
def appendAll : (list : Ref) → (items : List Ref) → PrimM Ref
  | list, [] => pure list
  | list, item :: rest => do
    let next ← Primitive.invoke "addLast" [item, list]
    appendAll next rest

/-- What words keep of the items of a list. -/
def storedItems (items : List Ref) : List Ref :=
  items.map fun r => Ref.ofWord r.toWord

theorem length_storedItems (items : List Ref) : (storedItems items).length = items.length :=
  List.length_map ..

theorem storedItems_of_canonical {items : List Ref} (hitems : ∀ r ∈ items, r.Canonical) :
    storedItems items = items := by
  refine (List.map_congr_left fun r hr => ?_).trans (List.map_id items)
  exact Ref.ofWord_toWord (hitems r hr)

/-! ## One call -/

section Calls

variable {a b d : Arena} {h : Handle} {items : List Ref}

/-- **An item is stored into a list that has a free slot**, and into a larger copy of one that has
none. -/
theorem invoke_addLast (hh : a.Holds h) (hcls : (a.view h).cls = .list) (s : Source) (item : Ref) :
    Effect.Performed
      (if (a.view h).capacity ≤ (a.view h).count then
        .make (.largerList h) ⟨.list, Content.appended (a.view h).enlarged (a.view h).count item⟩
      else .rewrite h (Content.appended (a.view h).words (a.view h).count item) (.obj h))
      a s (Primitive.invoke "addLast" [item, .obj h] ⟨a, s⟩) := by
  have hknows : a.Knows (.obj h) := by
    rintro g ⟨⟩
    exact hh
  have hcarries : Carries (Primitive.invoke "addLast" [item, .obj h])
      (Plan.addLast a.view (.obj h) item) ⟨a, s⟩ := addLast_carries (c := ⟨a, s⟩) hknows item
  have hlist : a.view.list? (.obj h) = some h := View.named?_eq_some.mpr ⟨rfl, hcls⟩
  rw [← carries_effect (c := ⟨a, s⟩), apply_ite Plan.give]
  rw [Plan.addLast, hlist] at hcarries
  exact hcarries

/-- In the arena `b` the list at `h` has the items. They were appended, one after the other, to a
list that was made empty in the arena `a`. -/
structure Arena.Collected (a : Arena) (h : Handle) (items : List Ref) (b : Arena) : Prop where
  holds : b.Holds h
  cls : (b.view h).cls = .list
  sequence : (b.view h).sequence = ⟨items, capacityAfter (moves items.length)⟩
  size : (b.view h).words.length ≤ maxArenaWords
  room : b.used < b.capacity
  used : b.used = a.used + movedWords (moves items.length)
  capacity : b.capacity = a.capacity
  action : b.onExhaustion = a.onExhaustion
  relocations : b.counters.relocations = a.counters.relocations + moves items.length
  relocatedWords : b.counters.relocatedWords =
    a.counters.relocatedWords + movedWords (moves items.length)

/-- A list that was just made has no items. -/
theorem Arena.Made.collected (hm : a.Made .fresh ⟨.list, List.replicate 3 Content.blank⟩ b) :
    b.Collected ⟨a.used⟩ [] b where
  holds := hm.holds_new
  cls := by
    rw [hm.view_new]
    rfl
  sequence := by
    rw [hm.view_new]
    exact Content.sequence_blank 3
  size := by
    rw [hm.words]
    decide
  room := by
    rw [hm.used, hm.capacity]
    exact hm.fits.1
  used := rfl
  capacity := rfl
  action := rfl
  relocations := rfl
  relocatedWords := rfl

theorem Arena.Collected.count (hc : a.Collected h items b) : (b.view h).count = items.length := by
  rw [← Content.length_items]
  exact congrArg (List.length ∘ Sequence.items) hc.sequence

theorem Arena.Collected.slots (hc : a.Collected h items b) :
    (b.view h).capacity = capacityAfter (moves items.length) :=
  congrArg Sequence.capacity hc.sequence

/-- The items as the words keep them. -/
theorem Arena.Collected.words (hc : a.Collected h items b) :
    (((b.view h).words.drop 1).take items.length).map Ref.ofWord = items := by
  rw [← hc.count]
  exact congrArg Sequence.items hc.sequence

theorem Arena.Collected.length_enlarged (hc : a.Collected h items b) :
    (b.view h).enlarged.length = capacityAfter (moves items.length + 1) + 1 := by
  rw [ListObject.length_enlarged, hc.slots, ListObject.capacityAfter_succ]

theorem Arena.Collected.length_appended (hc : a.Collected h items b) (item : Ref) :
    (Content.appended (b.view h).enlarged items.length item).length =
      capacityAfter (moves items.length + 1) + 1 :=
  (Content.length_appended ..).trans hc.length_enlarged

/-- There was room for the words of the moves so far. -/
theorem Arena.Collected.free (hc : a.Collected h items b) :
    a.used + movedWords (moves items.length) < a.capacity := by
  rw [← hc.used, ← hc.capacity]
  exact hc.room

/-- A larger copy fits just if there is room for the words of all moves so far and of one more. -/
theorem Arena.Collected.fits_iff (hc : a.Collected h items b) (hsize : a.capacity ≤ maxArenaWords) :
    b.Fits (capacityAfter (moves items.length + 1) + 1) ↔
      a.used + movedWords (moves items.length + 1) < a.capacity := by
  unfold Fits maxPayloadWords
  unfold maxArenaWords at hsize
  rw [movedWords, hc.used, hc.capacity]
  omega

/-- An item that is stored into a free slot changes nothing else. -/
theorem Arena.Collected.stored (hc : a.Collected h items b)
    (hroom : items.length < capacityAfter (moves items.length)) {item : Ref}
    (hst : b.Stored h (Content.appended (b.view h).words items.length item) d) :
    a.Collected h (items ++ [Ref.ofWord item.toWord]) d := by
  have hslots := hc.slots
  unfold Content.capacity at hslots
  have hmoves : moves (items ++ [Ref.ofWord item.toWord]).length = moves items.length := by
    rw [List.length_append]
    exact ListObject.moves_succ_of_lt hroom
  constructor
  case holds => exact hst.holds hc.holds
  case cls => exact (hst.cls hc.holds).trans hc.cls
  case sequence =>
    rw [hst.view_eq hc.holds, Content.sequence_appended (by omega) hc.size, hc.words, hslots,
      hmoves]
  case size =>
    rw [hst.view_eq hc.holds, Content.length_appended]
    exact hc.size
  case room =>
    rw [hst.used, hst.capacity]
    exact hc.room
  case used => rw [hmoves, hst.used, hc.used]
  case capacity => exact hst.capacity.trans hc.capacity
  case action => exact hst.action.trans hc.action
  case relocations => rw [hmoves, hst.counters, hc.relocations]
  case relocatedWords => rw [hmoves, hst.counters, hc.relocatedWords]

/-- **A larger copy with one more item has all items**, and takes up the words of one more move. -/
theorem Arena.Collected.moved (hc : a.Collected h items b)
    (hfull : capacityAfter (moves items.length) ≤ items.length) {item : Ref}
    (hmade : b.Made (.largerList h)
      ⟨.list, Content.appended (b.view h).enlarged items.length item⟩ d) :
    a.Collected ⟨b.used⟩ (items ++ [Ref.ofWord item.toWord]) d := by
  have hmoves : moves (items ++ [Ref.ofWord item.toWord]).length = moves items.length + 1 := by
    rw [List.length_append]
    exact ListObject.moves_succ_of_le hfull
  have hfits := hmade.fits
  have hused := hmade.used
  have hcounters := hmade.counters
  rw [hc.length_appended] at hfits hused hcounters
  have hsmall : capacityAfter (moves items.length + 1) + 1 ≤ maxArenaWords :=
    Nat.le_succ_of_le hfits.2
  constructor
  case holds => exact hmade.holds_new
  case cls =>
    rw [hmade.view_new]
    rfl
  case sequence =>
    have hless := ListObject.capacityAfter_lt_succ (moves items.length)
    have hle := ListObject.le_capacityAfter_moves items.length
    have hlarger := hc.length_enlarged
    have hkept := Content.itemWords_enlarged (b.view h)
    have hitems : (b.view h).itemWords.map Ref.ofWord = items :=
      congrArg Sequence.items hc.sequence
    rw [hc.count] at hkept
    rw [hmade.view_new, Content.sequence_appended (by omega) (by omega), hkept, hitems, hlarger,
      hmoves]
    rfl
  case size =>
    rw [hmade.words, hc.length_appended]
    exact hsmall
  case room =>
    rw [hused, hmade.capacity]
    exact hfits.1
  case used =>
    rw [hmoves, hused, hc.used, movedWords]
    omega
  case capacity => exact hmade.capacity.trans hc.capacity
  case action => exact hmade.action.trans hc.action
  case relocations =>
    rw [hmoves, hcounters]
    exact congrArg (· + 1) hc.relocations
  case relocatedWords =>
    rw [hmoves, hcounters, movedWords]
    show b.counters.relocatedWords + _ = _
    rw [hc.relocatedWords]
    omega

/-- **One more item is appended, if there is room for the words of all moves so far.** -/
theorem Arena.Collected.append (hc : a.Collected h items b) (hsize : a.capacity ≤ maxArenaWords)
    (s : Source) (item : Ref) :
    if a.used + movedWords (moves (items.length + 1)) < a.capacity then
      ∃ g d, Primitive.invoke "addLast" [item, .obj h] ⟨b, s⟩ = .ok (.obj g) ⟨d, s⟩ ∧
        a.Collected g (items ++ [Ref.ofWord item.toWord]) d
    else ∃ n d, Primitive.invoke "addLast" [item, .obj h] ⟨b, s⟩ =
      .error (.stop (.exhausted a.onExhaustion n a.capacity)) d := by
  have hinvoke := invoke_addLast hc.holds hc.cls s item
  rw [hc.count, hc.slots] at hinvoke
  rcases Nat.lt_or_ge items.length (capacityAfter (moves items.length)) with hroom | hfull
  · rw [if_neg (Nat.not_le.mpr hroom)] at hinvoke
    obtain ⟨d, hrun, hst⟩ := hinvoke
    rw [ListObject.moves_succ_of_lt hroom, if_pos hc.free]
    exact ⟨h, d, hrun, hc.stored hroom hst⟩
  · rw [if_pos hfull, Effect.Performed, hc.length_appended] at hinvoke
    rw [ListObject.moves_succ_of_le hfull]
    split
    · next hfree =>
      rw [if_pos ((hc.fits_iff hsize).mpr hfree)] at hinvoke
      obtain ⟨d, hrun, hmade⟩ := hinvoke
      exact ⟨_, d, hrun, hc.moved hfull hmade⟩
    · next hnone =>
      rw [if_neg fun hfits => hnone ((hc.fits_iff hsize).mp hfits)] at hinvoke
      rw [hinvoke, exhaustion, hc.action, hc.capacity]
      exact ⟨_, _, rfl⟩

/-- **A row of items is appended**, under the same condition. -/
theorem Arena.Collected.appendAll (hc : a.Collected h items b) (hsize : a.capacity ≤ maxArenaWords)
    (s : Source) (more : List Ref) :
    if a.used + movedWords (moves (items.length + more.length)) < a.capacity then
      ∃ g d, ObjectMemory.appendAll (.obj h) more ⟨b, s⟩ = .ok (.obj g) ⟨d, s⟩ ∧
        a.Collected g (items ++ storedItems more) d
    else ∃ n d, ObjectMemory.appendAll (.obj h) more ⟨b, s⟩ =
      .error (.stop (.exhausted a.onExhaustion n a.capacity)) d := by
  induction more generalizing h items b with
  | nil =>
    rw [List.length_nil, Nat.add_zero, if_pos hc.free]
    refine ⟨h, b, rfl, ?_⟩
    rwa [storedItems, List.map_nil, List.append_nil]
  | cons item rest ih =>
    have hstep := hc.append hsize s item
    -- what there is room for after all calls, there is room for after the first one
    have hmono : movedWords (moves (items.length + 1)) ≤
        movedWords (moves (items.length + (item :: rest).length)) := by
      refine movedWords_mono (moves_mono ?_)
      rw [List.length_cons]
      omega
    by_cases hfirst : a.used + movedWords (moves (items.length + 1)) < a.capacity
    · rw [if_pos hfirst] at hstep
      obtain ⟨g, d, hrun, hd⟩ := hstep
      have hlength : (items ++ [Ref.ofWord item.toWord]).length + rest.length =
          items.length + (item :: rest).length := by
        simp
        omega
      have hrest := ih hd
      rw [hlength, List.append_assoc] at hrest
      rw [ObjectMemory.appendAll, bind_of_ok hrun]
      exact hrest
    · rw [if_neg hfirst] at hstep
      obtain ⟨n, d, hrun⟩ := hstep
      rw [if_neg (by omega), ObjectMemory.appendAll, bind_of_error hrun]
      exact ⟨n, d, rfl⟩

end Calls

/-! ## A list that was just made -/

/-- A list without a stated capacity is made with two slots. -/
theorem invoke_newList (c : Context) :
    (Effect.make .fresh ⟨.list, List.replicate 3 Content.blank⟩).Performed c.arena c.source
      (Primitive.invoke "newList" [] c) :=
  newList_carries ListObject.minCapacity c

/-- **A row of items is appended to a list that was just made**, if there is room for it. -/
theorem Arena.Made.appendAll {a b : Arena}
    (hm : a.Made .fresh ⟨.list, List.replicate 3 Content.blank⟩ b)
    (hsize : a.capacity ≤ maxArenaWords) (s : Source) (items : List Ref) :
    if b.used + movedWords (moves items.length) < b.capacity then
      ∃ h d, ObjectMemory.appendAll (.obj ⟨a.used⟩) items ⟨b, s⟩ = .ok (.obj h) ⟨d, s⟩ ∧
        b.Collected h (storedItems items) d
    else ∃ n d, ObjectMemory.appendAll (.obj ⟨a.used⟩) items ⟨b, s⟩ =
      .error (.stop (.exhausted b.onExhaustion n b.capacity)) d := by
  have hcapacity : b.capacity ≤ maxArenaWords := by
    rw [hm.capacity]
    exact hsize
  have happend := hm.collected.appendAll hcapacity s items
  rwa [List.length_nil, Nat.zero_add, List.nil_append] at happend

/-- **The moves of a list to which items are appended.** A program makes a list in any arena and
appends items to it, each to the list that the call before gave. With `n` items the list moves just
as often as it takes to have a slot for each of them, and from 306 items on that is once for every
hundred more.

The run succeeds if there is room for the words of the moves, and these are all the words that it
takes up. The list has all items then, in their order, and as many slots as its moves gave it. A
word keeps every reference but integers of more than 31 bits, of which it keeps the low bits. -/
theorem appended_list_moves_when_full {c a : Context} {list : Ref}
    (hsize : c.arena.capacity ≤ maxArenaWords)
    (hnew : Primitive.invoke "newList" [] c = .ok list a) (items : List Ref) :
    (∀ k, moves items.length ≤ k ↔ items.length ≤ capacityAfter k) ∧
    (306 ≤ items.length → moves items.length = 14 + (items.length - 306 + 99) / 100) ∧
    if a.arena.used + movedWords (moves items.length) < a.arena.capacity then
      ∃ h d, appendAll list items a = .ok (.obj h) d ∧
        d.arena.stats.relocations = a.arena.stats.relocations + moves items.length ∧
        ListObject.capacity d.arena h = .ok (capacityAfter (moves items.length)) ∧
        ListObject.items d.arena h = .ok (storedItems items) ∧
        ((∀ r ∈ items, r.Canonical) → ListObject.items d.arena h = .ok items) ∧
        d.arena.stats.used = a.arena.stats.used + movedWords (moves items.length)
    else ∃ n d, appendAll list items a =
      .error (.stop (.exhausted a.arena.onExhaustion n a.arena.capacity)) d := by
  refine ⟨fun k => ListObject.moves_le_iff, ListObject.moves_of_le, ?_⟩
  have hmake := invoke_newList c
  rw [hnew] at hmake
  obtain ⟨rfl, b, rfl, hmade⟩ := hmake.made
  have happend := hmade.appendAll hsize c.source items
  split
  · next hroom =>
    rw [if_pos hroom] at happend
    obtain ⟨h, d, hrun, hd⟩ := happend
    have hlength := length_storedItems items
    have hread : ListObject.items d h = .ok (storedItems items) := by
      rw [ListObject.items_eq hd.holds]
      exact congrArg (Except.ok ∘ Sequence.items) hd.sequence
    refine ⟨h, ⟨d, c.source⟩, hrun, ?_, ?_, hread, fun hcanonical => ?_, ?_⟩
    · rw [← hlength]
      exact hd.relocations
    · rw [ListObject.capacity_eq hd.holds, hd.slots, hlength]
    · rw [hread, storedItems_of_canonical hcanonical]
    · rw [← hlength]
      exact hd.used
  · next hnone => rwa [if_neg hnone] at happend

/-- Seven items move a list twice, to the words 4 to 11 and to the words 12 to 23. -/
theorem seven_items_in_small_arena :
    ∃ c list a, c.arena.capacity ≤ maxArenaWords ∧
      Primitive.invoke "newList" [] c = .ok list a ∧
      ∃ h d, appendAll list (List.replicate 7 .true) a = .ok (.obj h) d ∧
        d.arena.stats.relocations = 2 ∧ ListObject.capacity d.arena h = .ok 10 ∧
        ListObject.items d.arena h = .ok (List.replicate 7 .true) ∧ d.arena.stats.used = 24 := by
  let c : Context := ⟨Arena.ofSize 25, Source.ofList []⟩
  have hsize : c.arena.capacity ≤ maxArenaWords := by decide
  obtain ⟨-, -, hrun⟩ := appended_list_moves_when_full hsize rfl (List.replicate 7 .true)
  obtain ⟨h, d, happend, hmoves, hcapacity, -, hitems, hused⟩ := hrun
  refine ⟨c, _, _, hsize, rfl, h, d, happend, hmoves, hcapacity, hitems ?_, hused⟩
  intro r hr
  rw [List.eq_of_mem_replicate hr]
  trivial

/-! ## A list in an arena of its own -/

/-- Makes a list and appends items to it. -/
def appendedList (items : List Ref) : PrimM Ref := do
  appendAll (← Primitive.invoke "newList" []) items

/-- The moves of a list in a fresh arena are all moves that there are. -/
theorem appendedList_of_fresh (words : Nat) (action : ExhaustionAction) (s : Source)
    (items : List Ref) :
    if 4 + movedWords (moves items.length) < min words maxArenaWords then
      ∃ h d, appendedList items ⟨(Arena.ofSize words).withAction action, s⟩ = .ok (.obj h) d ∧
        d.arena.stats.relocatedWords = movedWords (moves items.length)
    else ∃ n d, appendedList items ⟨(Arena.ofSize words).withAction action, s⟩ =
      .error (.stop (.exhausted action n (min words maxArenaWords))) d := by
  have hsize : min words maxArenaWords ≤ maxArenaWords := Nat.min_le_right _ _
  have hmake := invoke_newList ⟨(Arena.ofSize words).withAction action, s⟩
  rw [Effect.Performed] at hmake
  split at hmake
  · obtain ⟨b, hnew, hmade⟩ := hmake
    have hused : b.used = 4 := hmade.used
    have hcapacity : b.capacity = min words maxArenaWords := hmade.capacity
    have haction : b.onExhaustion = action := hmade.action
    have happend := hmade.appendAll hsize s items
    rw [hused, hcapacity, haction] at happend
    rw [appendedList, bind_of_ok hnew]
    split
    · next hroom =>
      rw [if_pos hroom] at happend
      obtain ⟨h, d, hrun, hd⟩ := happend
      have hnone : b.counters.relocatedWords = 0 := congrArg Counters.relocatedWords hmade.counters
      have hcounted := hd.relocatedWords
      rw [hnone, Nat.zero_add, length_storedItems] at hcounted
      exact ⟨h, _, hrun, hcounted⟩
    · next hnone => rwa [if_neg hnone] at happend
  · next hnone =>
    -- where the empty list does not fit, there is no room for its moves either
    rw [if_neg, appendedList, bind_of_error hmake]
    · exact ⟨_, _, rfl⟩
    · intro hroom
      refine hnone ⟨?_, by decide⟩
      exact Nat.lt_of_le_of_lt (Nat.le_add_right 4 _) hroom

/-- **The words that a growing list moves.** A program makes a list in a fresh arena and appends
items to it. The run succeeds if and only if the arena is large enough. The words that were moved
then are fewer than ten for each item up to 1706 items, and again from 1787 to 1806. In general
they grow with the square of the number of items, since the steps by which a list grows are limited
to 100 slots. -/
theorem moved_words_grow_with_square (words : Nat) (action : ExhaustionAction) (s : Source)
    {items : List Ref} (hitems : 1 ≤ items.length) :
    if 4 + movedWords (moves items.length) < min words maxArenaWords then
      ∃ r d, appendedList items ⟨(Arena.ofSize words).withAction action, s⟩ = .ok r d ∧
        (d.arena.stats.relocatedWords < 10 * items.length ↔
          items.length ≤ 1706 ∨ 1787 ≤ items.length ∧ items.length ≤ 1806) ∧
        200 * d.arena.stats.relocatedWords <
          items.length * items.length + 2000 * items.length ∧
        (3 ≤ items.length →
          items.length * items.length ≤ 200 * d.arena.stats.relocatedWords)
    else ∃ n d, appendedList items ⟨(Arena.ofSize words).withAction action, s⟩ =
      .error (.stop (.exhausted action n (min words maxArenaWords))) d := by
  have hrun := appendedList_of_fresh words action s items
  split
  · next hroom =>
    rw [if_pos hroom] at hrun
    obtain ⟨h, d, hok, hmoved⟩ := hrun
    rw [← ListObject.movedWords_lt_ten_mul_iff hitems]
    refine ⟨.obj h, d, hok, ?_⟩
    rw [hmoved]
    exact ⟨Iff.rfl, ListObject.movedWords_moves_lt hitems, ListObject.sq_le_movedWords⟩
  · next hnone => rwa [if_neg hnone] at hrun

/-- With 1800 items there are fewer than 18000 words, though more than 16000. -/
theorem moved_words_of_1800_items :
    ∃ r d, appendedList (List.replicate 1800 .true)
        ⟨(Arena.ofSize 40000).withAction .panic, Source.ofList []⟩ = .ok r d ∧
      d.arena.stats.relocatedWords < 18000 ∧ 16000 < d.arena.stats.relocatedWords := by
  have hroom : 4 + movedWords (moves 1800) < min 40000 maxArenaWords := by
    rw [ListObject.moves_of_le (by decide), ListObject.movedWords_fourteen_add]
    decide
  have hlength : (List.replicate 1800 Ref.true).length = 1800 := List.length_replicate
  -- the row itself does not matter, and it is too long to be evaluated
  generalize List.replicate 1800 Ref.true = items at hlength ⊢
  have hitems : 1 ≤ items.length := by omega
  have hrun := moved_words_grow_with_square 40000 .panic (Source.ofList []) hitems
  rw [hlength, if_pos hroom] at hrun
  obtain ⟨r, d, hok, hfew, -, hmany⟩ := hrun
  have hfewer := hfew.mpr (by decide)
  have hmore := hmany (by decide)
  exact ⟨r, d, hok, hfewer, by omega⟩

/-- **Ten words for each item are not always enough.** Item 1707 makes the list move for the 29th
time. -/
theorem moved_words_of_1707_items :
    ∃ r d, appendedList (List.replicate 1707 (.int 0))
        ⟨(Arena.ofSize 40000).withAction .panic, Source.ofList []⟩ = .ok r d ∧
      d.arena.stats.relocatedWords = 17861 ∧ ¬ d.arena.stats.relocatedWords < 10 * 1707 := by
  have hmoved : movedWords (moves 1707) = 17861 := by
    rw [ListObject.moves_of_le (by decide), ListObject.movedWords_fourteen_add]
  have hlength : (List.replicate 1707 (Ref.int 0)).length = 1707 := List.length_replicate
  generalize List.replicate 1707 (Ref.int 0) = items at hlength ⊢
  have hrun := appendedList_of_fresh 40000 .panic (Source.ofList []) items
  rw [hlength, hmoved, if_pos (by decide)] at hrun
  obtain ⟨h, d, hok, hwords⟩ := hrun
  exact ⟨.obj h, d, hok, hwords, by omega⟩

end ObjectMemory
