import ObjectMemory.Proofs.ListRuns
import ObjectMemory.Proofs.SmallNumbers

/-!
# Stated counts

A list states how many items it has, and a number too large for an integer would be stated as the
largest one. No plan comes to that: where it states a count, the count is the number of items that
the list has then (`plan_states`). So after a call on lists the changed list states as many items
as the verdict of the call says (`Effect.Matches.stated`).
-/

namespace ObjectMemory

/-! ## Stated counts -/

/-- The effect states the number of items that a list has, unless it leaves that number alone. -/
def Effect.StatesCounts (v : View) : Effect → Prop
  | .give _ => True
  | .rewrite h words _ => (v h).cls = .list → words.length ≤ maxArenaWords →
      (Content.mk .list words).count = (v h).count ∨
        (Content.mk .list words).field 0 = .int (Content.mk .list words).count
  | .make _ c => c.cls = .list → c.words.length ≤ maxArenaWords → c.field 0 = .int c.count

section Counts

variable {v : View} {words : List Word} {n : Nat} {cls : ObjClass}

/-- The count that was stored reads back as the number of items. -/
theorem field_restated (hn : n < words.length) (hsize : words.length ≤ maxArenaWords) :
    (Content.mk cls (Content.restated words n)).field 0 =
      .int (Content.mk cls (Content.restated words n)).count := by
  have hsmall : n ≤ Ref.maxSmallInt := by
    unfold maxArenaWords at hsize
    unfold Ref.maxSmallInt
    omega
  rw [Content.count_restated hn hsize, ← Ref.ofCount_of_le hsmall, Content.field,
    List.getD_eq_getElem?_getD, Content.restated, List.getElem?_set_self (by omega)]
  exact Ref.ofWord_toWord (Ref.canonical_ofCount n)

theorem states_restated {h : Handle} (hn : n < words.length) (r : Ref) :
    (Effect.rewrite h (Content.restated words n) r).StatesCounts v := by
  intro _ hsize
  rw [Content.restated, List.length_set] at hsize
  exact Or.inr (field_restated hn hsize)

theorem states_ofItems (words : List Word) (o : Origin) :
    (Effect.make o (.ofItems words)).StatesCounts v := by
  intro _ hsize
  have hrow : Content.ofItems words = ⟨.list, Content.restated (0 :: words) words.length⟩ := rfl
  rw [hrow] at hsize ⊢
  rw [Content.restated, List.length_set] at hsize
  exact field_restated (Nat.lt_succ_self _) hsize

theorem states_text (text : List UInt8) (o : Origin) :
    (Effect.make o (.ofText text)).StatesCounts v := by
  intro hcls
  cases hcls

/-- As many items as before, whatever is stated. -/
theorem states_of_items {h : Handle} {words : List Word}
    (hlen : (Content.mk .list words).items.length = (v h).items.length) (r : Ref) :
    (Effect.rewrite h words r).StatesCounts v := by
  intro _ _
  rw [Content.length_items, Content.length_items] at hlen
  exact Or.inl hlen

/-- Overwriting the items leaves as many. -/
theorem states_overwritten {h : Handle} {m : Nat} (hcount : (v h).count ≤ m)
    (hm : m ≤ (v h).capacity) (value : Ref) :
    (Effect.rewrite h (splice (v h).words 1 (List.replicate m value.toWord)) .false).StatesCounts
      v := by
  have hitems : (Content.mk .list (splice (v h).words 1 (List.replicate m value.toWord))).items =
      List.replicate (v h).items.length (Ref.ofWord value.toWord) :=
    congrArg Sequence.items (Content.sequence_overwritten hcount hm value.toWord)
  refine states_of_items ?_ _
  rw [hitems, List.length_replicate]

/-- A blank in place of the count reads as no items. -/
theorem count_blanks (m : Nat) : (Content.mk cls (List.replicate m Content.blank)).count = 0 := by
  have hitems : (Content.mk cls (List.replicate m Content.blank)).items = [] :=
    congrArg Sequence.items (Content.sequence_blank m)
  rw [← Content.length_items, hitems]
  rfl

theorem field_blanks {m : Nat} (hm : 0 < m) :
    (Content.mk cls (List.replicate m Content.blank)).field 0 = .int 0 := by
  have hzero : (Ref.int 0).Canonical := ⟨by decide, by decide⟩
  rw [Content.field, List.getD_eq_getElem?_getD, List.getElem?_replicate, if_pos hm]
  exact Ref.ofWord_toWord hzero

theorem newList_states (n : Nat) : (Plan.newList n).Ensures (Effect.StatesCounts v) := by
  intro _ _
  rw [field_blanks (Nat.succ_pos _), count_blanks]
  rfl

theorem addLast_states (list item : Ref) :
    (Plan.addLast v list item).Ensures (Effect.StatesCounts v) := by
  refine Plan.Ensures.any (fun h => ?_) _
  have hcount := (v h).count_le
  dsimp only
  split
  · next hfull =>
    intro _ hsize
    have hlen := ListObject.length_enlarged (v h)
    have hgrowth := (ListObject.growth_bounds (v h).capacity).1
    rw [Content.length_appended] at hsize
    exact field_restated (by rw [List.length_set]; omega) (by rw [List.length_set]; exact hsize)
  · next hroom =>
    unfold Content.capacity at hroom
    exact states_restated (by rw [List.length_set]; omega) _

/-- A removal restates the count or blanks the whole list. -/
theorem delete_states (list selector : Ref) :
    (Plan.delete v list selector).Ensures (Effect.StatesCounts v) := by
  refine Plan.Ensures.any (fun h => ?_) _
  have hcount := (v h).count_le
  unfold Content.capacity at hcount
  have hwithout {i : Nat} (hi : 1 ≤ i ∧ i ≤ (v h).count) :
      (Effect.rewrite h (Content.without (v h).words i (v h).count) .false).StatesCounts v := by
    refine states_restated ?_ _
    rw [List.length_set, length_splice]
    · omega
    · rw [List.length_take, List.length_drop]
      omega
  cases v.selector? selector with
  | none => trivial
  | some s =>
    cases s with
    | all =>
      intro _ _
      rw [count_blanks]
      by_cases hempty : (v h).words.length = 0
      · exact Or.inl (by omega)
      · exact Or.inr (field_blanks (Nat.pos_of_ne_zero hempty))
    | random => trivial
    | last =>
      dsimp only
      split
      · next hpos => exact hwithout ⟨hpos, Nat.le_refl _⟩
      · trivial
    | index i =>
      dsimp only
      split
      · next hi => exact hwithout (by omega)
      · trivial

/-- Items are stored behind the count. -/
theorem putList_states (h : Handle) (s : Selector) (value : Ref) :
    (Plan.putList (v h) h s value).Ensures (Effect.StatesCounts v) := by
  have hput {i : Nat} (hi : 1 ≤ i ∧ i ≤ (v h).count) :
      (Effect.rewrite h ((v h).words.set i value.toWord) .false).StatesCounts v := by
    have hitems : (Content.mk .list ((v h).words.set i value.toWord)).items =
        (v h).items.set (i - 1) (Ref.ofWord value.toWord) :=
      congrArg Sequence.items (Content.sequence_set hi value.toWord)
    refine states_of_items ?_ _
    rw [hitems, List.length_set]
  cases s with
  | random => trivial
  | all => exact states_overwritten (Nat.le_refl _) (v h).count_le value
  | index i =>
    dsimp only [Plan.putList, Plan.place]
    split
    · exact hput (by omega)
    · trivial
  | last =>
    dsimp only [Plan.putList, Plan.place]
    split
    · next hpos => exact hput ⟨hpos, Nat.le_refl _⟩
    · trivial

/-- Nothing is asked of the words of what is no list. -/
theorem states_of_not_list {h : Handle} (hcls : (v h).cls ≠ .list) (words : List Word) (r : Ref) :
    (Effect.rewrite h words r).StatesCounts v := by
  intro hlist
  exact absurd hlist hcls

theorem putItem_states (container selector value : Ref) :
    (Plan.putItem v container selector value).Ensures (Effect.StatesCounts v) := by
  refine Plan.Ensures.need fun target htarget => Plan.Ensures.need fun s _ => ?_
  obtain ⟨h, _, ⟨rfl, _⟩ | ⟨rfl, _⟩ | ⟨rfl, hcls⟩⟩ := View.container?_eq_some.mp htarget
  · exact putList_states h s value
  · trivial
  · have hapart : (v h).cls ≠ .list := fun hlist => nomatch hcls.symm.trans hlist
    refine Plan.Ensures.any (fun b => ?_) _
    exact Plan.putBytes_ensures (fun words => states_of_not_list hapart words _) _ s b

/-- A list is filled behind its count. -/
theorem fill_states (container value : Ref) :
    (Plan.fill v container value).Ensures (Effect.StatesCounts v) := by
  unfold Plan.fill
  cases htarget : v.container? container with
  | none => trivial
  | some target =>
    obtain ⟨h, _, ⟨rfl, _⟩ | ⟨rfl, _⟩ | ⟨rfl, hcls⟩⟩ := View.container?_eq_some.mp htarget
    · exact states_overwritten (v h).count_le (Nat.le_refl _) value
    · trivial
    · have hapart : (v h).cls ≠ .list := fun hlist => nomatch hcls.symm.trans hlist
      refine Plan.Ensures.any (fun b => ?_) _
      exact states_of_not_list hapart _ _

/-- **A plan states counts without loss.** -/
theorem plan_states (p : Primitive) (v : View) (free : Nat) (args : List Ref) :
    (p.plan v free args).Ensures (Effect.StatesCounts v) := by
  have hlist (words : List Word) : (Effect.make .fresh (.ofItems words)).StatesCounts v :=
    states_ofItems words .fresh
  have htext (text : List UInt8) : (Effect.make .fresh (.ofText text)).StatesCounts v :=
    states_text text .fresh
  unfold Primitive.plan
  split
  · trivial
  · cases p with
    | makeList => exact hlist _
    | newList => exact newList_states _
    | addLast => exact addLast_states _ _
    | delete => exact delete_states _ _
    | join => exact Plan.join_ensures hlist htext _
    | copyFromTo => exact Plan.copyFromTo_ensures hlist htext _ _ _
    | findInString => exact Plan.findInString_ensures (fun _ => trivial) _ _ _
    | joinStrings => exact Plan.joinStrings_ensures htext _ _
    | freeMemory => trivial
    | getItem => exact Plan.getItem_ensures (fun _ => trivial) htext _ _
    | putItem => exact putItem_states _ _ _
    | fill => exact fill_states _ _
    | length => exact Plan.length_ensures (fun _ => trivial) _

theorem planNamed_states (name : String) (v : View) (free : Nat) (args : List Ref) :
    (Primitive.planNamed name v free args).Ensures (Effect.StatesCounts v) :=
  Primitive.planNamed_ensures (fun p => plan_states p v free args) name

/-- The list that a call made or changed states the number of items that the verdict says, unless
it has as many as before. -/
def Verdict.StatedIn (heap : Heap) (r : Ref) (a : Arena) : Verdict → Prop
  | .make s => ∃ h, r = .obj h ∧ a.field h 0 = .ok (.int s.items.length)
  | .change h s _ => (heap h).map (fun old => old.items.length) = some s.items.length ∨
      a.field h 0 = .ok (.int s.items.length)
  | _ => True

/-- Where an integer is stated there is a word. -/
theorem field_of_stated {a : Arena} {h : Handle} (hh : a.Holds h) {m : Int}
    (hfield : (a.view h).field 0 = .int m) : a.field h 0 = .ok (.int m) := by
  have hpos : 0 < (a.view h).words.length := by
    refine List.length_pos_iff.mpr ?_
    intro hempty
    rw [Content.field, hempty] at hfield
    cases hfield
  rw [Arena.field_eq hh hpos, hfield]

/-- **What matches a verdict and states counts without loss** states what the verdict says. -/
theorem Effect.Matches.stated {e : Effect} {verdict : Verdict} {a : Arena} {hs : List Handle}
    (hc : a.Closed hs) (hm : e.Matches a.view hs verdict) (he : e.StatesCounts a.view)
    {s : Source} {r : Ref} {d : Context} (hp : e.Performed a s (.ok r d)) :
    verdict.StatedIn (a.view.heap hs) r d.arena := by
  have hcount {words : List Word} {q : Sequence} (hseq : (Content.mk .list words).sequence = q) :
      (Content.mk .list words).count = q.items.length := by
    rw [← hseq, ← Content.length_items]
    rfl
  cases verdict with
  | oneOf rs => trivial
  | refuse f => trivial
  | make q =>
    obtain ⟨o, words, rfl, _, hseq⟩ := hm
    obtain ⟨rfl, b, rfl, hmade⟩ := hp.made
    have hfits := hmade.fits.2
    have hfield := he rfl (Nat.le_succ_of_le hfits)
    rw [hcount (hseq hfits)] at hfield
    refine ⟨_, rfl, field_of_stated hmade.holds_new ?_⟩
    rw [hmade.view_new]
    exact hfield
  | change h q x =>
    obtain ⟨hh, hcls, hdone⟩ := hm
    have hheap : a.view.heap hs h = some (a.view h).sequence := if_pos ⟨hh, hcls⟩
    have hold : (a.view h).sequence.items.length = (a.view h).count := (a.view h).length_items
    rw [Verdict.StatedIn, hheap, Option.map_some, hold]
    rcases hdone with ⟨_, hseq⟩ | ⟨words, rfl, hseq⟩
    · rw [← hseq, hold]
      exact Or.inl rfl
    · obtain ⟨b, heq, hst⟩ := hp
      cases heq
      have hholds := hc.tiled.holds hh
      have hsize : words.length ≤ maxArenaWords := by
        rw [hst.length_eq hholds]
        exact hc.small h hh
      rw [← hcount hseq]
      rcases he hcls hsize with hsame | hfield
      · rw [hsame]
        exact Or.inl rfl
      · refine Or.inr (field_of_stated (hst.holds hholds) ?_)
        rw [hst.view_eq hholds, hcls]
        exact hfield

end Counts

end ObjectMemory
