import ObjectMemory.Proofs.Closure
import ObjectMemory.Proofs.Sequences

/-!
# Lists with the same slots

The first word of a list holds its count, and anyone may have stored something else there. A
primitive that relied on it would read or write past the list's end. None does: what the word says
is limited to the number of slots, and only the limited count is used.

So two views should make no difference to a program if their lists have the same slots and the same
counts, whatever the first words are. Such views are `View.Alike`, and `plan_alike` says that a
primitive decides the same with both. What it then stores or makes is alike again.
-/

namespace ObjectMemory

/-! ## Rows that differ in the first word -/

/-- The rows have the same words but for the first one. -/
inductive SameSlots : List Word → List Word → Prop
  | nil : SameSlots [] []
  | cons (x y : Word) (slots : List Word) : SameSlots (x :: slots) (y :: slots)

namespace SameSlots

variable {ws vs : List Word} {i n : Nat}

theorem refl (ws : List Word) : SameSlots ws ws := by
  cases ws with
  | nil => exact nil
  | cons x slots => exact cons x x slots

/-- Both rows have the same number of slots. -/
theorem length_eq (h : SameSlots ws vs) : vs.length = ws.length := by
  cases h with
  | nil => rfl
  | cons x y slots => rfl

/-- Behind the first word the rows are equal. -/
theorem drop_eq (h : SameSlots ws vs) (hi : 1 ≤ i) : vs.drop i = ws.drop i := by
  obtain ⟨k, rfl⟩ := Nat.exists_eq_add_of_le' hi
  cases h with
  | nil => rfl
  | cons x y slots => rfl

theorem getElem?_eq (h : SameSlots ws vs) (hi : 1 ≤ i) : vs[i]? = ws[i]? := by
  have hdrop := h.drop_eq hi
  rw [← List.head?_drop, ← List.head?_drop, hdrop]

theorem set (h : SameSlots ws vs) (hi : 1 ≤ i) (w : Word) :
    SameSlots (ws.set i w) (vs.set i w) := by
  obtain ⟨k, rfl⟩ := Nat.exists_eq_add_of_le' hi
  cases h with
  | nil => exact nil
  | cons x y slots => exact cons x y (slots.set k w)

/-- A part that is written behind the first word leaves the rows with the same slots. -/
theorem splice (h : SameSlots ws vs) (hi : 1 ≤ i) (part : List Word) :
    SameSlots (splice ws i part) (splice vs i part) := by
  obtain ⟨k, rfl⟩ := Nat.exists_eq_add_of_le' hi
  cases h with
  | nil => exact refl _
  | cons x y slots =>
    rw [ObjectMemory.splice, ObjectMemory.splice, Nat.add_right_comm]
    exact cons x y _

/-- Growing keeps the first word, so it is all that may differ afterwards too. -/
theorem grown (h : SameSlots ws vs) (n : Nat) (fill : Word) :
    SameSlots (Arena.grown ws n fill) (Arena.grown vs n fill) := by
  cases h with
  | nil => exact refl _
  | cons x y slots =>
    cases n with
    | zero =>
      rw [Arena.grown, Arena.grown, Nat.zero_sub, Nat.zero_sub]
      exact nil
    | succ n => exact cons x y _

/-- **A row with another count shows no more what it held in its place.** -/
theorem restated_eq (h : SameSlots ws vs) (n : Nat) :
    Content.restated vs n = Content.restated ws n := by
  cases h with
  | nil => rfl
  | cons x y slots => rfl

/-- An append states the count anew, and the rows become equal. -/
theorem appended_eq (h : SameSlots ws vs) (n : Nat) (item : Ref) :
    Content.appended vs n item = Content.appended ws n item :=
  (h.set (Nat.le_add_left 1 n) _).restated_eq _

/-- A removal states the count anew, and the rows become equal. -/
theorem without_eq (h : SameSlots ws vs) (hi : 1 ≤ i ∧ i ≤ n) :
    Content.without vs i n = Content.without ws i n := by
  rw [Content.without, Content.without, h.drop_eq (Nat.le_add_left 1 i)]
  exact ((h.splice hi.1 _).set (Nat.le_trans hi.1 hi.2) _).restated_eq _

end SameSlots

/-! ## Contents that are alike -/

/-- The contents are the same but for the first word of a list, and that one counts as many items
in both. -/
structure Content.Alike (c d : Content) : Prop where
  cls : d.cls = c.cls
  slots : SameSlots c.words d.words
  count : d.count = c.count
  words : c.cls ≠ .list → d.words = c.words

namespace Content.Alike

variable {c d : Content} {i : Nat}

theorem refl (c : Content) : c.Alike c :=
  ⟨rfl, SameSlots.refl _, rfl, fun _ => rfl⟩

/-- Contents of strings, byte arrays and records are alike only if they are equal. -/
theorem eq_of_not_list (h : c.Alike d) (hcls : c.cls ≠ .list) : d = c := by
  obtain ⟨cls, words⟩ := d
  cases h.cls
  cases h.words hcls
  rfl

theorem capacity_eq (h : c.Alike d) : d.capacity = c.capacity := by
  rw [capacity, capacity, h.slots.length_eq]

theorem itemWords_eq (h : c.Alike d) : d.itemWords = c.itemWords := by
  rw [itemWords, itemWords, h.count, h.slots.drop_eq (Nat.le_refl 1)]

/-- The items are the slots up to the count, and lists that are alike agree on both. -/
theorem items_eq (h : c.Alike d) : d.items = c.items := by
  rw [items, items, h.itemWords_eq]

theorem field_eq (h : c.Alike d) (hi : 1 ≤ i) : d.field i = c.field i := by
  rw [field, field, List.getD_eq_getElem?_getD, h.slots.getElem?_eq hi,
    List.getD_eq_getElem?_getD]

/-- **Rows stay alike when neither gets another first word.** -/
theorem rewritten (h : c.Alike d) {ws vs : List Word} (hslots : SameSlots ws vs)
    (hws : ws.length = c.words.length) (hfirst : ws[0]? = c.words[0]?)
    (hfirst' : vs[0]? = d.words[0]?) (hwords : c.cls ≠ .list → vs = ws) :
    Alike ⟨c.cls, ws⟩ ⟨c.cls, vs⟩ where
  cls := rfl
  slots := hslots
  count := by
    rw [count_of_first hws hfirst, ← h.count]
    refine count_of_first ?_ hfirst'
    rw [hslots.length_eq, hws, h.slots.length_eq]
  words := hwords

theorem set (h : c.Alike d) (hi : 1 ≤ i) (w : Word) :
    Alike ⟨c.cls, c.words.set i w⟩ ⟨c.cls, d.words.set i w⟩ := by
  refine h.rewritten (h.slots.set hi w) List.length_set ?_ ?_ fun hcls => ?_
  · exact List.getElem?_set_ne (by omega)
  · exact List.getElem?_set_ne (by omega)
  · rw [h.words hcls]

/-- Filling the first `m` slots reaches no further than the capacity, in either list. -/
theorem overwritten (h : c.Alike d) {m : Nat} (hm : m ≤ c.capacity) (w : Word) :
    Alike ⟨c.cls, splice c.words 1 (List.replicate m w)⟩
      ⟨c.cls, splice d.words 1 (List.replicate m w)⟩ := by
  unfold capacity at hm
  by_cases hpos : 0 < c.words.length
  · have hpart : 1 + (List.replicate m w).length ≤ c.words.length := by
      rw [List.length_replicate]
      omega
    refine h.rewritten (h.slots.splice (Nat.le_refl 1) _) (length_splice hpart) ?_ ?_ fun hcls => ?_
    · rw [getElem?_splice hpart, if_neg (by omega)]
    · rw [getElem?_splice (by rw [h.slots.length_eq]; exact hpart), if_neg (by omega)]
    · rw [h.words hcls]
  · -- a row without a word has no slots to overwrite
    have hzero : m = 0 := by omega
    subst hzero
    rw [List.replicate_zero, splice_nil, splice_nil]
    exact h.rewritten h.slots rfl rfl rfl h.words

end Content.Alike

/-! ## Views that are alike -/

/-- The objects `hs` have contents that are alike. -/
def View.Alike (hs : List Handle) (v w : View) : Prop :=
  ∀ h ∈ hs, (v h).Alike (w h)

section Views

variable {hs : List Handle} {v w : View} {r : Ref} {h : Handle} (hvw : v.Alike hs w)
include hvw

namespace View.Alike

/-- What is known to be no list is the same in both views. -/
theorem eq_of_cls (hh : h ∈ hs) {c : ObjClass} (hcls : (v h).cls = c) (hne : c ≠ .list) :
    w h = v h :=
  (hvw h hh).eq_of_not_list (hcls ▸ hne)

theorem named?_eq (hr : r.Among hs) (c : ObjClass) : w.named? c r = v.named? c r := by
  cases r with
  | obj h => rw [named?, named?, (hvw h (hr h rfl)).cls]
  | _ => rfl

theorem list?_eq (hr : r.Among hs) : w.list? r = v.list? r :=
  hvw.named?_eq hr .list

/-- Both views take the reference for the same container: classes decide about that. -/
theorem container?_eq (hr : r.Among hs) : w.container? r = v.container? r := by
  cases r with
  | obj h => rw [container?, container?, (hvw h (hr h rfl)).cls]
  | _ => rfl

/-- A string reads as the same text in both views. -/
theorem text?_eq (hr : r.Among hs) : w.text? r = v.text? r := by
  have hname : w.string? r = v.string? r := hvw.named?_eq hr .string
  rw [text?, text?, hname]
  cases hs' : v.string? r with
  | none => rfl
  | some h =>
    obtain ⟨rfl, hcls⟩ := named?_eq_some.mp hs'
    have hsame := hvw.eq_of_cls (hr h rfl) hcls (by decide)
    rw [Option.map_some, Option.map_some, hsame]

/-- An index names the same place in both views, whether it is a number or a string. -/
theorem selector?_eq (hr : r.Among hs) : w.selector? r = v.selector? r := by
  cases r with
  | int i => rfl
  | _ => simp only [selector?, hvw.text?_eq hr]

theorem printed?_eq (hr : r.Among hs) : w.printed? r = v.printed? r := by
  cases r with
  | nil => exact hvw.text?_eq hr
  | obj h => exact hvw.text?_eq hr
  | _ => rfl

end View.Alike

end Views

/-! ## Plans that are alike -/

namespace Plan

variable {α β : Type}

/-- Both results are values that are related, or the same refusal, with the same source left. -/
inductive SameResult (R : α → β → Prop) :
    Except Failure α × Source → Except Failure β × Source → Prop
  | ok {x : α} {y : β} (s : Source) (related : R x y) : SameResult R (.ok x, s) (.ok y, s)
  | error (f : Failure) (s : Source) : SameResult R (.error f, s) (.error f, s)

/-- The plans draw the same numbers, and come to related values or to the same refusal. -/
def Alike (R : α → β → Prop) (p : Plan α) (q : Plan β) : Prop :=
  ∀ s, SameResult R (p.run s) (q.run s)

variable {γ δ : Type} {R : α → β → Prop} {S : γ → δ → Prop}

theorem alike_give {x : α} {y : β} (h : R x y) : (give x).Alike R (give y) :=
  fun s => .ok s h

/-- A plan that refuses is like one that refuses for the same reason. -/
theorem alike_refuse (f : Failure) : (refuse f : Plan α).Alike R (refuse f : Plan β) :=
  fun s => .error f s

/-- A plan is like itself if what it may come to is. -/
theorem alike_refl {R : α → α → Prop} {p : Plan α} (h : p.Ensures fun x => R x x) :
    p.Alike R p := by
  intro s
  cases hrun : p.run s with
  | mk result t =>
    cases result with
    | ok x => exact .ok t (h.of_run hrun)
    | error f => exact .error f t

/-- Plans in two parts are alike if the first parts are, and the second ones after related values.
-/
theorem Alike.bind {p : Plan α} {q : Plan β} {k : α → Plan γ} {l : β → Plan δ}
    (hp : p.Alike R q) (hk : ∀ x y, R x y → (k x).Alike S (l y)) :
    (p >>= k).Alike S (q >>= l) := by
  intro s
  have hs := hp s
  rw [run_bind, run_bind]
  generalize p.run s = x at hs
  generalize q.run s = y at hs
  cases hs with
  | ok t related => exact hk _ _ related t
  | error f t => exact .error f t

/-- **Plans that start in the same way are alike** if they go on alike. -/
theorem alike_next {p : Plan α} {k : α → Plan γ} {l : α → Plan δ}
    (hk : ∀ x, (k x).Alike S (l x)) : (p >>= k).Alike S (p >>= l) := by
  have hp : p.Alike Eq p := alike_refl (ensures_of_forall (fun _ => rfl) p)
  refine hp.bind fun x y hxy => ?_
  subst hxy
  exact hk x

theorem alike_need {f : Failure} {found : Option α} {k : α → Plan γ} {l : α → Plan δ}
    (hk : ∀ x, found = some x → (k x).Alike S (l x)) :
    (need f found >>= k).Alike S (need f found >>= l) := by
  cases found with
  | none => exact alike_refuse f
  | some x => exact hk x rfl

/-- Both plans come to the same place, and it is behind the first word. -/
theorem alike_place {s : Selector} {n : Nat} {k : Nat → Plan γ} {l : Nat → Plan δ}
    (hk : ∀ i, 1 ≤ i → (k i).Alike S (l i)) : (place s n >>= k).Alike S (place s n >>= l) := by
  have hplace : (place s n).Alike (fun i j => i = j ∧ 1 ≤ i) (place s n) := by
    intro t
    cases hrun : (place s n).run t with
    | mk result u =>
      cases result with
      | ok i => exact .ok u ⟨rfl, (place_bounds hrun).1⟩
      | error f => exact .error f u
  refine hplace.bind fun i j hij => ?_
  obtain ⟨rfl, hi⟩ := hij
  exact hk i hi

end Plan

/-- The effects give the same value. What they store is alike, and what they make is the same. -/
inductive Effect.Alike (hs : List Handle) (v w : View) : Effect → Effect → Prop
  | give (r : Ref) : Alike hs v w (.give r) (.give r)
  | rewrite {h : Handle} {words others : List Word} (r : Ref) (issued : h ∈ hs)
    (rows : Content.Alike ⟨(v h).cls, words⟩ ⟨(v h).cls, others⟩) :
    Alike hs v w (.rewrite h words r) (.rewrite h others r)
  | make {o : Origin} (c : Content)
    (recorded : ∀ start words, o.recorded w start words = o.recorded v start words) :
    Alike hs v w (.make o c) (.make o c)

/-- A walk through a row sees a function only at the members of the row. -/
theorem mapM_congr {α β : Type} {f g : α → Option β} {xs : List α} (h : ∀ x ∈ xs, f x = g x) :
    xs.mapM f = xs.mapM g := by
  induction xs with
  | nil => rfl
  | cons x rest ih =>
    rw [List.mapM_cons, List.mapM_cons, h x List.mem_cons_self,
      ih fun y hy => h y (List.mem_cons_of_mem x hy)]

section Plans

variable {hs : List Handle} {v w : View} (hvw : v.Alike hs w)
include hvw

/-- An append looks at the count and the capacity, and states the count anew. -/
theorem addLast_alike {list : Ref} (hl : list.Among hs) (item : Ref) :
    (Plan.addLast v list item).Alike (Effect.Alike hs v w) (Plan.addLast w list item) := by
  unfold Plan.addLast
  rw [hvw.list?_eq hl]
  refine Plan.alike_need fun h hlist => ?_
  obtain ⟨hh, _⟩ := list_of_named? hl hlist
  have hc := hvw h hh
  dsimp only
  rw [hc.capacity_eq, hc.count]
  split
  · have hlarger : SameSlots (v h).enlarged (w h).enlarged := by
      rw [Content.enlarged, Content.enlarged, hc.capacity_eq]
      exact hc.slots.grown _ _
    rw [hlarger.appended_eq]
    refine Plan.alike_give (.make _ fun start words => ?_)
    simp only [Origin.recorded, hc.slots.length_eq, hc.capacity_eq]
  · rw [hc.slots.appended_eq]
    exact Plan.alike_give (.rewrite _ hh (.refl _))

/-- A removal, too, states the count anew: what it stores is the same row in both. -/
theorem delete_alike {list selector : Ref} (hl : list.Among hs) (hr : selector.Among hs) :
    (Plan.delete v list selector).Alike (Effect.Alike hs v w) (Plan.delete w list selector) := by
  unfold Plan.delete
  rw [hvw.list?_eq hl, hvw.selector?_eq hr]
  refine Plan.alike_need fun h hlist => ?_
  obtain ⟨hh, _⟩ := list_of_named? hl hlist
  have hc := hvw h hh
  have hsame (words : List Word) :
      (Plan.give (.rewrite h words .false)).Alike (Effect.Alike hs v w)
        (Plan.give (.rewrite h words .false)) :=
    Plan.alike_give (.rewrite _ hh (.refl _))
  dsimp only
  rw [hc.count, hc.slots.length_eq]
  cases v.selector? selector with
  | none => exact Plan.alike_refuse _
  | some s =>
    cases s with
    | all => exact hsame _
    | random => exact Plan.alike_refuse _
    | last =>
      dsimp only
      split
      · next hpos =>
        rw [hc.slots.without_eq ⟨hpos, Nat.le_refl _⟩]
        exact hsame _
      · exact Plan.alike_give (.give _)
    | index i =>
      dsimp only
      split
      · next hi =>
        rw [hc.slots.without_eq (by omega)]
        exact hsame _
      · exact Plan.alike_refuse _

theorem getItem_alike {container selector : Ref} (hc : container.Among hs)
    (hr : selector.Among hs) :
    (Plan.getItem v container selector).Alike (Effect.Alike hs v w)
      (Plan.getItem w container selector) := by
  unfold Plan.getItem
  rw [hvw.container?_eq hc, hvw.selector?_eq hr]
  refine Plan.alike_need fun target htarget => Plan.alike_need fun s _ => ?_
  obtain ⟨h, rfl, ⟨rfl, hcls⟩ | ⟨rfl, hcls⟩ | ⟨rfl, hcls⟩⟩ := View.container?_eq_some.mp htarget
  · have hlist := hvw h (hc h rfl)
    dsimp only
    rw [hlist.count]
    refine Plan.alike_place fun i hi => ?_
    rw [hlist.field_eq hi]
    exact Plan.alike_give (.give _)
  · have hsame := hvw.eq_of_cls (hc h rfl) hcls (by decide)
    dsimp only
    rw [hsame]
    refine Plan.alike_next fun i => ?_
    exact Plan.alike_give (.make _ fun _ _ => rfl)
  · have hsame := hvw.eq_of_cls (hc h rfl) hcls (by decide)
    dsimp only
    rw [hsame]
    refine Plan.alike_next fun i => ?_
    exact Plan.alike_give (.give _)

/-- What is stored into a list lies behind the first word. -/
theorem putList_alike {h : Handle} (hh : h ∈ hs) (s : Selector) (value : Ref) :
    (Plan.putList (v h) h s value).Alike (Effect.Alike hs v w)
      (Plan.putList (w h) h s value) := by
  have hc := hvw h hh
  unfold Plan.putList
  rw [hc.count]
  cases s with
  | random => exact Plan.alike_refuse _
  | all => exact Plan.alike_give (.rewrite _ hh (hc.overwritten (v h).count_le _))
  | _ =>
    refine Plan.alike_place fun i hi => ?_
    exact Plan.alike_give (.rewrite _ hh (hc.set hi _))

theorem putItem_alike {container selector value : Ref} (hc : container.Among hs)
    (hr : selector.Among hs) :
    (Plan.putItem v container selector value).Alike (Effect.Alike hs v w)
      (Plan.putItem w container selector value) := by
  unfold Plan.putItem
  rw [hvw.container?_eq hc, hvw.selector?_eq hr]
  refine Plan.alike_need fun target htarget => Plan.alike_need fun s _ => ?_
  obtain ⟨h, rfl, ⟨rfl, _⟩ | ⟨rfl, _⟩ | ⟨rfl, hcls⟩⟩ := View.container?_eq_some.mp htarget
  · exact putList_alike hvw (hc h rfl) s value
  · exact Plan.alike_refuse _
  · have hsame := hvw.eq_of_cls (hc h rfl) hcls (by decide)
    dsimp only
    rw [hsame]
    refine Plan.alike_next fun b => Plan.alike_refl (Plan.putBytes_ensures (fun words => ?_) _ s b)
    exact Effect.Alike.rewrite _ (hc h rfl) (.refl _)

theorem fill_alike {container value : Ref} (hc : container.Among hs) :
    (Plan.fill v container value).Alike (Effect.Alike hs v w) (Plan.fill w container value) := by
  unfold Plan.fill
  rw [hvw.container?_eq hc]
  cases htarget : v.container? container with
  | none => exact Plan.alike_refuse _
  | some target =>
    obtain ⟨h, rfl, ⟨rfl, _⟩ | ⟨rfl, _⟩ | ⟨rfl, hcls⟩⟩ := View.container?_eq_some.mp htarget
    · have hlist := hvw h (hc h rfl)
      dsimp only
      rw [hlist.slots.length_eq]
      exact Plan.alike_give (.rewrite _ (hc h rfl) (hlist.overwritten (Nat.le_refl _) _))
    · exact Plan.alike_refuse _
    · have hsame := hvw.eq_of_cls (hc h rfl) hcls (by decide)
      dsimp only
      rw [hsame]
      refine Plan.alike_next fun b => Plan.alike_give ?_
      exact .rewrite _ (hc h rfl) (.refl _)

theorem length_alike {container : Ref} (hc : container.Among hs) :
    (Plan.length v container).Alike (Effect.Alike hs v w) (Plan.length w container) := by
  unfold Plan.length
  rw [hvw.container?_eq hc]
  refine Plan.alike_need fun target htarget => ?_
  obtain ⟨h, rfl, ⟨rfl, _⟩ | ⟨rfl, hcls⟩ | ⟨rfl, hcls⟩⟩ := View.container?_eq_some.mp htarget
  · dsimp only
    rw [(hvw h (hc h rfl)).count]
    exact Plan.alike_give (.give _)
  · have hsame := hvw.eq_of_cls (hc h rfl) hcls (by decide)
    dsimp only
    rw [hsame]
    exact Plan.alike_give (.give _)
  · have hsame := hvw.eq_of_cls (hc h rfl) hcls (by decide)
    dsimp only
    rw [hsame]
    exact Plan.alike_give (.give _)

/-- A part of a list starts at its first item, so the first word is never copied. -/
theorem copyFromTo_alike {source : Ref} (hc : source.Among hs) (first : Ref) (last : Option Ref) :
    (Plan.copyFromTo v source first last).Alike (Effect.Alike hs v w)
      (Plan.copyFromTo w source first last) := by
  unfold Plan.copyFromTo
  rw [hvw.container?_eq hc]
  refine Plan.alike_next fun first => Plan.alike_next fun last => ?_
  cases htarget : v.container? source with
  | none => exact Plan.alike_refuse _
  | some target =>
    obtain ⟨h, rfl, ⟨rfl, _⟩ | ⟨rfl, hcls⟩ | ⟨rfl, hcls⟩⟩ := View.container?_eq_some.mp htarget
    · have hlist := hvw h (hc h rfl)
      have hpart : (w h).words.drop (ListObject.sliceOf (v h).count first last).1 =
          (v h).words.drop (ListObject.sliceOf (v h).count first last).1 := by
        refine hlist.slots.drop_eq ?_
        show 1 ≤ (max first 1).toNat
        omega
      dsimp only
      rw [Plan.copyList, Plan.copyList, hlist.count, hpart]
      exact Plan.alike_give (.make _ fun _ _ => rfl)
    · have hsame := hvw.eq_of_cls (hc h rfl) hcls (by decide)
      dsimp only
      rw [hsame]
      exact Plan.alike_give (.make _ fun _ _ => rfl)
    · exact Plan.alike_refuse _

/-- Lists are joined by their items, and strings by their texts. -/
theorem join_alike {parts : List Ref} (hp : ∀ r ∈ parts, r.Among hs) :
    (Plan.join v parts).Alike (Effect.Alike hs v w) (Plan.join w parts) := by
  have hlists := mapM_congr fun r hr => hvw.list?_eq (hp r hr)
  have hprinted := mapM_congr fun r hr => hvw.printed?_eq (hp r hr)
  match parts, hp with
  | [], _ => exact Plan.alike_refuse _
  | [_], _ => exact Plan.alike_refuse _
  | first :: second :: rest, hp =>
    unfold Plan.join
    dsimp only
    rw [hvw.container?_eq (hp first List.mem_cons_self), hlists, hprinted]
    cases htarget : v.container? first with
    | none => exact Plan.alike_refuse _
    | some target =>
      cases target with
      | list h =>
        refine Plan.alike_need fun lists hfound => ?_
        have hitems : lists.map (fun g => (w g).itemWords) =
            lists.map fun g => (v g).itemWords := by
          refine List.map_congr_left fun g hg => ?_
          obtain ⟨r, hr, hnamed⟩ := exists_of_mapM hfound hg
          exact (hvw g (list_of_named? (hp r hr) hnamed).1).itemWords_eq
        rw [List.flatMap_def, List.flatMap_def, hitems]
        exact Plan.alike_give (.make _ fun _ _ => rfl)
      | string h =>
        refine Plan.alike_next fun printed => ?_
        exact Plan.alike_give (.make _ fun _ _ => rfl)
      | byteArray h => exact Plan.alike_refuse _

theorem findInString_alike {needle haystack : Ref} (hn : needle.Among hs)
    (hh : haystack.Among hs) (start : Option Ref) :
    (Plan.findInString v needle haystack start).Alike (Effect.Alike hs v w)
      (Plan.findInString w needle haystack start) := by
  unfold Plan.findInString
  rw [hvw.text?_eq hn, hvw.text?_eq hh]
  refine Plan.alike_next fun small => Plan.alike_next fun large => ?_
  exact Plan.alike_give (.give _)

/-- The items of the list have to be known to both views, for they are printed. -/
theorem joinStrings_alike
    (hslots : ∀ h ∈ hs, (v h).cls = .list → Sound hs ((v h).words.drop 1))
    {list : Ref} (hl : list.Among hs) {separator : Option Ref}
    (hs' : ∀ r ∈ separator, r.Among hs) :
    (Plan.joinStrings v list separator).Alike (Effect.Alike hs v w)
      (Plan.joinStrings w list separator) := by
  have hbetween : separator.bind w.text? = separator.bind v.text? := by
    cases separator with
    | none => rfl
    | some r => exact hvw.text?_eq (hs' r rfl)
  unfold Plan.joinStrings
  rw [hvw.list?_eq hl, hbetween]
  refine Plan.alike_need fun h hlist => ?_
  obtain ⟨hh, hcls⟩ := list_of_named? hl hlist
  have hprinted : (v h).items.mapM w.printed? = (v h).items.mapM v.printed? := by
    refine mapM_congr fun r hr => hvw.printed?_eq ?_
    obtain ⟨x, hx, rfl⟩ := List.mem_map.mp hr
    exact (hslots h hh hcls).take _ x hx
  rw [(hvw h hh).items_eq, hprinted]
  refine Plan.alike_next fun printed => ?_
  exact Plan.alike_give (.make _ fun _ _ => rfl)

/-- **A primitive decides the same with views that are alike.** -/
theorem plan_alike (hslots : ∀ h ∈ hs, (v h).cls = .list → Sound hs ((v h).words.drop 1))
    {args : List Ref} (hargs : ∀ r ∈ args, r.Among hs) (p : Primitive) (free : Nat) :
    (p.plan v free args).Alike (Effect.Alike hs v w) (p.plan w free args) := by
  have hget (i : Nat) : (args.getD i .nil).Among hs := among_getD hargs i
  unfold Primitive.plan
  split
  · exact Plan.alike_refuse _
  · cases p with
    | makeList => exact Plan.alike_give (.make _ fun _ _ => rfl)
    | newList => exact Plan.alike_give (.make _ fun _ _ => rfl)
    | freeMemory => exact Plan.alike_give (.give _)
    | addLast => exact addLast_alike hvw (hget 1) _
    | delete => exact delete_alike hvw (hget 1) (hget 0)
    | join => exact join_alike hvw hargs
    | copyFromTo => exact copyFromTo_alike hvw (hget 0) _ _
    | findInString => exact findInString_alike hvw (hget 0) (hget 1) _
    | joinStrings =>
      refine joinStrings_alike hvw hslots (hget 0) fun r hr => hargs r ?_
      exact List.mem_of_getElem? hr
    | getItem => exact getItem_alike hvw (hget 1) (hget 0)
    | putItem => exact putItem_alike hvw (hget 1) (hget 0)
    | fill => exact fill_alike hvw (hget 0)
    | length => exact length_alike hvw (hget 0)

/-- Names that belong to no primitive are refused with both views. -/
theorem planNamed_alike (hslots : ∀ h ∈ hs, (v h).cls = .list → Sound hs ((v h).words.drop 1))
    {args : List Ref} (hargs : ∀ r ∈ args, r.Among hs) (name : String) (free : Nat) :
    (Primitive.planNamed name v free args).Alike (Effect.Alike hs v w)
      (Primitive.planNamed name w free args) := by
  unfold Primitive.planNamed
  cases Primitive.ofName? name with
  | none => exact Plan.alike_refuse _
  | some p => exact plan_alike hvw hslots hargs p free

end Plans

end ObjectMemory
