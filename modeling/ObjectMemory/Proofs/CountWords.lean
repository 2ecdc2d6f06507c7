import ObjectMemory.Proofs.SameSlots
import ObjectMemory.Proofs.Twins

/-!
# Count words

The first payload word of a list is an ordinary word, and a program that stores references may
store anything there: a count that is too large or negative, a handle, nil. Take two arenas that
agree on everything but such words, and let each of these count as many items in both. Then no run
of calls can tell the two arenas apart, and no run brings about any other difference:
`count_words_never_matter`.

The arenas are compared word for word (`Arena.CountAlike`). As long as objects tile the used words,
this says the same as that the objects show contents that are alike (`CountAlike.view`,
`countAlike_of_views`), and of these it is known that plans do not tell them apart.
-/

namespace ObjectMemory

namespace Arena

variable {a b a' b' : Arena} {hs : List Handle} {h : Handle} {ws vs : List Word}

/-- Word `j` is the first payload word of the list `h`. -/
def CountsAt (a : Arena) (h : Handle) (j : Nat) : Prop :=
  a.classOf h = .ok .list ∧ j = h.index + 1 ∧ j < a.store.after h.index

/-- The arenas agree on everything but the words that hold counts, and these count as many items
in both. -/
structure CountAlike (a b : Arena) : Prop where
  capacity : b.capacity = a.capacity
  used : b.used = a.used
  action : b.onExhaustion = a.onExhaustion
  counters : b.counters = a.counters
  journal : b.journal = a.journal
  get : ∀ j, (∀ h ∈ a.walk.1, ¬ a.CountsAt h j) → b.store.get j = a.store.get j
  count : ∀ h ∈ a.walk.1, a.classOf h = .ok .list → ListObject.count b h = ListObject.count a h

theorem Tiled.walk_handles (ht : a.Tiled hs) : a.walk.1 = hs :=
  congrArg Prod.fst ht.walk_eq

/-! ## Arenas and views -/

theorem CountAlike.header (hab : a.CountAlike b) (ht : a.Tiled hs) (hh : h ∈ hs) :
    b.store.get h.index = a.store.get h.index := by
  refine hab.get h.index fun g hg hcounts => ?_
  rw [ht.walk_handles] at hg
  obtain ⟨_, hindex, hafter⟩ := hcounts
  exact ht.tiles.ne_of_within hh hg (by omega) hafter rfl

theorem CountAlike.tiled (hab : a.CountAlike b) (ht : a.Tiled hs) : b.Tiled hs :=
  ht.transport hab.used hab.capacity fun _ hh => hab.header ht hh

theorem CountAlike.above (hab : a.CountAlike b) (ht : a.Tiled hs) {j : Nat} (hj : a.used ≤ j) :
    b.store.get j = a.store.get j := by
  refine hab.get j fun g hg hcounts => ?_
  rw [ht.walk_handles] at hg
  have hafter := (ht.holds hg).after_le
  obtain ⟨_, _, hlt⟩ := hcounts
  omega

/-- A payload word that holds no count is the same in both. -/
theorem CountAlike.get_payload (hab : a.CountAlike b) (ht : a.Tiled hs) (hh : h ∈ hs) {i : Nat}
    (hi : i < a.store.wordsAt h.index) (hslot : 1 ≤ i ∨ (a.view h).cls ≠ .list) :
    b.store.get (h.index + 1 + i) = a.store.get (h.index + 1 + i) := by
  refine hab.get _ fun g hg hcounts => ?_
  rw [ht.walk_handles] at hg
  obtain ⟨hlist, hindex, _⟩ := hcounts
  rcases hslot with hpos | hcls
  · -- the list would start within the payload of the object
    refine ht.tiles.ne_of_within hg hh ?_ ?_ rfl
    · omega
    · rw [Store.after_eq]
      omega
  · by_cases hgh : g = h
    · subst hgh
      rw [classOf_eq (ht.holds hh)] at hlist
      exact hcls (Except.ok.inj hlist)
    · have hne : g.index ≠ h.index := by
        intro heq
        refine hgh ?_
        cases g
        cases h
        exact congrArg Handle.mk heq
      refine ht.tiles.ne_of_within hg hh ?_ ?_ rfl
      · omega
      · rw [Store.after_eq]
        omega

theorem sameSlots_of_getElem? (hlen : vs.length = ws.length)
    (hget : ∀ i, 1 ≤ i → vs[i]? = ws[i]?) : SameSlots ws vs := by
  match ws, vs, hlen with
  | [], [], _ => exact .nil
  | x :: slots, y :: others, _ =>
    have hslots : others = slots := by
      apply List.ext_getElem?
      intro k
      exact hget (k + 1) (Nat.le_add_left 1 k)
    subst hslots
    exact .cons x y others

/-- **The objects of arenas that are alike show contents that are.** -/
theorem CountAlike.view (hab : a.CountAlike b) (ht : a.Tiled hs) : a.view.Alike hs b.view := by
  intro h hh
  have ha := ht.holds hh
  have hb := (hab.tiled ht).holds hh
  have hheader := hab.header ht hh
  have hcls : (b.view h).cls = (a.view h).cls := by
    rw [view_of_holds ha, view_of_holds hb, content, content, hheader]
  have hsize : b.store.wordsAt h.index = a.store.wordsAt h.index := by
    rw [Store.wordsAt, Store.wordsAt, hheader]
  have hlen : (b.view h).words.length = (a.view h).words.length := by
    rw [length_view ha, length_view hb, hsize]
  have hget (i : Nat) (hslot : 1 ≤ i ∨ (a.view h).cls ≠ .list) :
      (b.view h).words[i]? = (a.view h).words[i]? := by
    rw [getElem?_view ha, getElem?_view hb, hsize]
    split
    · next hi => rw [hab.get_payload ht hh hi hslot]
    · rfl
  have hwords : (a.view h).cls ≠ .list → (b.view h).words = (a.view h).words := by
    intro hne
    apply List.ext_getElem?
    intro i
    exact hget i (Or.inr hne)
  refine ⟨hcls, sameSlots_of_getElem? hlen fun i hi => hget i (Or.inl hi), ?_, hwords⟩
  by_cases hlist : (a.view h).cls = .list
  · have hcount := hab.count h (ht.walk_handles ▸ hh) (by rw [classOf_eq ha, hlist])
    rw [ListObject.count_eq ha, ListObject.count_eq hb] at hcount
    exact Except.ok.inj hcount
  · have hfirst := hget 0 (Or.inr hlist)
    exact Content.count_of_first hlen hfirst

/-- **Arenas whose objects show contents that are alike are alike**, if the rest is the same. -/
theorem countAlike_of_views (ha : a.Tiled hs) (hb : b.Tiled hs) (hcap : b.capacity = a.capacity)
    (hused : b.used = a.used) (haction : b.onExhaustion = a.onExhaustion)
    (hcounters : b.counters = a.counters) (hjournal : b.journal = a.journal)
    (hheader : ∀ h ∈ hs, b.store.get h.index = a.store.get h.index)
    (hview : a.view.Alike hs b.view)
    (habove : ∀ j, a.used ≤ j → b.store.get j = a.store.get j) : a.CountAlike b where
  capacity := hcap
  used := hused
  action := haction
  counters := hcounters
  journal := hjournal
  get j hno := by
    rw [ha.walk_handles] at hno
    by_cases hj : j < a.used
    · obtain ⟨h, hh, hlo, hhi⟩ := ha.tiles.covers (Nat.zero_le j) hj
      have hha := ha.holds hh
      by_cases hhead : j = h.index
      · rw [hhead]
        exact hheader h hh
      · -- a word of the payload is one that the object shows
        obtain ⟨i, rfl⟩ : ∃ i, j = h.index + 1 + i := ⟨j - (h.index + 1), by omega⟩
        have hsize : b.store.wordsAt h.index = a.store.wordsAt h.index := by
          rw [Store.wordsAt, Store.wordsAt, hheader h hh]
        have hi : i < a.store.wordsAt h.index := by
          rw [Store.after_eq] at hhi
          omega
        have hc := hview h hh
        have hshown : (b.view h).words[i]? = (a.view h).words[i]? := by
          by_cases hpos : 1 ≤ i
          · exact hc.slots.getElem?_eq hpos
          · rw [hc.words fun hlist => hno h hh ⟨?_, by omega, hhi⟩]
            rw [classOf_eq hha, hlist]
        rw [getElem?_view_of_lt hha hi, getElem?_view_of_lt (hb.holds hh) (hsize ▸ hi)] at hshown
        exact Option.some.inj hshown
    · exact habove j (Nat.not_lt.mp hj)
  count h hh hlist := by
    rw [ha.walk_handles] at hh
    rw [ListObject.count_eq (ha.holds hh), ListObject.count_eq (hb.holds hh), (hview h hh).count]

/-! ## Changes that keep arenas alike -/

theorem CountAlike.fits (hab : a.CountAlike b) (n : Nat) : b.Fits n ↔ a.Fits n := by
  unfold Fits
  rw [hab.capacity, hab.used]

theorem CountAlike.exhaustion (hab : a.CountAlike b) (n : Nat) :
    b.exhaustion n = a.exhaustion n := by
  rw [Arena.exhaustion, Arena.exhaustion, hab.action, hab.used, hab.capacity]

theorem CountAlike.refused (hab : a.CountAlike b) (n : Nat) :
    (a.refused n).CountAlike (b.refused n) where
  capacity := hab.capacity
  used := hab.used
  action := hab.action
  counters := hab.counters
  journal := by
    rw [Arena.refused, Arena.refused, hab.journal, hab.used, hab.capacity]
  get := hab.get
  count := hab.count

/-- **Arenas stay alike when rows that are alike are stored into them.** -/
theorem CountAlike.stored (hab : a.CountAlike b) (ht : a.Tiled hs) (hh : h ∈ hs)
    (ha : a.Stored h ws a') (hb : b.Stored h vs b')
    (hrows : Content.Alike ⟨(a.view h).cls, ws⟩ ⟨(a.view h).cls, vs⟩) : a'.CountAlike b' := by
  have htb := hab.tiled ht
  refine countAlike_of_views (ht.wrote hh ha.toWroteIn) (htb.wrote hh hb.toWroteIn)
    ?_ ?_ ?_ ?_ ?_ (fun g hg => ?_) (fun g hg => ?_) fun j hj => ?_
  · rw [ha.capacity, hb.capacity, hab.capacity]
  · rw [ha.used, hb.used, hab.used]
  · rw [ha.action, hb.action, hab.action]
  · rw [ha.counters, hb.counters, hab.counters]
  · rw [ha.journal, hb.journal, hab.journal]
  · rw [ht.wrote_header hh hg ha.toWroteIn, htb.wrote_header hh hg hb.toWroteIn,
      hab.header ht hg]
  · by_cases hgh : g = h
    · subst hgh
      rw [ha.view_eq (ht.holds hh), hb.view_eq (htb.holds hh), (hab.view ht g hh).cls]
      exact hrows
    · rw [ht.view_other hh hg hgh ha.toWroteIn, htb.view_other hh hg hgh hb.toWroteIn]
      exact hab.view ht g hg
  · have hafterA := (ht.holds hh).after_le
    have hafterB := (htb.holds hh).after_le
    have hused := hab.used
    rw [ha.used] at hj
    rw [ha.get j (by omega), hb.get j (by omega), hab.above ht hj]

theorem CountAlike.refl (a : Arena) : a.CountAlike a :=
  ⟨rfl, rfl, rfl, rfl, rfl, fun _ _ => rfl, fun _ _ _ => rfl⟩

/-- **Another word that counts to the same leaves the arena alike.** -/
theorem countAlike_of_stored (ht : a.Tiled hs) (hh : h ∈ hs) (hst : a.Stored h ws b)
    (hrows : (a.view h).Alike ⟨(a.view h).cls, ws⟩) : a.CountAlike b :=
  (CountAlike.refl a).stored ht hh ⟨WroteIn.refl a h, rfl⟩ hst hrows

/-- **Arenas stay alike when the same object is made in both.** -/
theorem CountAlike.made (hab : a.CountAlike b) (ht : a.Tiled hs) {o : Origin} {c : Content}
    (ha : a.Made o c a') (hb : b.Made o c b')
    (hrecorded : ∀ start words, o.recorded b.view start words = o.recorded a.view start words) :
    a'.CountAlike b' := by
  have htb := hab.tiled ht
  have htb' := htb.gained hb.toGained
  rw [hab.used] at htb'
  refine countAlike_of_views (ht.gained ha.toGained) htb'
    ?_ ?_ ?_ ?_ ?_ (fun g hg => ?_) (fun g hg => ?_) fun j hj => ?_
  · rw [ha.capacity, hb.capacity, hab.capacity]
  · rw [ha.used, hb.used, hab.used]
  · rw [ha.action, hb.action, hab.action]
  · rw [ha.counters, hb.counters, hab.counters, hab.used]
  · rw [ha.journal, hb.journal, hab.journal, hab.used, hrecorded]
  · rcases List.mem_append.mp hg with hg | hg
    · have hafter := (ht.holds hg).after_le
      have hlt := a.store.lt_after g.index
      have hused := hab.used
      rw [ha.get g.index (by omega), hb.get g.index (by omega), hab.header ht hg]
    · rw [List.mem_singleton.mp hg]
      have hnew := hb.header
      rw [hab.used] at hnew
      rw [ha.header, hnew]
  · rcases List.mem_append.mp hg with hg | hg
    · rw [ha.view_old (ht.holds hg), hb.view_old (htb.holds hg)]
      exact hab.view ht g hg
    · have hnew := hb.view_new
      rw [hab.used] at hnew
      rw [List.mem_singleton.mp hg, ha.view_new, hnew]
      exact .refl _
  · have hused := hab.used
    rw [ha.used] at hj
    rw [ha.get j (by omega), hb.get j (by omega), hab.above ht (by omega)]

end Arena

/-! ## Slots -/

/-- A list with the count that it has stated. -/
def Content.clamped (c : Content) : Content :=
  if c.cls = .list then ⟨c.cls, restated c.words c.count⟩ else c

theorem SameSlots.set_first (ws : List Word) (w : Word) : SameSlots ws (ws.set 0 w) := by
  cases ws with
  | nil => exact .nil
  | cons x slots => exact .cons x w slots

theorem Content.clamped_alike (c : Content) (hsize : c.words.length ≤ maxArenaWords) :
    c.Alike c.clamped := by
  unfold clamped
  split
  · next hlist =>
    refine ⟨rfl, SameSlots.set_first _ _, ?_, fun hne => absurd hlist hne⟩
    have hcount := c.count_le
    unfold capacity at hcount
    by_cases hpos : 0 < c.words.length
    · exact count_restated (by omega) hsize
    · -- a list without a word has no count to state
      have hnil : c.words = [] := List.eq_nil_of_length_eq_zero (by omega)
      refine count_of_first List.length_set ?_
      rw [Content.restated, hnil]
      rfl
  · exact Alike.refl c

theorem SoundSlots.restated {hs : List Handle} {ws : List Word} (hws : SoundSlots hs ws) (n : Nat) :
    Sound hs (Content.restated ws n) := by
  cases ws with
  | nil => exact hws
  | cons x slots => exact Sound.cons (among_stored_int _ hs) hws

namespace Arena.SlotsClosed

variable {a b : Arena} {hs : List Handle}

theorem of_alike (hc : a.SlotsClosed hs) (hab : a.CountAlike b) : b.SlotsClosed hs where
  tiled := hab.tiled hc.tiled
  sound h hh hcls := by
    have halike := hab.view hc.tiled h hh
    rw [halike.cls] at hcls
    unfold SoundSlots
    rw [halike.slots.drop_eq (Nat.le_refl 1)]
    exact hc.sound h hh hcls

/-- The sizes of objects are those of a small arena. -/
theorem small (hc : a.SlotsClosed hs) {h : Handle} (hh : h ∈ hs) :
    (a.view h).words.length ≤ maxArenaWords := by
  have hold := hc.tiled.holds hh
  have hafter := hold.after_le
  have hused := hold.used_le
  have hsize := hc.tiled.size
  rw [length_view hold]
  rw [Store.after_eq] at hafter
  omega

/-- With the counts stated, the lists hold nothing but what may be named. -/
theorem clamped_nameable (hc : a.SlotsClosed hs) :
    View.Nameable (fun h => (a.view h).clamped) hs where
  small h hh := hc.tiled.small hh
  sound h hh hcls := by
    have hlist : (a.view h).cls = .list := by
      rw [← (Content.clamped_alike _ (hc.small hh)).cls]
      exact hcls
    rw [Content.clamped, if_pos hlist]
    exact (hc.sound h hh hlist).restated _

/-- **What a plan stores into lists leaves their slots sound.** It does the same as a plan in a
view where all counts are stated, and such a plan makes up no handles. -/
theorem leaves (hc : a.SlotsClosed hs) {args : List Ref} (hargs : ∀ r ∈ args, r.Among hs)
    (name : String) (free : Nat) {s t : Source} {e : Effect}
    (hrun : (Primitive.planNamed name a.view free args).run s = (.ok e, t)) :
    e.Leaves (SoundSlots hs) hs a.view := by
  let w : View := fun h => (a.view h).clamped
  have hvw : a.view.Alike hs w := fun h hh => Content.clamped_alike _ (hc.small hh)
  have hboth := planNamed_alike hvw hc.sound hargs name free s
  have hwithin : (Primitive.planNamed name w free args).Ensures (Effect.Within hs w) :=
    Primitive.planNamed_ensures (fun p => plan_within hc.clamped_nameable hargs p free) name
  rw [hrun] at hboth
  generalize hother : (Primitive.planNamed name w free args).run s = other at hboth
  cases hboth with
  | ok t related =>
    have he := hwithin.of_run hother
    cases related with
    | give r => exact he
    | rewrite r issued rows =>
      obtain ⟨hh, hr, hws⟩ := he
      refine ⟨hh, hr, fun hlist => ?_⟩
      have hsound := hws ((hvw _ hh).cls.trans hlist)
      unfold SoundSlots
      rw [← rows.slots.drop_eq (Nat.le_refl 1)]
      exact hsound.drop 1
    | make c recorded => exact fun hlist => (he.2 hlist).drop 1

end Arena.SlotsClosed

/-! ## Calls in arenas that are alike -/

/-- The arenas are alike and the sources the same. -/
structure Context.CountAlike (c d : Context) : Prop where
  arena : c.arena.CountAlike d.arena
  source : d.source = c.source

section Calls

variable {c d : Context} {hs : List Handle} {args : List Ref}

/-- **Effects that are alike come to the same** in arenas that are. -/
theorem Effect.Alike.performed {a b : Arena} {s : Source} {e f : Effect} (hab : a.CountAlike b)
    (ht : a.Tiled hs) (hef : e.Alike hs a.view b.view f)
    {x y : EStateM.Result Refusal Context Ref} (hx : e.Performed a s x) (hy : f.Performed b s y) :
    SameEnd Context.CountAlike x y := by
  cases hef with
  | give r =>
    cases hx
    cases hy
    exact .ok r ⟨hab, rfl⟩
  | rewrite r issued rows =>
    obtain ⟨a', rfl, hstA⟩ := hx
    obtain ⟨b', rfl, hstB⟩ := hy
    exact .ok r ⟨hab.stored ht issued hstA hstB rows, rfl⟩
  | make content recorded =>
    simp only [Effect.Performed] at hx hy
    by_cases hfits : a.Fits content.words.length
    · rw [if_pos hfits] at hx
      rw [if_pos ((hab.fits _).mpr hfits)] at hy
      obtain ⟨a', rfl, hmadeA⟩ := hx
      obtain ⟨b', rfl, hmadeB⟩ := hy
      rw [hab.used]
      exact .ok _ ⟨hab.made ht hmadeA hmadeB recorded, rfl⟩
    · rw [if_neg hfits] at hx
      rw [if_neg fun hfitsB => hfits ((hab.fits _).mp hfitsB)] at hy
      rw [hx, hy, hab.exhaustion]
      exact .error _ ⟨hab.refused _, rfl⟩

/-- **A primitive does the same in arenas that are alike.** -/
theorem invoke_alike (hcd : c.CountAlike d) (hc : c.arena.SlotsClosed hs)
    (hargs : ∀ r ∈ args, r.Among hs) (name : String) :
    SameEnd Context.CountAlike (Primitive.invoke name args c) (Primitive.invoke name args d) := by
  obtain ⟨harena, hsource⟩ := hcd
  have hx := invoke_carries (hc.knowsArguments hargs) name
  have hy := invoke_carries ((hc.of_alike harena).knowsArguments hargs) name
  have hfree : d.arena.freeWords = c.arena.freeWords := by
    rw [Arena.freeWords, Arena.freeWords, harena.capacity, harena.used]
  unfold Carries at hx hy
  rw [hfree, hsource] at hy
  have hboth :=
    planNamed_alike (harena.view hc.tiled) hc.sound hargs name c.arena.freeWords c.source
  generalize (Primitive.planNamed name c.arena.view c.arena.freeWords args).run c.source = p
    at hx hboth
  generalize (Primitive.planNamed name d.arena.view c.arena.freeWords args).run c.source = q
    at hy hboth
  cases hboth with
  | ok s related => exact related.performed harena hc.tiled hx hy
  | error f s =>
    rw [hx, hy]
    exact .error _ ⟨harena, rfl⟩

/-- **A call keeps the slots sound**, whether it gives a value or is refused. -/
theorem Arena.SlotsClosed.step (hc : c.arena.SlotsClosed hs) {name : String}
    (hargs : ∀ r ∈ args, r.Among hs) {answer : Answer}
    (hrun : (Command.invoke name args).run c = .ok answer d) :
    d.arena.SlotsClosed ((Command.invoke name args).handles hs answer) := by
  have hcarries := invoke_carries (hc.knowsArguments hargs) name
  rw [run_invoke] at hrun
  unfold Carries at hcarries
  cases hplan : (Primitive.planNamed name c.arena.view c.arena.freeWords args).run c.source with
  | mk result s =>
    rw [hplan] at hcarries
    cases result with
    | error f =>
      rw [hcarries] at hrun
      cases hrun
      exact hc
    | ok e =>
      rcases hcarries.result with ⟨r, d', hok⟩ | ⟨n, _, hstop⟩
      · rw [hok] at hcarries hrun
        cases hrun
        have hleaves := hc.leaves hargs name _ hplan
        obtain ⟨htiled, hlists⟩ := hc.tiled.performed hc.sound hleaves hcarries
        refine ⟨htiled, fun g hg hcls => ?_⟩
        exact Sound.mono (hlists g hg hcls) (subset_noted hs r)
      · rw [hstop] at hrun
        cases hrun

/-- Calls by name, with their arguments, as commands. -/
def invocations (calls : List (String × List Ref)) : List Command :=
  calls.map fun call => .invoke call.1 call.2

end Calls

/-- **Count words never matter beyond what they count to.** Take two contexts that agree on
everything, words beyond the used ones and the journal included, except on the words that hold
counts. These may be any words at all, as long as each counts as many items as its counterpart. Let
the slots of lists hold no handles but those of the objects `hs` that tile the used words.

Then any row of calls that names only these and what it was given itself is answered in the same
way in both, refusals included, and ends with the same stop, if it does. After any number `n` of
the calls the contexts agree again on everything except such words, so they have as many words in
use. -/
theorem count_words_never_matter {c d : Context} {hs : List Handle} (hc : c.arena.SlotsClosed hs)
    (hcd : c.CountAlike d) {calls : List (String × List Ref)}
    (hon : AllHonest hs (invocations calls) c) (n : Nat) :
    let one := runAll (invocations (calls.take n)) c
    let other := runAll (invocations (calls.take n)) d
    other.answers = one.answers ∧ other.stop = one.stop ∧ one.final.CountAlike other.final := by
  have htake : invocations (calls.take n) = (invocations calls).take n := List.map_take
  have hprefix : AllHonest hs (invocations (calls.take n)) c := by
    rw [htake]
    exact hon.take n
  refine runAll_in_step (fun d c => c.CountAlike d) (fun hs c => c.arena.SlotsClosed hs)
    ?_ ?_ hcd hc hprefix
  · intro cmd hcmd hs d c hcd hc hfirst
    obtain ⟨call, _, rfl⟩ := List.mem_map.mp hcmd
    exact (run_invoke_same (invoke_alike hcd hc hfirst call.1)).flip
  · intro cmd hcmd hs c answer e hc hfirst hrun
    obtain ⟨call, _, rfl⟩ := List.mem_map.mp hcmd
    exact hc.step hfirst hrun

/-- A list has two slots and two items, and in a copy of its arena it says that it has 99. In both
it moves when it gets a third one. -/
theorem overstated_count :
    ∃ c d, Session c [⟨0⟩] ∧ Arena.setField ⟨0⟩ 0 (.int 99) c.arena = .ok () d.arena ∧ ∀ n,
      let calls := [("addLast", [.true, .obj ⟨0⟩]), ("at", [.int 3, .obj ⟨4⟩])].take n
      let one := runAll (invocations calls) c
      let other := runAll (invocations calls) d
      other.answers = one.answers ∧ other.stop = one.stop ∧ one.final.CountAlike other.final := by
  let calls : List (String × List Ref) :=
    [("addLast", [.true, .obj ⟨0⟩]), ("at", [.int 3, .obj ⟨4⟩])]
  have hlist {r : Ref} (hr : r.obj? = none) : ∀ x ∈ [r, .obj ⟨0⟩], x.Among [⟨0⟩] :=
    among_pair (among_of_obj? hr _) (among_obj.mpr (by decide))
  obtain ⟨c, hses, hlen, hcount, hon⟩ : ∃ c, Session c [⟨0⟩] ∧
      0 < (c.arena.view ⟨0⟩).words.length ∧
      (c.arena.view ⟨0⟩).Alike
        ⟨(c.arena.view ⟨0⟩).cls, (c.arena.view ⟨0⟩).words.set 0 (Ref.int 99).toWord⟩ ∧
      AllHonest [⟨0⟩] (invocations calls) c := by
    have h0 := Session.start 64 .panic (Source.ofList [])
    have h1 := Session.step (.invoke "newList" []) h0 (fun r hr => nomatch hr) rfl
    have h2 := Session.step (.invoke "addLast" [.int 7, .obj ⟨0⟩]) h1 (hlist rfl) rfl
    have h3 := Session.step (.invoke "addLast" [.nil, .obj ⟨0⟩]) h2 (hlist rfl) rfl
    refine ⟨_, h3, by decide, ⟨rfl, SameSlots.set_first _ _, by decide, fun hne => ?_⟩, ?_⟩
    · exact absurd rfl hne
    · refine allHonest_cons (hlist rfl) rfl (allHonest_single (among_pair ?_ ?_))
      · exact among_of_obj? rfl _
      · exact among_obj.mpr (by decide)
  have hc := hses.closed.slots
  have hmem : (⟨0⟩ : Handle) ∈ [⟨0⟩] := List.mem_cons_self
  obtain ⟨b, hrun, hst⟩ := Arena.setField_stored (hc.tiled.holds hmem) hlen (.int 99)
  have hcd : Context.CountAlike c ⟨b, c.source⟩ :=
    ⟨Arena.countAlike_of_stored hc.tiled hmem hst hcount, rfl⟩
  exact ⟨c, ⟨b, c.source⟩, hses, hrun, fun n => count_words_never_matter hc hcd hon n⟩

end ObjectMemory
