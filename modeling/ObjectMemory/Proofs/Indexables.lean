import ObjectMemory.Proofs.Parts

/-!
# Lists and strings in an arena

A program sees the items of a list and the bytes of a string (`Arena.Shows`). Calls that cut and
join leave the objects that there are and add one that shows the result. They need room for it, and
stop if there is none: `Gives` says both, and what comes after it may be said of the state that
the call leaves. `gives_of_plan` is the one rule behind all such calls.
-/

namespace ObjectMemory

/-! ## Room -/

/-- The program takes up `w` more words and ends as `next` says. If the arena has not got them, it
stops, since it would need more words than there are. -/
def TakesUp {α : Type} (w : Nat) (prog : PrimM α) (c : Context) (next : α → Context → Prop) :
    Prop :=
  if c.arena.used + w < c.arena.capacity then
    ∃ x d, prog c = .ok x d ∧ d.arena.used = c.arena.used + w ∧
      d.arena.capacity = c.arena.capacity ∧ d.arena.onExhaustion = c.arena.onExhaustion ∧
      next x d
  else
    ∃ n d, c.arena.capacity ≤ n ∧
      prog c = .error (.stop (.exhausted c.arena.onExhaustion n c.arena.capacity)) d

section Room

variable {α β : Type} {w v : Nat} {prog : PrimM α} {c : Context}
  {mid next : α → Context → Prop}

theorem takesUp_pure {x : α} (hroom : c.arena.used < c.arena.capacity) (hnext : next x c) :
    TakesUp 0 (pure x) c next := by
  rw [TakesUp, Nat.add_zero, if_pos hroom]
  exact ⟨x, c, rfl, rfl, rfl, rfl, hnext⟩

theorem TakesUp.imp (hp : TakesUp w prog c mid) (himp : ∀ x d, mid x d → next x d) :
    TakesUp w prog c next := by
  unfold TakesUp at hp ⊢
  split at hp
  · next hroom =>
    obtain ⟨x, d, hrun, hused, hcap, haction, hmid⟩ := hp
    rw [if_pos hroom]
    exact ⟨x, d, hrun, hused, hcap, haction, himp x d hmid⟩
  · next hfull => rwa [if_neg hfull]

/-- **One program after another takes up what both take up.** -/
theorem TakesUp.bind {k : α → PrimM β} {last : β → Context → Prop} (hp : TakesUp w prog c mid)
    (hk : ∀ x d, mid x d → TakesUp v (k x) d last) : TakesUp (w + v) (prog >>= k) c last := by
  unfold TakesUp at hp
  split at hp
  · obtain ⟨x, d, hrun, hused, hcap, haction, hmid⟩ := hp
    have hsecond := hk x d hmid
    unfold TakesUp at hsecond ⊢
    rw [hused, hcap, haction, Nat.add_assoc] at hsecond
    rwa [bind_of_ok hrun]
  · next hfull =>
    obtain ⟨n, d, hn, hrun⟩ := hp
    rw [TakesUp, if_neg (by omega)]
    exact ⟨n, d, hn, bind_of_error hrun⟩

theorem TakesUp.map {f : α → β} {last : β → Context → Prop}
    (hp : TakesUp w prog c fun x d => last (f x) d) : TakesUp w (f <$> prog) c last := by
  rw [← bind_pure_comp]
  unfold TakesUp at hp ⊢
  split at hp
  · next hroom =>
    obtain ⟨x, d, hrun, hend⟩ := hp
    rw [if_pos hroom]
    exact ⟨f x, d, bind_of_ok hrun, hend⟩
  · next hfull =>
    obtain ⟨n, d, hn, hrun⟩ := hp
    rw [if_neg hfull]
    exact ⟨n, d, hn, bind_of_error hrun⟩

end Room

/-! ## What objects show -/

/-- A program sees that the object is a list with the items, or a string with the bytes. -/
inductive Arena.Shows (a : Arena) (h : Handle) : Indexable → Prop
  | list {items : List Ref} (cls : a.classOf h = .ok .list)
    (read : ListObject.items a h = .ok items) : a.Shows h (.list items)
  | string {bytes : List UInt8} (cls : a.classOf h = .ok .string)
    (read : a.stringBytes h = .ok bytes) (clean : 0 ∉ bytes) : a.Shows h (.string bytes)

section Shows

variable {a b : Arena} {h : Handle} {items : List Ref} {bytes : List UInt8} {x : Indexable}

theorem Arena.shows_list_iff (hh : a.Holds h) :
    a.Shows h (.list items) ↔ (a.view h).cls = .list ∧ (a.view h).items = items := by
  constructor
  · rintro ⟨cls, read⟩
    exact ⟨(classOf_eq_ok_iff hh).mp cls, Except.ok.inj ((ListObject.items_eq hh).symm.trans read)⟩
  · rintro ⟨cls, rfl⟩
    exact .list ((classOf_eq_ok_iff hh).mpr cls) (ListObject.items_eq hh)

theorem Arena.shows_string_iff (hh : a.Holds h) :
    a.Shows h (.string bytes) ↔
      (a.view h).cls = .string ∧ (a.view h).text = bytes ∧ 0 ∉ bytes := by
  constructor
  · rintro (_ | ⟨cls, read, clean⟩)
    have htext := Except.ok.inj ((stringBytes_eq hh).symm.trans read)
    exact ⟨(classOf_eq_ok_iff hh).mp cls, htext, clean⟩
  · rintro ⟨cls, rfl, clean⟩
    exact .string ((classOf_eq_ok_iff hh).mpr cls) (stringBytes_eq hh) clean

/-- What a call finds that takes the object for a list. -/
theorem Arena.Shows.list?_eq (hx : a.Shows h (.list items)) (hh : a.Holds h) :
    a.view.list? (.obj h) = some h ∧ (a.view h).items = items := by
  obtain ⟨hcls, hitems⟩ := (shows_list_iff hh).mp hx
  exact ⟨View.named?_eq_some.mpr ⟨rfl, hcls⟩, hitems⟩

theorem Arena.Shows.clean (hx : a.Shows h x) : x.Clean := by
  cases hx with
  | list => trivial
  | string _ _ clean => exact clean

/-- The bytes that a string shows are those that are read from it. -/
theorem Arena.Shows.bytes_eq (hx : a.Shows h (.string bytes)) {read : List UInt8}
    (hread : a.stringBytes h = .ok read) : bytes = read := by
  obtain ⟨⟩ | ⟨_, hbytes, _⟩ := hx
  exact Except.ok.inj (hbytes.symm.trans hread)

/-- An object that shows as the same content shows the same. -/
theorem Arena.Shows.of_view (hx : a.Shows h x) (ha : a.Holds h) (hb : b.Holds h)
    (hview : b.view h = a.view h) : b.Shows h x := by
  cases x with
  | list items => rwa [shows_list_iff hb, hview, ← shows_list_iff ha]
  | string bytes => rwa [shows_string_iff hb, hview, ← shows_string_iff ha]

/-- **The length of what an object shows is told.** -/
theorem Arena.Shows.tells {c : Context} {hs : List Handle} (hx : c.arena.Shows h x)
    (hc : c.arena.Closed hs) (hh : h ∈ hs) : Primitive.Tells "length" [.obj h] c x.length := by
  cases hx with
  | list cls read =>
    obtain ⟨items, hfound, htells⟩ := (tells_length hc hh among_nil).1 cls
    cases read.symm.trans hfound
    exact htells
  | string cls read _ =>
    obtain ⟨bytes, hfound, htells⟩ := (tells_length hc hh among_nil).2.1 cls
    cases read.symm.trans hfound
    exact htells

end Shows

/-! ## New objects -/

/-- The words of an object that is made for the items or the bytes, with its header. -/
def Indexable.words : Indexable → Nat
  | list items => items.length + 2
  | string bytes => bytes.length / 4 + 2

/-- The content is what a new object for the items or the bytes gets. -/
inductive Content.MadeFor : Content → Indexable → Prop
  | items (words : List Word) : MadeFor (.ofItems words) (.list (words.map Ref.ofWord))
  | bytes {bytes : List UInt8} (clean : 0 ∉ bytes) : MadeFor (.ofText bytes) (.string bytes)

theorem Content.MadeFor.words_eq {content : Content} {x : Indexable} (hx : content.MadeFor x) :
    1 + content.words.length = x.words := by
  cases hx with
  | items words =>
    simp only [ofItems, Indexable.words, List.length_cons, List.length_map]
    omega
  | bytes clean =>
    rw [length_words_ofText, takeWhile_ne clean, Indexable.words]
    omega

section Made

variable {a b : Arena} {content : Content} {x : Indexable}

/-- A new object's content is what the arena shows of it. -/
theorem Arena.Made.view_eq (hm : a.Made .fresh content b) (hx : content.MadeFor x) :
    b.view ⟨a.used⟩ = content := by
  rw [hm.view_new]
  cases hx <;> rfl

/-- **A new object shows what it was made for.** -/
theorem Arena.Made.shows (hm : a.Made .fresh content b) (hx : content.MadeFor x)
    (hsize : a.capacity ≤ maxArenaWords) :
    b.Shows ⟨a.used⟩ x ∧
      ∀ items, x = .list items → ListObject.capacity b ⟨a.used⟩ = .ok items.length := by
  have hview := hm.view_eq hx
  have hfits := hm.fits
  have hholds := hm.holds_new
  cases hx with
  | items words =>
    have hseq : (Content.ofItems words).sequence = ⟨words.map Ref.ofWord, words.length⟩ := by
      refine Content.sequence_ofItems ?_
      simp only [Fits, Content.ofItems, List.length_cons] at hfits
      omega
    have hitems := congrArg Sequence.items hseq
    have hcapacity := congrArg Sequence.capacity hseq
    rw [← hview] at hitems hcapacity
    refine ⟨(shows_list_iff hholds).mpr ⟨by rw [hview]; rfl, hitems⟩, ?_⟩
    rintro items ⟨⟩
    rw [ListObject.capacity_eq hholds, List.length_map]
    exact congrArg Except.ok hcapacity
  | bytes clean =>
    refine ⟨(shows_string_iff hholds).mpr ⟨by rw [hview]; rfl, ?_, clean⟩, ?_⟩
    · rw [hview, Content.text_ofText, takeWhile_ne clean]
    · rintro items ⟨⟩

end Made

/-- Nothing differs but a new object `g` that shows `x`. If it is a list, it has no spare slots. -/
structure Added (c : Context) (hs : List Handle) (x : Indexable) (g : Handle) (d : Context) :
    Prop where
  closed : d.arena.Closed (hs ++ [g])
  kept : ∀ h ∈ hs, c.arena.Keeps h d.arena
  shows : d.arena.Shows g x
  full : ∀ items, x = .list items → ListObject.capacity d.arena g = .ok items.length

/-- The call gives a new object that shows `x`, and `next` holds then. If there is no room for the
object, the call stops. -/
def Gives (c : Context) (hs : List Handle) (name : String) (args : List Ref) (x : Indexable)
    (next : Handle → Context → Prop) : Prop :=
  TakesUp x.words (Primitive.invoke name args) c fun r d =>
    ∃ g, r = .obj g ∧ Added c hs x g d ∧ next g d

section Adding

variable {c d : Context} {hs : List Handle} {g h : Handle} {x y : Indexable}

theorem Added.mem_new (_ : Added c hs x g d) : g ∈ hs ++ [g] :=
  List.mem_append_right _ List.mem_cons_self

theorem Added.among_old (_ : Added c hs x g d) {r : Ref} (hr : r.Among hs) :
    r.Among (hs ++ [g]) :=
  fun h heq => List.mem_append_left _ (hr h heq)

theorem Added.view_old (ha : Added c hs x g d) (hc : c.arena.Closed hs) (hh : h ∈ hs) :
    d.arena.view h = c.arena.view h :=
  (ha.kept h hh).view_eq (hc.tiled.holds hh) (ha.closed.tiled.holds (List.mem_append_left _ hh))

theorem Added.classOf_old (ha : Added c hs x g d) (hc : c.arena.Closed hs) (hh : h ∈ hs) :
    d.arena.classOf h = c.arena.classOf h := by
  rw [Arena.classOf_eq (hc.tiled.holds hh), ← ha.view_old hc hh]
  exact Arena.classOf_eq (ha.closed.tiled.holds (List.mem_append_left _ hh))

/-- **An old object shows what it showed.** -/
theorem Added.shows_iff (ha : Added c hs x g d) (hc : c.arena.Closed hs) (hh : h ∈ hs) :
    d.arena.Shows h y ↔ c.arena.Shows h y := by
  have hold := hc.tiled.holds hh
  have hnew := ha.closed.tiled.holds (List.mem_append_left [g] hh)
  have hview := ha.view_old hc hh
  exact ⟨fun hy => hy.of_view hnew hold hview.symm, fun hy => hy.of_view hold hnew hview⟩

theorem Added.tells (ha : Added c hs x g d) : Primitive.Tells "length" [.obj g] d x.length :=
  ha.shows.tells ha.closed ha.mem_new

theorem Gives.imp {name : String} {args : List Ref} {mid next : Handle → Context → Prop}
    (hg : Gives c hs name args x mid) (himp : ∀ g d, Added c hs x g d → mid g d → next g d) :
    Gives c hs name args x next := by
  refine TakesUp.imp hg ?_
  rintro r d ⟨g, rfl, hadded, hmid⟩
  exact ⟨g, rfl, hadded, himp g d hadded hmid⟩

/-- **A call whose plan is to make an object for `x` gives one.** -/
theorem gives_of_plan (hc : c.arena.Closed hs) {name : String} {args : List Ref}
    (hargs : ∀ r ∈ args, r.Among hs) {content : Content} (hx : content.MadeFor x)
    (hplan : Primitive.planNamed name c.arena.view c.arena.freeWords args =
      .give (.make .fresh content))
    {next : Handle → Context → Prop} (hnext : ∀ g d, Added c hs x g d → next g d) :
    Gives c hs name args x next := by
  have hp := invoke_performs hc hargs hplan
  have hwithin : content.cls = .list → Sound hs content.words := by
    have hensures := planNamed_within hc hargs name
    rw [hplan] at hensures
    exact hensures.2
  have hfits := hc.tiled.fits_iff content.words.length
  unfold Gives TakesUp
  simp only [Effect.Performed] at hp
  rw [hx.words_eq] at hfits
  by_cases hroom : c.arena.used + x.words < c.arena.capacity
  · rw [if_pos (hfits.mpr hroom)] at hp
    obtain ⟨b, hrun, hmade⟩ := hp
    obtain ⟨hshows, hfull⟩ := hmade.shows hx hc.tiled.size
    have hadded : Added c hs x ⟨c.arena.used⟩ ⟨b, c.source⟩ :=
      ⟨hc.made hmade hwithin, fun h hh => hmade.keeps (hc.tiled.holds hh), hshows, hfull⟩
    rw [if_pos hroom]
    refine ⟨_, _, hrun, ?_, hmade.capacity, hmade.action, _, rfl, hadded, hnext _ _ hadded⟩
    rw [hmade.used, hx.words_eq]
  · have hfull := fun h => hroom (hfits.mp h)
    rw [if_neg hfull] at hp
    rw [if_neg hroom]
    exact ⟨_, _, capacity_le_reported hc.tiled.size hfull, hp⟩

end Adding

end ObjectMemory
