import ObjectMemory.Proofs.Joining
import ObjectMemory.Proofs.Slicing

/-!
# Splitting

What is split can be joined again. A program may cut a list or a string at any place, take the part
up to there and the part after it, and join the two. Or it may take a string apart by its code
points, each as a string of its own, make a list of them, and join its items. Each time it has what
it began with (`splitting_and_joining_restore`).

For strings this is more than a law of rows: the bytes are packed into words at every step, and the
code points are looked for anew.
-/

namespace ObjectMemory

open CodePoints (pieces)

/-! ## What stays while parts are added -/

/-- The objects `gs` are there, and among them those of `hs`, which are as they were. -/
structure Later (c : Context) (hs : List Handle) (d : Context) (gs : List Handle) : Prop where
  closed : d.arena.Closed gs
  sub : hs ⊆ gs
  kept : ∀ h ∈ hs, c.arena.Keeps h d.arena

/-- The reference names an object of `hs`, which shows `x`. -/
def Arena.Names (a : Arena) (hs : List Handle) (r : Ref) (x : Indexable) : Prop :=
  ∃ h ∈ hs, r = .obj h ∧ a.Shows h x

section Later

variable {c d e : Context} {hs gs : List Handle} {g h : Handle} {r : Ref} {x y : Indexable}
  {parts : List Ref} {texts : List (List UInt8)}

theorem later_refl (hc : c.arena.Closed hs) : Later c hs c hs :=
  ⟨hc, List.Subset.refl _, fun _ _ _ _ _ => rfl⟩

theorem Later.added (hl : Later c hs d gs) (ha : Added d gs x g e) :
    Later c hs e (gs ++ [g]) where
  closed := ha.closed
  sub := fun _ hh => List.mem_append_left _ (hl.sub hh)
  kept := fun h hh => (hl.kept h hh).trans (ha.kept h (hl.sub hh))

/-- **What was there shows what it showed.** -/
theorem Later.shows (hl : Later c hs d gs) (hc : c.arena.Closed hs) (hh : h ∈ hs)
    (hx : c.arena.Shows h x) : d.arena.Shows h x := by
  have hold := hc.tiled.holds hh
  have hnew := hl.closed.tiled.holds (hl.sub hh)
  exact hx.of_view hold hnew ((hl.kept h hh).view_eq hold hnew)

theorem Added.names (ha : Added c hs x g d) (hc : c.arena.Closed hs)
    (hr : c.arena.Names hs r y) : d.arena.Names (hs ++ [g]) r y := by
  obtain ⟨h, hh, rfl, hy⟩ := hr
  exact ⟨h, List.mem_append_left _ hh, rfl, (ha.shows_iff hc hh).mpr hy⟩

theorem Added.names_new (ha : Added c hs x g d) : d.arena.Names (hs ++ [g]) (.obj g) x :=
  ⟨g, ha.mem_new, rfl, ha.shows⟩

theorem Arena.Names.among {a : Arena} (hr : a.Names hs r x) : r.Among hs := by
  obtain ⟨h, hh, rfl, _⟩ := hr
  exact among_obj.mpr hh

theorem Arena.Names.canonical (hr : c.arena.Names hs r x) (hc : c.arena.Closed hs) :
    r.Canonical := by
  obtain ⟨h, hh, rfl, _⟩ := hr
  exact hc.tiled.small hh

theorem Arena.Names.tells (hr : c.arena.Names hs r x) (hc : c.arena.Closed hs) :
    Primitive.Tells "length" [r] c x.length := by
  obtain ⟨h, hh, rfl, hx⟩ := hr
  exact hx.tells hc hh

end Later

/-! ## Two parts -/

section Two

variable {c : Context} {hs : List Handle} {p q : Handle} {x y z : Indexable}

/-- **Two lists, or two strings, are joined to what both show.** -/
theorem joinTwo_gives (hc : c.arena.Closed hs) (hp : p ∈ hs) (hq : q ∈ hs)
    (hy : c.arena.Shows p y) (hz : c.arena.Shows q z) (happend : y.append? z = some x)
    {next : Handle → Context → Prop} (hnext : ∀ g d, Added c hs x g d → next g d) :
    Gives c hs "join" [.obj p, .obj q] x next := by
  have hargs : ∀ r ∈ [Ref.obj p, Ref.obj q], r.Among hs :=
    among_pair (among_obj.mpr hp) (among_obj.mpr hq)
  have hholds := hc.tiled.holds hp
  have hholds' := hc.tiled.holds hq
  cases hy with
  | list cls read =>
    cases hz with
    | string => cases happend
    | list cls' read' =>
      cases happend
      obtain ⟨hfirst, rfl⟩ := (Arena.Shows.list cls read).list?_eq hholds
      obtain ⟨hsecond, rfl⟩ := (Arena.Shows.list cls' read').list?_eq hholds'
      have hlists : [Ref.obj p, .obj q].mapM c.arena.view.list? = some [p, q] := by
        rw [List.mapM_cons, List.mapM_cons, hfirst, hsecond]
        rfl
      have hmade := Content.MadeFor.items ([p, q].flatMap fun g => (c.arena.view g).itemWords)
      have hitems : ([p, q].flatMap fun g => (c.arena.view g).itemWords).map Ref.ofWord =
          (c.arena.view p).items ++ (c.arena.view q).items := by
        simp [Content.items]
      rw [hitems] at hmade
      refine gives_of_plan hc hargs hmade ?_ hnext
      rw [planNamed_join _ _ (by simp), Plan.join, container?_of_classOf hholds cls, hlists]
      rfl
  | @string text cls read clean =>
    cases hz with
    | list => cases happend
    | @string more cls' read' clean' =>
      cases happend
      have hprints : List.Forall₂ c.arena.Prints [.obj p, .obj q] [text, more] :=
        .cons (.string (.string cls read clean)) (.cons (.string (.string cls' read' clean')) .nil)
      have hflat : [text, more].flatten = text ++ more := by simp
      rw [← hflat] at hnext ⊢
      exact join_gives hc hp cls hargs hprints hnext

end Two

/-! ## Code points, one by one -/

/-- The items at the first `n` places of a list or a string, taken one after another. -/
def firstItems (h : Handle) : Nat → PrimM (List Ref)
  | 0 => pure []
  | n + 1 => do
    let parts ← firstItems h n
    (fun part => parts ++ [part]) <$> Primitive.invoke "at" [.int (n + 1 : Nat), .obj h]

/-- The words of strings that are made for the texts, with their headers. -/
def textWords : List (List UInt8) → Nat
  | [] => 0
  | text :: texts => (Indexable.string text).words + textWords texts

theorem textWords_append (texts more : List (List UInt8)) :
    textWords (texts ++ more) = textWords texts + textWords more := by
  induction texts with
  | nil => simp [textWords]
  | cons text texts ih => simp [textWords, ih, Nat.add_assoc]

section OneByOne

variable {c d : Context} {hs : List Handle} {h : Handle} {bytes : List UInt8}
  {parts : List Ref} {texts : List (List UInt8)} {next : Handle → Context → Prop}

/-- **At a place of a string a call gives the code point there**, as a new string. -/
theorem at_gives (hc : c.arena.Closed hs) (hh : h ∈ hs) (hx : c.arena.Shows h (.string bytes))
    {i : Nat} {piece : List UInt8} (hpiece : (pieces bytes)[i]? = some piece)
    (hnext : ∀ g d, Added c hs (.string piece) g d → next g d) :
    Gives c hs "at" [.int (i + 1 : Nat), .obj h] (.string piece) next := by
  have hholds := hc.tiled.holds hh
  obtain ⟨hcls, htext, hclean⟩ := (Arena.shows_string_iff hholds).mp hx
  obtain ⟨hlt, hget⟩ := List.getElem?_eq_some_iff.mp hpiece
  have hmade : 0 ∉ piece :=
    CodePoints.not_mem_of_mem_pieces hclean (List.mem_of_getElem? hpiece)
  have hargs : ∀ r ∈ [Ref.int (i + 1 : Nat), .obj h], r.Among hs :=
    among_pair (among_of_obj? rfl hs) (among_obj.mpr hh)
  have hplace : Plan.place (.index ((i + 1 : Nat) : Int)) (CodePoints.count bytes) =
      .give (i + 1) := by
    rw [← CodePoints.length_pieces]
    exact Plan.place_index ⟨by omega, hlt⟩
  have hslice : CodePoints.slice bytes (i + 1) (i + 1) = piece := by
    rw [CodePoints.slice_eq bytes (by omega) (Nat.le_refl _), Nat.add_sub_cancel,
      Nat.add_sub_cancel_left, List.drop_eq_getElem_cons hlt, hget]
    simp
  refine gives_of_plan hc hargs (.bytes hmade) ?_ hnext
  rw [planNamed_at, Plan.getItem, View.container?, hcls]
  show (Plan.place _ (CodePoints.count (c.arena.view h).text) >>= fun j => _) = _
  rw [htext, hplace, ← hslice]
  rfl

/-- **The first code points of a string are taken one after another.** -/
theorem firstItems_takesUp (hc : c.arena.Closed hs) (hh : h ∈ hs)
    (hx : c.arena.Shows h (.string bytes)) {n : Nat} (hn : n ≤ (pieces bytes).length) :
    TakesUp (textWords ((pieces bytes).take n)) (firstItems h n) c fun parts d =>
      ∃ gs, Later c hs d gs ∧
        List.Forall₂ (fun r text => d.arena.Names gs r (.string text)) parts
          ((pieces bytes).take n) := by
  induction n with
  | zero =>
    -- there is an object, so the arena has words, and one is never used
    have hroom : c.arena.used < c.arena.capacity := by
      have hlt := c.arena.store.lt_after h.index
      have hle := (hc.tiled.holds hh).after_le
      exact hc.tiled.room.resolve_left (by omega)
    exact takesUp_pure hroom ⟨hs, later_refl hc, .nil⟩
  | succ n ih =>
    have hpiece := List.getElem?_eq_getElem hn
    have htake := List.take_succ_eq_append_getElem hn
    rw [htake, textWords_append]
    refine (ih (Nat.le_of_succ_le hn)).bind fun parts d => ?_
    rintro ⟨gs, hlater, hparts⟩
    have hgives := at_gives hlater.closed (hlater.sub hh) (hlater.shows hc hh hx) hpiece
      fun g e hadded => hadded
    refine (TakesUp.imp hgives ?_).map
    rintro r e ⟨g, rfl, hadded, _⟩
    have hold := hparts.imp fun r text hr => hadded.names hlater.closed hr
    exact ⟨gs ++ [g], hlater.added hadded, List.rel_append hold (.cons hadded.names_new .nil)⟩

/-! ## Strings in a list -/

section InList

variable (hc : c.arena.Closed hs)
  (hparts : List.Forall₂ (fun r text => c.arena.Names hs r (.string text)) parts texts)

include hc hparts

/-- A list can be made of the names of strings. -/
theorem listNames_gives (hnext : ∀ l d, Added c hs (.list parts) l d → next l d) :
    Gives c hs "makeList" parts (.list parts) next := by
  refine makeList_gives hc ?_ ?_ hnext
  · intro r hr
    obtain ⟨text, _, hname⟩ := exists_of_mem_forall₂ hparts hr
    exact hname.among
  · intro r hr
    obtain ⟨text, _, hname⟩ := exists_of_mem_forall₂ hparts hr
    exact hname.canonical hc

/-- **The strings in a list are joined to all their bytes.** -/
theorem joinNames_gives {l : Handle} (hl : Added c hs (.list parts) l d)
    (hnext : ∀ g e, Added d (hs ++ [l]) (.string texts.flatten) g e → next g e) :
    Gives d (hs ++ [l]) "joinStrings" [.obj l] (.string texts.flatten) next := by
  have hprints : List.Forall₂ d.arena.Prints parts texts := by
    refine hparts.imp fun r text hr => ?_
    obtain ⟨g, _, rfl, hshows⟩ := hl.names hc hr
    exact .string hshows
  have hnone : ∀ r ∈ (none : Option Ref), r.Among (hs ++ [l]) := by simp
  rw [← nil_intercalate] at hnext ⊢
  show Gives d _ "joinStrings" (.obj l :: (none : Option Ref).toList) _ _
  exact joinStrings_gives hl.closed hl.mem_new hl.shows hnone hprints .missing hnext

end InList

end OneByOne

/-- **Splitting and joining restore what was split**, a list of any items or a string of any bytes
but zero ones.

Wherever it is cut, before its first place or behind its last one too, the part up to there and the
part after it are joined to what it shows. A list that is given has no spare slots (`Added.full`).

If the code points of a string are taken one by one, then each is a string of length 1, and the
items of a list of them are joined to the bytes of the string.

All the while the object that was split keeps its words. Each call takes up what the new object
needs, and the calls stop just if there is no room for one. -/
theorem splitting_and_joining_restore {c : Context} {hs : List Handle} (hses : Session c hs)
    {h : Handle} (hh : h ∈ hs) {x : Indexable} (hx : c.arena.Shows h x) :
    (∀ k : Int,
      Gives c hs "copyFromTo" (partArgs h 1 (some k)) (x.part 1 k) fun p d =>
        c.arena.Keeps h d.arena ∧
        Gives d (hs ++ [p]) "copyFromTo" (partArgs h (k + 1) none) (x.part (k + 1) x.length)
          fun q e => c.arena.Keeps h e.arena ∧
            Gives e (hs ++ [p] ++ [q]) "join" [.obj p, .obj q] x
              fun _ f => c.arena.Keeps h f.arena) ∧
    ∀ bytes, x = .string bytes →
      (∀ n ≤ x.length, TakesUp (textWords ((pieces bytes).take n)) (firstItems h n) c
        fun _ d => c.arena.Keeps h d.arena) ∧
      TakesUp (textWords (pieces bytes)) (firstItems h x.length) c fun parts d =>
        ∃ gs, Later c hs d gs ∧
          List.Forall₂ (fun r piece => d.arena.Names gs r (.string piece)) parts (pieces bytes) ∧
          (∀ r ∈ parts, Primitive.Tells "length" [r] d 1) ∧
          Gives d gs "makeList" parts (.list parts) fun l e =>
            c.arena.Keeps h e.arena ∧
            Gives e (gs ++ [l]) "joinStrings" [.obj l] x fun _ f => c.arena.Keeps h f.arena := by
  have hc := hses.closed
  have hrefl := later_refl hc
  constructor
  · intro k
    refine copyFromTo_gives hc hh hx 1 (some k) fun p d hp => ?_
    have hlater := hrefl.added hp
    refine ⟨hlater.kept h hh, ?_⟩
    refine copyFromTo_gives hp.closed (hlater.sub hh) (hlater.shows hc hh hx) (k + 1) none
      fun q e hq => ?_
    have hlater' := hlater.added hq
    refine ⟨hlater'.kept h hh, ?_⟩
    have hfirst : e.arena.Shows p (x.part 1 k) := (hq.shows_iff hp.closed hp.mem_new).mpr hp.shows
    exact joinTwo_gives hq.closed (List.mem_append_left _ hp.mem_new) hq.mem_new hfirst hq.shows
      (x.append_parts k) fun g f hg => (hlater'.added hg).kept h hh
  · rintro bytes rfl
    rw [Indexable.length, ← CodePoints.length_pieces]
    have htaken {n : Nat} (hn : n ≤ (pieces bytes).length) := firstItems_takesUp hc hh hx hn
    constructor
    · intro n hn
      refine (htaken hn).imp ?_
      rintro parts d ⟨gs, hlater, _⟩
      exact hlater.kept h hh
    · have hall := htaken (Nat.le_refl _)
      rw [List.take_length] at hall
      refine hall.imp ?_
      rintro parts d ⟨gs, hlater, hparts⟩
      refine ⟨gs, hlater, hparts, ?_, ?_⟩
      · intro r hr
        obtain ⟨piece, hpiece, hname⟩ := exists_of_mem_forall₂ hparts hr
        have htells := hname.tells hlater.closed
        rwa [Indexable.length, ← CodePoints.length_pieces, CodePoints.pieces_of_mem hpiece]
          at htells
      · refine listNames_gives hlater.closed hparts fun l e hl => ?_
        have hlater' := hlater.added hl
        have hjoined := joinNames_gives hlater.closed hparts hl fun g f hg =>
          (hlater'.added hg).kept h hh
        rw [CodePoints.flatten_pieces] at hjoined
        exact ⟨hlater'.kept h hh, hjoined⟩

/-- A string that is no UTF-8, cut in the middle and taken apart by its three code points. There is
room for all that. -/
theorem broken_string_restored :
    ∃ c, Session c [⟨0⟩] ∧ c.arena.used = 3 ∧ c.arena.capacity = 64 ∧
      (Gives c [⟨0⟩] "copyFromTo" (partArgs ⟨0⟩ 1 (some 2)) (.string [0xE2, 0x82, 0x41])
        fun p d => Gives d [⟨0⟩, p] "copyFromTo" (partArgs ⟨0⟩ 3 none) (.string [0x80])
          fun q e => Gives e [⟨0⟩, p, q] "join" [.obj p, .obj q]
            (.string [0xE2, 0x82, 0x41, 0x80]) fun _ _ => True) ∧
      TakesUp 6 (firstItems ⟨0⟩ 3) c fun parts d =>
        ∃ gs, Gives d gs "makeList" parts (.list parts) fun l e =>
          Gives e (gs ++ [l]) "joinStrings" [.obj l] (.string [0xE2, 0x82, 0x41, 0x80])
            fun _ _ => True := by
  obtain ⟨c, hses, hused, hcap, hshows⟩ :
      ∃ c, Session c [⟨0⟩] ∧ c.arena.used = 3 ∧ c.arena.capacity = 64 ∧
        c.arena.Shows ⟨0⟩ (.string [0xE2, 0x82, 0x41, 0x80]) := by
    have h0 := Session.start 64 .panic (Source.ofList [])
    have h1 := Session.step (.make (.string [0xE2, 0x82, 0x41, 0x80])) h0 trivial rfl
    exact ⟨_, h1, rfl, rfl, .string rfl rfl (by decide)⟩
  refine ⟨c, hses, hused, hcap, ?_⟩
  obtain ⟨hcut, htaken⟩ :=
    splitting_and_joining_restore hses (by decide : (⟨0⟩ : Handle) ∈ [⟨0⟩]) hshows
  have hfirst : (Indexable.string [0xE2, 0x82, 0x41, 0x80]).part 1 2 =
    .string [0xE2, 0x82, 0x41] := by cbv
  have hsecond : (Indexable.string [0xE2, 0x82, 0x41, 0x80]).part (2 + 1)
    (Indexable.string [0xE2, 0x82, 0x41, 0x80]).length = .string [0x80] := by cbv
  constructor
  · have hhalves := hcut 2
    rw [hfirst, hsecond] at hhalves
    exact hhalves.imp fun p d _ hp => hp.2.imp fun q e _ hq => hq.2.imp fun _ _ _ _ => trivial
  · have hlength : (Indexable.string [0xE2, 0x82, 0x41, 0x80]).length = 3 := by cbv
    have hwords : textWords (pieces [0xE2, 0x82, 0x41, 0x80]) = 6 := by cbv
    obtain ⟨-, hparts⟩ := htaken _ rfl
    rw [hlength, hwords] at hparts
    refine hparts.imp ?_
    rintro parts d ⟨gs, _, _, _, hlist⟩
    exact ⟨gs, hlist.imp fun l e _ hl => hl.2.imp fun _ _ _ _ => trivial⟩

end ObjectMemory
