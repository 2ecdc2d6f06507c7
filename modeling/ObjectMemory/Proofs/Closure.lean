import ObjectMemory.Proofs.Invocation

/-!
# Closed arenas

A program that stores only what it may name, immediates and handles of its own, finds nothing
else in its lists. `Arena.Closed` says so of an arena and the handles that were issued: these tile
the used words, and every word of a list that reads as a handle reads as one of them.

No primitive breaks this (`Closed.performed`). A plan makes up no words: what it stores into a
list is an argument, a count, a blank or a word that some list held (`plan_within`).
-/

namespace ObjectMemory

variable {a b : Arena} {hs : List Handle} {h : Handle} {r : Ref} {ws : List Word}

/-- The reference is no handle, or one of `hs`. -/
def Ref.Among (r : Ref) (hs : List Handle) : Prop :=
  ∀ h, r = .obj h → h ∈ hs

/-- Immediates may be named in any case. -/
theorem among_of_obj? (hr : r.obj? = none) (hs : List Handle) : r.Among hs := by
  rintro h rfl
  cases hr

/-- A handle may be named if it is one of them. -/
theorem among_obj : (Ref.obj h).Among hs ↔ h ∈ hs := by
  constructor
  · intro hr
    exact hr h rfl
  · rintro hh g heq
    cases heq
    exact hh

theorem among_nil : ∀ x ∈ ([] : List Ref), x.Among hs := by
  intro x hx
  cases hx

theorem among_cons {args : List Ref} (hr : r.Among hs) (hargs : ∀ x ∈ args, x.Among hs) :
    ∀ x ∈ r :: args, x.Among hs := by
  intro x hx
  rcases List.mem_cons.mp hx with rfl | hx
  · exact hr
  · exact hargs x hx

theorem among_pair {s : Ref} (hr : r.Among hs) (hs' : s.Among hs) : ∀ x ∈ [r, s], x.Among hs :=
  among_cons hr (among_cons hs' among_nil)

/-- Every word reads as an immediate or as one of the handles. -/
def Sound (hs : List Handle) (ws : List Word) : Prop :=
  ∀ w ∈ ws, (Ref.ofWord w).Among hs

/-! ## Sound rows of words -/

namespace Sound

theorem cons {w : Word} (hw : (Ref.ofWord w).Among hs) (hws : Sound hs ws) :
    Sound hs (w :: ws) := by
  intro v hv
  rcases List.mem_cons.mp hv with rfl | hv
  · exact hw
  · exact hws v hv

theorem append {vs : List Word} (h1 : Sound hs ws) (h2 : Sound hs vs) : Sound hs (ws ++ vs) := by
  intro w hw
  rcases List.mem_append.mp hw with hw | hw
  · exact h1 w hw
  · exact h2 w hw

theorem replicate {w : Word} (hw : (Ref.ofWord w).Among hs) (n : Nat) :
    Sound hs (List.replicate n w) := by
  intro v hv
  rw [List.eq_of_mem_replicate hv]
  exact hw

/-- A sound row stays sound if what is stored reads as what may be named. -/
theorem set (hws : Sound hs ws) {w : Word} (hw : (Ref.ofWord w).Among hs) (i : Nat) :
    Sound hs (ws.set i w) := by
  intro v hv
  rcases List.mem_or_eq_of_mem_set hv with hv | rfl
  · exact hws v hv
  · exact hw

theorem take (hws : Sound hs ws) (n : Nat) : Sound hs (ws.take n) :=
  fun w hw => hws w (List.mem_of_mem_take hw)

theorem drop (hws : Sound hs ws) (n : Nat) : Sound hs (ws.drop n) :=
  fun w hw => hws w (List.mem_of_mem_drop hw)

/-- A row stays sound under a sound part. -/
theorem splice {part : List Word} (hws : Sound hs ws) (hpart : Sound hs part) (i : Nat) :
    Sound hs (splice ws i part) :=
  ((hws.take i).append hpart).append (hws.drop _)

/-- A longer copy of a sound row is sound if its new words are. -/
theorem grown {fill : Word} (hws : Sound hs ws) (hfill : (Ref.ofWord fill).Among hs) (n : Nat) :
    Sound hs (Arena.grown ws n fill) :=
  (hws.take n).append (Sound.replicate hfill _)

/-- A row stays sound when more handles are issued. -/
theorem mono {gs : List Handle} (hws : Sound hs ws) (hsub : hs ⊆ gs) : Sound gs ws :=
  fun w hw g heq => hsub (hws w hw g heq)

end Sound

/-- A number of any size reads back as a number, and so as no handle. -/
theorem among_stored_int (n : Int) (hs : List Handle) :
    (Ref.ofWord (Ref.int n).toWord).Among hs := by
  rw [Ref.ofWord_toWord_int]
  exact among_of_obj? rfl hs

/-- **What is stored reads as what may be named**, if handles are small enough to be stored. -/
theorem Ref.Among.stored (hr : r.Among hs) (hsmall : ∀ h ∈ hs, h.index < 1073741824) :
    (Ref.ofWord r.toWord).Among hs := by
  cases r with
  | int n => exact among_stored_int n hs
  | obj h =>
    have hcanonical : (Ref.obj h).Canonical := hsmall h (hr h rfl)
    rwa [Ref.ofWord_toWord hcanonical]
  | _ => exact among_of_obj? rfl hs

/-! ## What plans store -/

/-- An effect that names and stores only what may be named: it gives such a reference, it rewrites
an object that may be named, and the words of a list stay sound. -/
def Effect.Within (hs : List Handle) (v : View) : Effect → Prop
  | .give r => r.Among hs
  | .rewrite h words r =>
    h ∈ hs ∧ r.Among hs ∧ ((v h).cls = .list → Sound hs words)
  | .make _ c => c.cls.Storable ∧ (c.cls = .list → Sound hs c.words)

/-- What may be named, as a program sees it: the handles are small, and lists hold nothing else. -/
structure View.Nameable (v : View) (hs : List Handle) : Prop where
  small : ∀ h ∈ hs, h.index < 1073741824
  sound : ∀ h ∈ hs, (v h).cls = .list → Sound hs (v h).words

section Plans

variable {v : View}

/-- The count of a list is no handle. -/
theorem sound_restated (hws : Sound hs ws) (n : Nat) : Sound hs (Content.restated ws n) :=
  hws.set (among_stored_int _ hs) 0

theorem sound_appended (hv : v.Nameable hs) (hws : Sound hs ws) {item : Ref} (hi : item.Among hs)
    (n : Nat) : Sound hs (Content.appended ws n item) :=
  sound_restated (hws.set (hi.stored hv.small) _) _

/-- A removal moves words of the list and blanks one. -/
theorem sound_without (hws : Sound hs ws) (i n : Nat) : Sound hs (Content.without ws i n) :=
  sound_restated ((hws.splice ((hws.drop _).take _) i).set (among_stored_int 0 hs) n) _

/-- A list with sound items is sound, its count included. -/
theorem sound_ofItems (hws : Sound hs ws) : Sound hs (Content.ofItems ws).words :=
  hws.cons (among_stored_int _ hs)

theorem sound_blanks (n : Nat) : Sound hs (List.replicate n Content.blank) :=
  Sound.replicate (among_stored_int 0 hs) n

/-- What a program takes for an object of the class is one, and may be named. -/
theorem list_of_named? {c : ObjClass} (hr : r.Among hs) (hn : v.named? c r = some h) :
    h ∈ hs ∧ (v h).cls = c :=
  ⟨hr h (View.named?_eq_some.mp hn).1, (View.named?_eq_some.mp hn).2⟩

/-- What a program takes for a container is one, and may be named. -/
theorem container_of_among {target : Container} (hr : r.Among hs)
    (hc : v.container? r = some target) :
    ∃ h ∈ hs, (target = .list h ∧ (v h).cls = .list) ∨ target = .string h ∨
      (target = .byteArray h ∧ (v h).cls = .byteArray) := by
  obtain ⟨h, rfl, hlist | ⟨hstring, _⟩ | hbytes⟩ := View.container?_eq_some.mp hc
  · exact ⟨h, hr h rfl, Or.inl hlist⟩
  · exact ⟨h, hr h rfl, Or.inr (Or.inl hstring)⟩
  · exact ⟨h, hr h rfl, Or.inr (Or.inr hbytes)⟩

/-- A slot of a sound list holds what may be named. -/
theorem among_field {c : Content} (hws : Sound hs c.words) (i : Nat) : (c.field i).Among hs := by
  rw [Content.field, List.getD_eq_getElem?_getD]
  cases hi : c.words[i]? with
  | none => exact among_of_obj? rfl hs
  | some w => exact hws w (List.mem_of_getElem? hi)

theorem among_false (hs : List Handle) : Ref.false.Among hs := among_of_obj? rfl hs

/-- A new string may hold any bytes: they are never read as references. -/
theorem within_text (text : List UInt8) (o : Origin) :
    (Effect.make o (.ofText text)).Within hs v :=
  ⟨Arena.storable_string, fun hcls => nomatch hcls⟩

theorem within_list (hws : Sound hs ws) (o : Origin) : (Effect.make o ⟨.list, ws⟩).Within hs v :=
  ⟨Arena.storable_list, fun _ => hws⟩

/-- What an append stores is its argument, and the rest comes from the list. -/
theorem addLast_within (hv : v.Nameable hs) {list item : Ref} (hl : list.Among hs)
    (hi : item.Among hs) : (Plan.addLast v list item).Ensures (Effect.Within hs v) := by
  refine Plan.Ensures.need fun h hn => ?_
  obtain ⟨hh, hcls⟩ := list_of_named? hl hn
  have hws := hv.sound h hh hcls
  dsimp only
  split
  · exact within_list (sound_appended hv (hws.grown (among_stored_int 0 hs) _) hi _) _
  · exact ⟨hh, among_obj.mpr hh, fun _ => sound_appended hv hws hi _⟩

theorem delete_within (hv : v.Nameable hs) {list : Ref} (hl : list.Among hs) (selector : Ref) :
    (Plan.delete v list selector).Ensures (Effect.Within hs v) := by
  refine Plan.Ensures.need fun h hn => ?_
  obtain ⟨hh, hcls⟩ := list_of_named? hl hn
  have hws := hv.sound h hh hcls
  have hrewrite {words : List Word} (hwords : Sound hs words) :
      (Effect.rewrite h words .false).Within hs v := ⟨hh, among_false hs, fun _ => hwords⟩
  cases v.selector? selector with
  | none => trivial
  | some s =>
    cases s with
    | all => exact hrewrite (sound_blanks _)
    | random => trivial
    | last =>
      dsimp only
      split
      · exact hrewrite (sound_without hws _ _)
      · exact among_false hs
    | index i =>
      dsimp only
      split
      · exact hrewrite (sound_without hws _ _)
      · trivial

/-- An item of a list may be named since the list may be. -/
theorem getItem_within (hv : v.Nameable hs) {container : Ref} (hc : container.Among hs)
    (selector : Ref) : (Plan.getItem v container selector).Ensures (Effect.Within hs v) := by
  refine Plan.Ensures.need fun target htarget => Plan.Ensures.need fun s _ => ?_
  obtain ⟨h, hh, ⟨rfl, hcls⟩ | rfl | ⟨rfl, _⟩⟩ := container_of_among hc htarget
  · refine Plan.Ensures.any (fun i => ?_) _
    exact among_field (hv.sound h hh hcls) i
  · refine Plan.Ensures.any (fun i => ?_) _
    exact within_text _ _
  · refine Plan.Ensures.any (fun i => ?_) _
    exact among_of_obj? rfl hs

/-- A byte array may be given any words, a list only what may be named. -/
theorem putItem_within (hv : v.Nameable hs) {container value : Ref} (hc : container.Among hs)
    (hr : value.Among hs) (selector : Ref) :
    (Plan.putItem v container selector value).Ensures (Effect.Within hs v) := by
  refine Plan.Ensures.need fun target htarget => Plan.Ensures.need fun s _ => ?_
  have hvalue := hr.stored hv.small
  obtain ⟨h, hh, ⟨rfl, hcls⟩ | rfl | ⟨rfl, hcls⟩⟩ := container_of_among hc htarget
  · have hws := hv.sound h hh hcls
    have hrewrite {words : List Word} (hwords : Sound hs words) :
        (Effect.rewrite h words .false).Within hs v := ⟨hh, among_false hs, fun _ => hwords⟩
    cases s with
    | random => trivial
    | all => exact hrewrite (hws.splice (Sound.replicate hvalue _) 1)
    | index i =>
      refine Plan.Ensures.any (fun j => ?_) _
      exact hrewrite (hws.set hvalue j)
    | last =>
      refine Plan.Ensures.any (fun j => ?_) _
      exact hrewrite (hws.set hvalue j)
  · trivial
  · -- nothing is asked of the words of a byte array
    have hrewrite (words : List Word) : (Effect.rewrite h words .false).Within hs v :=
      ⟨hh, among_false hs, fun hlist => nomatch hcls.symm.trans hlist⟩
    refine Plan.Ensures.any (fun b => ?_) _
    exact Plan.putBytes_ensures hrewrite _ s b

theorem fill_within (hv : v.Nameable hs) {container value : Ref} (hc : container.Among hs)
    (hr : value.Among hs) : (Plan.fill v container value).Ensures (Effect.Within hs v) := by
  unfold Plan.fill
  cases htarget : v.container? container with
  | none => trivial
  | some target =>
    obtain ⟨h, hh, ⟨rfl, hcls⟩ | rfl | ⟨rfl, hcls⟩⟩ := container_of_among hc htarget
    · exact ⟨hh, among_false hs, fun _ => (hv.sound h hh hcls).splice
        (Sound.replicate (hr.stored hv.small) _) 1⟩
    · trivial
    · refine Plan.Ensures.any (fun b => ?_) _
      exact ⟨hh, among_false hs, fun hlist => nomatch hcls.symm.trans hlist⟩

/-- A part of a sound list is sound. -/
theorem copyFromTo_within (hv : v.Nameable hs) {source : Ref} (hc : source.Among hs) (first : Ref)
    (last : Option Ref) :
    (Plan.copyFromTo v source first last).Ensures (Effect.Within hs v) := by
  refine Plan.Ensures.any (fun first => Plan.Ensures.any (fun last => ?_) _) _
  cases htarget : v.container? source with
  | none => trivial
  | some target =>
    obtain ⟨h, hh, ⟨rfl, hcls⟩ | rfl | ⟨rfl, hcls⟩⟩ := container_of_among hc htarget
    · exact within_list (sound_ofItems (((hv.sound h hh hcls).drop _).take _)) _
    · exact within_text _ _
    · trivial

/-- Each word of the joined list is an item of a list that an argument names. -/
theorem join_within (hv : v.Nameable hs) {parts : List Ref} (hp : ∀ r ∈ parts, r.Among hs) :
    (Plan.join v parts).Ensures (Effect.Within hs v) := by
  match parts, hp with
  | [], _ => trivial
  | [_], _ => trivial
  | first :: second :: rest, hp =>
    simp only [Plan.join]
    cases htarget : v.container? first with
    | none => trivial
    | some target =>
      cases target with
      | list h =>
        refine Plan.Ensures.need fun lists hlists => within_list (sound_ofItems ?_) _
        intro w hw
        obtain ⟨g, hg, hw⟩ := List.mem_flatMap.mp hw
        -- the word is an item of a list that one of the arguments names
        obtain ⟨r, hr, hnamed⟩ := exists_of_mapM hlists hg
        obtain ⟨hin, hcls⟩ := list_of_named? (hp r hr) hnamed
        exact ((hv.sound g hin hcls).drop 1).take _ w hw
      | string h =>
        refine Plan.Ensures.any (fun printed => ?_) _
        exact within_text _ _
      | byteArray h => trivial

/-- An argument that was not passed is nil. -/
theorem among_getD {args : List Ref} (hargs : ∀ r ∈ args, r.Among hs) (i : Nat) :
    (args.getD i .nil).Among hs := by
  rw [List.getD_eq_getElem?_getD]
  cases hi : args[i]? with
  | none => exact among_of_obj? rfl hs
  | some r => exact hargs r (List.mem_of_getElem? hi)

/-- **A plan names and stores only what may be named.** -/
theorem plan_within (hv : v.Nameable hs) {args : List Ref} (hargs : ∀ r ∈ args, r.Among hs)
    (p : Primitive) (free : Nat) : (p.plan v free args).Ensures (Effect.Within hs v) := by
  have hget (i : Nat) : (args.getD i .nil).Among hs := among_getD hargs i
  unfold Primitive.plan
  split
  · trivial
  · cases p with
    | makeList =>
      refine within_list (sound_ofItems ?_) _
      intro w hw
      obtain ⟨r, hr, rfl⟩ := List.mem_map.mp hw
      exact (hargs r hr).stored hv.small
    | newList => exact within_list (sound_blanks _) _
    | addLast => exact addLast_within hv (hget 1) (hget 0)
    | delete => exact delete_within hv (hget 1) _
    | join => exact join_within hv hargs
    | copyFromTo => exact copyFromTo_within hv (hget 0) _ _
    | findInString => exact Plan.findInString_ensures (fun _ => among_of_obj? rfl hs) _ _ _
    | joinStrings => exact Plan.joinStrings_ensures (fun text => within_text text _) _ _
    | freeMemory => exact among_of_obj? rfl hs
    | getItem => exact getItem_within hv (hget 1) _
    | putItem => exact putItem_within hv (hget 1) (hget 2) _
    | fill => exact fill_within hv (hget 0) (hget 1)
    | length => exact Plan.length_ensures (fun _ => among_of_obj? rfl hs) _

end Plans

/-! ## What lists keep -/

/-- The handles that a program has, once it was given a reference. -/
def noted (hs : List Handle) : Ref → List Handle
  | .obj h => if h ∈ hs then hs else hs ++ [h]
  | _ => hs

/-- A reference that may be named already adds no handle. -/
theorem noted_of_among (hr : r.Among hs) : noted hs r = hs := by
  cases r with
  | obj h => exact if_pos (hr h rfl)
  | _ => rfl

/-- The words of every list among `hs` have the property. -/
def Arena.ListsHave (a : Arena) (hs : List Handle) (P : List Word → Prop) : Prop :=
  ∀ h ∈ hs, (a.view h).cls = .list → P (a.view h).words

/-- An effect that names only what may be named, and leaves no list without the property. -/
def Effect.Leaves (P : List Word → Prop) (hs : List Handle) (v : View) : Effect → Prop
  | .give r => r.Among hs
  | .rewrite h words r => h ∈ hs ∧ r.Among hs ∧ ((v h).cls = .list → P words)
  | .make _ c => c.cls = .list → P c.words

/-- An effect that stores only what may be named leaves sound lists. -/
theorem Effect.Within.leaves {v : View} {e : Effect} (hw : e.Within hs v) :
    e.Leaves (Sound hs) hs v := by
  cases e with
  | give x => exact hw
  | rewrite h words x => exact hw
  | make o c => exact hw.2

namespace Arena

variable {P : List Word → Prop} {o : Origin} {c : Content}

/-- The boundary is no handle that was issued. -/
theorem Tiled.used_not_mem (ht : a.Tiled hs) : ⟨a.used⟩ ∉ hs := by
  intro hmem
  have hafter := (ht.holds hmem).after_le
  have hlt := a.store.lt_after a.used
  exact absurd (Nat.lt_of_lt_of_le hlt hafter) (Nat.lt_irrefl _)

theorem Tiled.noted_used (ht : a.Tiled hs) : noted hs (.obj ⟨a.used⟩) = hs ++ [⟨a.used⟩] :=
  if_neg ht.used_not_mem

/-- Storing into one object changes no other list. -/
theorem ListsHave.stored (hl : a.ListsHave hs P) (ht : a.Tiled hs) (hh : h ∈ hs)
    (hst : a.Stored h ws b) (hws : (a.view h).cls = .list → P ws) : b.ListsHave hs P := by
  intro g hg hcls
  by_cases hgh : g = h
  · subst hgh
    rw [hst.view_eq (ht.holds hh)] at hcls ⊢
    exact hws hcls
  · rw [ht.view_other hh hg hgh hst.toWroteIn] at hcls ⊢
    exact hl g hg hcls

/-- A new object changes no list there was. -/
theorem ListsHave.made (hl : a.ListsHave hs P) (ht : a.Tiled hs) (hm : a.Made o c b)
    (hws : c.cls = .list → P c.words) : b.ListsHave (hs ++ [⟨a.used⟩]) P := by
  intro g hg hcls
  rcases List.mem_append.mp hg with hg | hg
  · rw [hm.view_old (ht.holds hg)] at hcls ⊢
    exact hl g hg hcls
  · rw [List.mem_singleton.mp hg, hm.view_new] at hcls ⊢
    refine hws ?_
    cases hcc : c.cls with
    | list => rfl
    | _ =>
      rw [hcc] at hcls
      cases hcls

/-- **An effect leaves the objects tiled, and the lists with what they have.** -/
theorem Tiled.performed (ht : a.Tiled hs) (hl : a.ListsHave hs P) {e : Effect}
    (he : e.Leaves P hs a.view) {s : Source} {d : Context} (hp : e.Performed a s (.ok r d)) :
    d.arena.Tiled (noted hs r) ∧ d.arena.ListsHave (noted hs r) P := by
  cases e with
  | give x =>
    cases hp
    rw [noted_of_among he]
    exact ⟨ht, hl⟩
  | rewrite h words x =>
    obtain ⟨hh, hx, hws⟩ := he
    obtain ⟨b, heq, hst⟩ := hp
    cases heq
    rw [noted_of_among hx]
    exact ⟨ht.wrote hh hst.toWroteIn, hl.stored ht hh hst hws⟩
  | make o c =>
    obtain ⟨rfl, b, rfl, hm⟩ := hp.made
    rw [ht.noted_used]
    exact ⟨ht.gained hm.toGained, hl.made ht hm he⟩

end Arena

/-- No handle is forgotten. -/
theorem subset_noted (hs : List Handle) (r : Ref) : hs ⊆ noted hs r := by
  intro g hg
  cases r with
  | obj h =>
    show g ∈ if h ∈ hs then hs else hs ++ [h]
    split
    · exact hg
    · exact List.mem_append_left _ hg
  | _ => exact hg

theorem mem_noted (hs : List Handle) (h : Handle) : h ∈ noted hs (.obj h) := by
  show h ∈ if h ∈ hs then hs else hs ++ [h]
  by_cases hin : h ∈ hs
  · rw [if_pos hin]
    exact hin
  · rw [if_neg hin]
    exact List.mem_append_right _ List.mem_cons_self

/-! ## Sound slots -/

/-- Every word but the first one reads as an immediate or as one of the handles. -/
def SoundSlots (hs : List Handle) (ws : List Word) : Prop :=
  Sound hs (ws.drop 1)

/-- The handles `hs` tile the used words, and the slots of lists hold no other handles. What lists
hold in place of a count is left open. -/
structure Arena.SlotsClosed (a : Arena) (hs : List Handle) : Prop where
  tiled : a.Tiled hs
  sound : a.ListsHave hs (SoundSlots hs)

theorem Arena.Tiled.knows (ht : a.Tiled hs) (hr : r.Among hs) : a.Knows r :=
  fun h heq => ht.holds (hr h heq)

/-- Handles that lie in an arena can be stored. -/
theorem Arena.Tiled.small (ht : a.Tiled hs) (hh : h ∈ hs) : h.index < 1073741824 := by
  have hlt := (ht.holds hh).index_lt
  have hsize := ht.size
  unfold maxArenaWords at hsize
  omega

/-- **Sound slots are all that a call relies on**: a list has no items but in slots. -/
theorem Arena.SlotsClosed.knowsArguments (hc : a.SlotsClosed hs) {args : List Ref}
    (hargs : ∀ r ∈ args, r.Among hs) : a.KnowsArguments args where
  known r hr := hc.tiled.knows (hargs r hr)
  items h hh hcls r hr := by
    obtain ⟨w, hw, rfl⟩ := List.mem_map.mp hr
    have hslots : Sound hs ((a.view h).words.drop 1) := hc.sound h (hargs _ hh h rfl) hcls
    exact hc.tiled.knows (hslots.take _ w hw)

/-! ## Closed arenas -/

/-- The handles `hs` tile the used words, and lists hold no other handles. -/
structure Arena.Closed (a : Arena) (hs : List Handle) : Prop where
  tiled : a.Tiled hs
  sound : ∀ h ∈ hs, (a.view h).cls = .list → Sound hs (a.view h).words

namespace Arena.Closed

theorem nameable (hc : a.Closed hs) : a.view.Nameable hs :=
  ⟨fun _ hh => hc.tiled.small hh, hc.sound⟩

/-- In a closed arena the slots are sound in particular. -/
theorem slots (hc : a.Closed hs) : a.SlotsClosed hs :=
  ⟨hc.tiled, fun h hh hcls => (hc.sound h hh hcls).drop 1⟩

theorem knowsArguments (hc : a.Closed hs) {args : List Ref} (hargs : ∀ r ∈ args, r.Among hs) :
    a.KnowsArguments args :=
  hc.slots.knowsArguments hargs

theorem stored (hc : a.Closed hs) (hh : h ∈ hs) (hst : a.Stored h ws b)
    (hws : (a.view h).cls = .list → Sound hs ws) : b.Closed hs where
  tiled := hc.tiled.wrote hh hst.toWroteIn
  sound := ListsHave.stored hc.sound hc.tiled hh hst hws

theorem made (hc : a.Closed hs) {o : Origin} {c : Content} (hm : a.Made o c b)
    (hws : c.cls = .list → Sound hs c.words) : b.Closed (hs ++ [⟨a.used⟩]) where
  tiled := hc.tiled.gained hm.toGained
  sound g hg hcls := by
    have hold := ListsHave.made hc.sound hc.tiled hm hws
    exact (hold g hg hcls).mono (List.subset_append_left _ _)

end Arena.Closed

/-- A new arena holds no list yet. -/
theorem closed_ofSize (words : Nat) (action : ExhaustionAction) :
    ((Arena.ofSize words).withAction action).Closed [] where
  tiled := Arena.tiled_ofSize words action
  sound h hh := by simp at hh

/-- **What a plan does keeps the arena closed.** -/
theorem Arena.Closed.performed (hc : a.Closed hs) {e : Effect} (hw : e.Within hs a.view)
    {s : Source} {d : Context} (hp : e.Performed a s (.ok r d)) :
    d.arena.Closed (noted hs r) := by
  obtain ⟨htiled, hlists⟩ := hc.tiled.performed hc.sound hw.leaves hp
  refine ⟨htiled, fun g hg hcls => ?_⟩
  exact (hlists g hg hcls).mono (subset_noted hs r)

end ObjectMemory
