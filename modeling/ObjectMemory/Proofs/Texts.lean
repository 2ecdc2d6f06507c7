import ObjectMemory.Proofs.Pieces
import ObjectMemory.Proofs.Strings

/-!
# Strings of texts

Nobody checks that a string is UTF-8. Its bytes are divided by looking at two bits of each, a slice
of them is copied to another string, and strings are cut at the first zero byte. All the same, a
program whose own strings are made from texts never meets anything but UTF-8. A zero character ends
a text as a zero byte ends a string, a slice by code points is one by characters, and what is
printed among joined strings is a text. So every string holds the characters of some text
(`TextSession.texts`).
-/

namespace ObjectMemory

open Utf8 (encodeAll)

/-! ## Bytes of texts -/

/-- The bytes are those of the characters, and none of these is zero. -/
structure Spells (bytes : List UInt8) (cs : List Char) : Prop where
  eq : bytes = encodeAll cs
  clean : '\x00' ∉ cs

section Bytes

variable {bytes : List UInt8} {cs ds : List Char}

theorem encodeAll_append (cs ds : List Char) :
    encodeAll (cs ++ ds) = encodeAll cs ++ encodeAll ds :=
  List.flatMap_append

/-- A string that is made of characters ends before the first zero one. -/
theorem spells_ofText (cs : List Char) :
    Spells (Content.ofText (encodeAll cs)).text (cs.takeWhile (· ≠ '\x00')) where
  eq := by rw [Content.text_ofText, Utf8.takeWhile_encodeAll]
  clean := not_mem_takeWhile_ne _ _

/-- Characters without a zero one are kept. -/
theorem text_of_clean (hclean : '\x00' ∉ cs) :
    (Content.ofText (encodeAll cs)).text = encodeAll cs := by
  rw [(spells_ofText cs).eq, takeWhile_ne hclean]

theorem takeWhile_encodeAll_of_clean (hclean : '\x00' ∉ cs) :
    (encodeAll cs).takeWhile (· ≠ 0) = encodeAll cs := by
  rw [Utf8.takeWhile_encodeAll, takeWhile_ne hclean]

/-- Any slice of characters is made of characters. -/
theorem exists_slice (cs : List Char) (first last : Nat) :
    ∃ ds, CodePoints.slice (encodeAll cs) first last = encodeAll ds := by
  by_cases hrange : 1 ≤ first ∧ first ≤ last
  · exact ⟨_, Utf8.slice_encodeAll cs hrange.1 hrange.2⟩
  · refine ⟨[], ?_⟩
    rw [CodePoints.slice, CodePoints.range, if_pos (by omega)]
    simp

theorem exists_flatten {parts : List (List UInt8)} (hparts : ∀ p ∈ parts, ∃ cs, p = encodeAll cs) :
    ∃ cs, parts.flatten = encodeAll cs := by
  induction parts with
  | nil => exact ⟨[], rfl⟩
  | cons p rest ih =>
    obtain ⟨cs, rfl⟩ := hparts p List.mem_cons_self
    obtain ⟨ds, hds⟩ := ih fun q hq => hparts q (List.mem_cons_of_mem _ hq)
    refine ⟨cs ++ ds, ?_⟩
    rw [List.flatten_cons, hds, encodeAll_append]

theorem exists_intercalate {parts : List (List UInt8)}
    (hparts : ∀ p ∈ parts, ∃ cs, p = encodeAll cs) (between : List Char) :
    ∃ cs, (encodeAll between).intercalate parts = encodeAll cs := by
  induction parts with
  | nil => exact ⟨[], rfl⟩
  | cons p rest ih =>
    obtain ⟨cs, rfl⟩ := hparts p List.mem_cons_self
    obtain ⟨ds, hds⟩ := ih fun q hq => hparts q (List.mem_cons_of_mem _ hq)
    cases rest with
    | nil => exact ⟨cs, List.intercalate_singleton⟩
    | cons q rest =>
      refine ⟨cs ++ between ++ ds, ?_⟩
      rw [List.intercalate_cons_cons, hds, encodeAll_append, encodeAll_append]

/-- A numeral has no zero character. -/
theorem clean_signed (n : Int) : '\x00' ∉ (Numeral.signed n).toList := by
  have hdigits (m : Nat) : '\x00' ∉ Numeral.digits 10 m := by
    intro hmem
    have hdigit := List.all_eq_true.mp (Numeral.all_isDigit_digits m) '\x00' hmem
    exact absurd hdigit (by decide)
  unfold Numeral.signed
  split
  · simp only [String.toList_append, Numeral.decimal, String.toList_ofList, List.mem_append]
    rintro (hsign | hdigit)
    · exact absurd hsign (by decide)
    · exact hdigits _ hdigit
  · rw [Numeral.decimal, String.toList_ofList]
    exact hdigits _

end Bytes

/-! ## Plans on texts -/

/-- The content holds the bytes of a text. -/
def Content.IsText (c : Content) : Prop :=
  ∃ cs, Spells c.text cs

section Plans

variable {v : View} {hs : List Handle} {r : Ref}

theorem makesTexts_ofText {bytes : List UInt8} (o : Origin) (hb : ∃ cs, bytes = encodeAll cs) :
    (Effect.make o (.ofText bytes)).MakesStrings Content.IsText := by
  intro _
  obtain ⟨cs, rfl⟩ := hb
  exact ⟨_, spells_ofText cs⟩

theorem spells_of_text? (hv : v.Strings Content.IsText hs) (hr : r.Among hs) {bytes : List UInt8}
    (ht : v.text? r = some bytes) : ∃ cs, Spells bytes cs := by
  obtain ⟨h, hnamed, rfl⟩ := Option.map_eq_some_iff.mp ht
  obtain ⟨hh, hcls⟩ := list_of_named? hr hnamed
  exact hv h hh hcls

/-- **What may stand among joined strings is printed as a text.** -/
theorem spells_of_printed? (hv : v.Strings Content.IsText hs) (hr : r.Among hs) {bytes : List UInt8}
    (hp : v.printed? r = some bytes) : ∃ cs, Spells bytes cs := by
  cases r with
  | int n =>
    cases hp
    exact ⟨_, rfl, clean_signed n⟩
  | true =>
    cases hp
    exact ⟨_, rfl, by decide⟩
  | false =>
    cases hp
    exact ⟨_, rfl, by decide⟩
  | nil => exact spells_of_text? hv hr hp
  | obj h => exact spells_of_text? hv hr hp

theorem encodes_of_printed {parts : List Ref} (hv : v.Strings Content.IsText hs)
    (hp : ∀ r ∈ parts, r.Among hs) {printed : List (List UInt8)}
    (hprinted : parts.mapM v.printed? = some printed) :
    ∀ p ∈ printed, ∃ cs, p = encodeAll cs := by
  intro p hmem
  obtain ⟨r, hr, hshown⟩ := exists_of_mapM hprinted hmem
  obtain ⟨cs, hcs⟩ := spells_of_printed? hv (hp r hr) hshown
  exact ⟨cs, hcs.eq⟩

theorem getItem_makesTexts (hv : v.Strings Content.IsText hs) {container : Ref}
    (hc : container.Among hs) (selector : Ref) :
    (Plan.getItem v container selector).Ensures (Effect.MakesStrings Content.IsText) := by
  refine Plan.Ensures.need fun target htarget => Plan.Ensures.need fun s _ => ?_
  obtain ⟨h, rfl, ⟨rfl, _⟩ | ⟨rfl, hcls⟩ | ⟨rfl, _⟩⟩ := View.container?_eq_some.mp htarget
  · refine Plan.Ensures.any (fun i => ?_) _
    trivial
  · obtain ⟨cs, hcs⟩ := hv h (hc h rfl) hcls
    refine Plan.Ensures.any (fun i => ?_) _
    refine makesTexts_ofText _ ?_
    rw [hcs.eq]
    exact exists_slice cs i i
  · refine Plan.Ensures.any (fun i => ?_) _
    trivial

theorem copyFromTo_makesTexts (hv : v.Strings Content.IsText hs) {source : Ref}
    (hc : source.Among hs) (first : Ref) (last : Option Ref) :
    (Plan.copyFromTo v source first last).Ensures (Effect.MakesStrings Content.IsText) := by
  refine Plan.Ensures.any (fun first => Plan.Ensures.any (fun last => ?_) _) _
  cases htarget : v.container? source with
  | none => trivial
  | some target =>
    obtain ⟨h, rfl, ⟨rfl, _⟩ | ⟨rfl, hcls⟩ | ⟨rfl, _⟩⟩ := View.container?_eq_some.mp htarget
    · exact makesStrings_list _ _ _
    · obtain ⟨cs, hcs⟩ := hv h (hc h rfl) hcls
      refine makesTexts_ofText _ ?_
      rw [hcs.eq]
      split
      · exact ⟨[], rfl⟩
      · exact exists_slice cs _ _
    · trivial

theorem join_makesTexts (hv : v.Strings Content.IsText hs) {parts : List Ref}
    (hp : ∀ r ∈ parts, r.Among hs) :
    (Plan.join v parts).Ensures (Effect.MakesStrings Content.IsText) := by
  unfold Plan.join
  split
  · split
    · refine Plan.Ensures.any (fun lists => ?_) _
      exact makesStrings_list _ _ _
    · refine Plan.Ensures.need fun printed hprinted => ?_
      exact makesTexts_ofText _ (exists_flatten (encodes_of_printed hv hp hprinted))
    · trivial
  · trivial

theorem joinStrings_makesTexts (hv : v.Strings Content.IsText hs) (hn : v.Nameable hs) {list : Ref}
    (hl : list.Among hs) {separator : Option Ref} (hs' : ∀ r ∈ separator, r.Among hs) :
    (Plan.joinStrings v list separator).Ensures (Effect.MakesStrings Content.IsText) := by
  refine Plan.Ensures.need fun h hlist => Plan.Ensures.need fun printed hprinted => ?_
  obtain ⟨hh, hcls⟩ := list_of_named? hl hlist
  -- the items are what the program may name
  have hitems : ∀ r ∈ (v h).items, r.Among hs := by
    intro r hr
    obtain ⟨w, hw, rfl⟩ := List.mem_map.mp hr
    exact ((hn.sound h hh hcls).drop 1).take _ w hw
  have hbetween : ∃ cs, (separator.bind v.text?).getD [] = encodeAll cs := by
    cases hfound : separator.bind v.text? with
    | none => exact ⟨[], rfl⟩
    | some bytes =>
      obtain ⟨r, hr, ht⟩ := Option.bind_eq_some_iff.mp hfound
      obtain ⟨cs, hcs⟩ := spells_of_text? hv (hs' r hr) ht
      exact ⟨cs, hcs.eq⟩
  obtain ⟨between, heq⟩ := hbetween
  refine makesTexts_ofText _ ?_
  rw [heq]
  exact exists_intercalate (encodes_of_printed hv hitems hprinted) between

/-- **A plan makes no strings but of characters**, where the strings that it reads hold texts. -/
theorem plan_makesTexts (hv : v.Strings Content.IsText hs) (hn : v.Nameable hs) {args : List Ref}
    (hargs : ∀ r ∈ args, r.Among hs) (p : Primitive) (free : Nat) :
    (p.plan v free args).Ensures (Effect.MakesStrings Content.IsText) := by
  have hget (i : Nat) : (args.getD i .nil).Among hs := among_getD hargs i
  have hrewrite {h : Handle} (words : List Word) (r : Ref) :
      (Effect.rewrite h words r).MakesStrings Content.IsText := trivial
  unfold Primitive.plan
  split
  · trivial
  · cases p with
    | makeList => exact makesStrings_list _ _ _
    | newList => exact makesStrings_list _ _ _
    | addLast =>
      refine Plan.Ensures.any (fun h => ?_) _
      dsimp only
      split
      · exact makesStrings_list _ _ _
      · trivial
    | delete => exact Plan.delete_ensures (fun _ words _ _ => hrewrite words _) trivial _
    | join => exact join_makesTexts hv hargs
    | copyFromTo => exact copyFromTo_makesTexts hv (hget 0) _ _
    | findInString => exact Plan.findInString_ensures (fun _ => trivial) _ _ _
    | joinStrings =>
      refine joinStrings_makesTexts hv hn (hget 0) ?_
      intro r hr
      exact hargs r (List.mem_of_getElem? hr)
    | freeMemory => trivial
    | getItem => exact getItem_makesTexts hv (hget 1) _
    | putItem => exact Plan.putItem_ensures (fun _ words _ _ => hrewrite words _) _ _
    | fill => exact Plan.fill_ensures (fun _ words _ _ => hrewrite words _) _
    | length => exact Plan.length_ensures (fun _ => trivial) _

theorem planNamed_makesTexts (hv : v.Strings Content.IsText hs) (hn : v.Nameable hs)
    {args : List Ref} (hargs : ∀ r ∈ args, r.Among hs) (name : String) (free : Nat) :
    (Primitive.planNamed name v free args).Ensures (Effect.MakesStrings Content.IsText) :=
  Primitive.planNamed_ensures (fun p => plan_makesTexts hv hn hargs p free) name

end Plans

/-! ## Sessions with texts -/

namespace Command

/-- A command that makes strings from texts only, and changes no string from outside. -/
def KeepsTexts (a : Arena) : Command → Prop
  | .make (.string bytes) => ∃ text, bytes = Utf8.encode text
  | .make (.blankString _) => False
  | .make (.object c _ _) => c ≠ .string
  | .make (.byteArray _) => True
  | .grow h _ _ | .edit h _ => a.classOf h ≠ .ok .string
  | .ask _ | .invoke .. | .reset => True

end Command

/-- A session in which every string that the program makes itself is made from a text. -/
def TextSession (c : Context) (hs : List Handle) : Prop :=
  Course (.only fun cmd a => cmd.KeepsTexts a) c hs ()

section Sessions

variable {a b : Arena} {c d : Context} {hs : List Handle} {h : Handle} {r : Ref}

/-- **A call leaves texts**, where there were texts. -/
theorem texts_of_invoke (hv : c.arena.view.Strings Content.IsText hs) (hc : c.arena.Closed hs)
    {name : String} {args : List Ref} (hargs : ∀ x ∈ args, x.Among hs)
    (hrun : Primitive.invoke name args c = .ok r d) :
    d.arena.view.Strings Content.IsText (noted hs r) := by
  obtain ⟨e, s, hplan, hp⟩ := invoke_effect hc hargs hrun
  have hclosed := hc.performed ((planNamed_within hc hargs name).of_run hplan) hp
  have htargets := (planNamed_targets name c.arena.view c.arena.freeWords args).of_run hplan
  have hmakes := planNamed_makesTexts hv hc.nameable hargs name c.arena.freeWords
  -- what was noted is the object that was made, if one was
  have htiled := (invoke_confined hc.tiled name hargs hrun).2
  rw [hclosed.tiled.unique htiled]
  exact hv.performed hc.tiled (List.Subset.refl hs) (target_among hargs name) htargets
    (hmakes.of_run hplan) hp

theorem Request.isText_of_keeps {q : Request} (hq : (Command.make q).KeepsTexts a) :
    q.content.cls = .string → q.content.IsText := by
  intro hcls
  cases q with
  | object cls payload fill => exact absurd hcls hq
  | string bytes =>
    obtain ⟨text, rfl⟩ := hq
    exact ⟨_, spells_ofText text.toList⟩
  | blankString n => exact hq.elim
  | byteArray n => cases hcls

/-- **Every string of a session with texts holds a text.** -/
theorem TextSession.texts (hses : TextSession c hs) :
    c.arena.view.Strings Content.IsText hs := by
  refine hses.keeps (P := fun c hs _ => c.arena.view.Strings Content.IsText hs) ?_ ?_
  · intro words action source h hh
    cases hh
  · intro c d hs _ answer cmd hc ih keeps honest run
    cases cmd with
    | make q =>
      obtain ⟨rfl, hmade⟩ := run_make_ok run
      dsimp only [Command.handles]
      rw [hc.tiled.noted_used]
      exact ih.made hc.tiled (List.Subset.refl hs) hmade (Request.isText_of_keeps keeps)
    | grow h payload fill =>
      obtain ⟨g, hact, rfl⟩ := run_ok_of_onArena (k := fun h => .given (.obj h)) rfl run
      have hholds := hc.tiled.holds honest.1
      obtain ⟨rfl, hmade⟩ := Arena.grow_made hholds hact
      dsimp only [Command.handles]
      rw [hc.tiled.noted_used]
      refine ih.made hc.tiled (List.Subset.refl hs) hmade fun hcls => ?_
      -- a copy is a string only if what is copied is one
      exact absurd ((Arena.classOf_eq_ok_iff hholds).mpr hcls) keeps
    | edit h e =>
      obtain ⟨hh, hon⟩ := honest
      have hholds := hc.tiled.holds hh
      obtain ⟨rfl, hst⟩ := run_edit_ok hholds hon.sources run
      refine ih.stored hc.tiled (List.Subset.refl hs) hh (fun _ hcls => ?_) hst.toWroteIn
      exact keeps ((Arena.classOf_eq_ok_iff hholds).mpr hcls)
    | ask q =>
      obtain ⟨rfl, x, rfl⟩ := run_ask_ok run
      exact ih
    | invoke name args =>
      rw [run_invoke] at run
      rcases invoke_cases hc honest name with ⟨r, e, hok, _⟩ | ⟨f, s, hfail⟩ | ⟨n, s, _, hstop⟩
      · rw [hok] at run
        cases run
        exact texts_of_invoke ih hc honest hok
      · rw [hfail] at run
        cases run
        exact ih
      · rw [hstop] at run
        cases run
    | reset =>
      intro h hh
      cases hh

end Sessions

end ObjectMemory
