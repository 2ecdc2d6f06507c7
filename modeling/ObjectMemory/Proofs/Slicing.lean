import ObjectMemory.Proofs.Indexables

/-!
# Cutting out parts

`copyFromTo` gives a new list or string of what stands between two places. Any integers may be
passed: a place before the row counts as its start and one behind it as its end, and there may be
nothing between them. If no end is passed, the part reaches to the end of the row.

So a program may cut a part out of a part, and have the same as if it had cut once
(`parts_of_parts`).
-/

namespace ObjectMemory

/-- The arguments of a call that cuts out what stands from place `first` on, and up to place `last`
if one is passed. -/
def partArgs (h : Handle) (first : Int) (last : Option Int) : List Ref :=
  .obj h :: .int first :: (last.map Ref.int).toList

section Calls

variable {c : Context} {hs : List Handle} {h : Handle} {x : Indexable}

theorem among_partArgs (hh : h ∈ hs) (first : Int) (last : Option Int) :
    ∀ r ∈ partArgs h first last, r.Among hs := by
  intro r hr
  rcases List.mem_cons.mp hr with rfl | hr
  · exact among_obj.mpr hh
  · refine among_of_obj? ?_ hs
    cases last <;> simp at hr
    · rw [hr]
      rfl
    · rcases hr with rfl | rfl <;> rfl

theorem planNamed_partArgs (v : View) (free : Nat) (first : Int) (last : Option Int) :
    Primitive.planNamed "copyFromTo" v free (partArgs h first last) =
      match v.container? (.obj h) with
      | some (.list g) => .give (Plan.copyList (v g) first last)
      | some (.string g) => .give (Plan.copyText (v g).text first last)
      | _ => .refuse .needsIndexable := by
  rw [partArgs, planNamed_copyFromTo]
  cases last <;> rfl

theorem copyList_eq (content : Content) (first : Int) (last : Option Int) :
    ∃ copy, Plan.copyList content first last = .make .fresh copy ∧
      copy.MadeFor (.list (cut content.items first last)) := by
  refine ⟨_, rfl, ?_⟩
  have hslice : cut content.items first last = slice content.items first last := rfl
  rw [hslice, ← content.slice_items]
  exact .items _

/-- **A part of a list or of a string is given as a new one.** -/
theorem copyFromTo_gives (hc : c.arena.Closed hs) (hh : h ∈ hs) (hx : c.arena.Shows h x)
    (first : Int) (last : Option Int) {next : Handle → Context → Prop}
    (hnext : ∀ p d, Added c hs (x.part first (last.getD x.length)) p d → next p d) :
    Gives c hs "copyFromTo" (partArgs h first last) (x.part first (last.getD x.length)) next := by
  have hholds := hc.tiled.holds hh
  have hargs := among_partArgs hh first last
  have hplan := planNamed_partArgs (h := h) c.arena.view c.arena.freeWords first last
  have hclean := hx.clean.part first (last.getD x.length)
  cases hx with
  | list cls read =>
    cases (ListObject.items_eq hholds).symm.trans read
    obtain ⟨copy, hcopy, hmade⟩ := copyList_eq (c.arena.view h) first last
    rw [cut_getD] at hmade
    rw [container?_of_classOf hholds cls] at hplan
    exact gives_of_plan hc hargs hmade (hplan.trans (congrArg Plan.give hcopy)) hnext
  | string cls read _ =>
    cases (Arena.stringBytes_eq hholds).symm.trans read
    rw [container?_of_classOf hholds cls] at hplan
    refine gives_of_plan hc hargs (.bytes hclean) (hplan.trans ?_) hnext
    show Plan.give (Plan.copyText (c.arena.view h).text first last) = _
    rw [copyText_eq, cut_getD, CodePoints.length_pieces]
    rfl

end Calls

/-- **A part of a part is a part of the whole**, for lists and for strings of any bytes, whatever
places are passed. An end that is left out is the end of the row.

The part has as many items as there are places between its start, which is not before the first
item, and its end, which is not behind the last one. The part of that part is what one call cuts out
if its start lies as much further on and its end does not lie behind the first one. Each call takes
up what the new object needs, and is refused just if there is no room for it.

The bytes that are cut out of a string are divided into the code points that they were divided
into in the string. -/
theorem parts_of_parts {c : Context} {hs : List Handle} (hses : Session c hs) {h : Handle}
    (hh : h ∈ hs) {x : Indexable} (hx : c.arena.Shows h x) (first start : Int)
    (last stop : Option Int) :
    let past := last.getD x.length
    let size := max 0 (min past x.length - max first 1 + 1)
    let first' := max first 1 + max start 1 - 1
    let last' := min (min past x.length) (max first 1 + stop.getD size - 1)
    Primitive.Tells "length" [.obj h] c x.length ∧
    Gives c hs "copyFromTo" (partArgs h first' (some last')) (x.part first' last')
      (fun _ _ => True) ∧
    Gives c hs "copyFromTo" (partArgs h first last) (x.part first past) fun p d =>
      Primitive.Tells "length" [.obj p] d size ∧
      Gives d (hs ++ [p]) "copyFromTo" (partArgs p start stop) (x.part first' last')
        (fun _ _ => True) ∧
      ∀ whole out, x = .string whole → d.arena.stringBytes p = .ok out →
        CodePoints.pieces out = cut (CodePoints.pieces whole) first (some past) := by
  intro past size first' last'
  have hc := hses.closed
  have hsize : ((x.part first past).length : Int) = size := x.length_part first past
  refine ⟨hx.tells hc hh, copyFromTo_gives hc hh hx first' (some last') fun _ _ _ => trivial, ?_⟩
  refine copyFromTo_gives hc hh hx first last fun p d hadded => ⟨?_, ?_, ?_⟩
  · rw [← hsize]
    exact hadded.tells
  · have hpart := x.part_part first past start (stop.getD size)
    have htwice : Gives d (hs ++ [p]) "copyFromTo" (partArgs p start stop)
        ((x.part first past).part start (stop.getD (x.part first past).length))
        (fun _ _ => True) :=
      copyFromTo_gives hadded.closed hadded.mem_new hadded.shows start stop fun _ _ _ => trivial
    rwa [hsize, hpart] at htwice
  · rintro whole out rfl hout
    rw [← hadded.shows.bytes_eq hout]
    exact CodePoints.pieces_flatten_cut whole first past

/-- The second part of the first three code points of a string that is no UTF-8. There is room. -/
theorem part_of_broken_string :
    ∃ c, Session c [⟨0⟩] ∧ c.arena.used = 3 ∧ c.arena.capacity = 64 ∧
      Gives c [⟨0⟩] "copyFromTo" (partArgs ⟨0⟩ (-2) (some 3)) (.string [0xE2, 0x82, 0x41, 0x80])
        fun p d => Primitive.Tells "length" [.obj p] d 3 ∧
          Gives d [⟨0⟩, p] "copyFromTo" (partArgs p 2 none) (.string [0x41, 0x80])
            fun _ _ => True := by
  obtain ⟨c, hses, hused, hcap, hshows⟩ :
      ∃ c, Session c [⟨0⟩] ∧ c.arena.used = 3 ∧ c.arena.capacity = 64 ∧
        c.arena.Shows ⟨0⟩ (.string [0xE2, 0x82, 0x41, 0x80, 0x80]) := by
    have h0 := Session.start 64 .panic (Source.ofList [])
    have h1 := Session.step (.make (.string [0xE2, 0x82, 0x41, 0x80, 0x80])) h0 trivial rfl
    exact ⟨_, h1, rfl, rfl, .string rfl rfl (by decide)⟩
  refine ⟨c, hses, hused, hcap, ?_⟩
  obtain ⟨-, -, hparts⟩ :=
    parts_of_parts hses (by decide : (⟨0⟩ : Handle) ∈ [⟨0⟩]) hshows (-2) 2 (some 3) none
  have hlength : (Indexable.string [0xE2, 0x82, 0x41, 0x80, 0x80]).length = 4 := by cbv
  have hfirst : (Indexable.string [0xE2, 0x82, 0x41, 0x80, 0x80]).part (-2) 3 =
    .string [0xE2, 0x82, 0x41, 0x80] := by cbv
  have hsecond : (Indexable.string [0xE2, 0x82, 0x41, 0x80, 0x80]).part 2 3 =
    .string [0x41, 0x80] := by cbv
  simp only [hlength] at hparts
  rw [← hfirst]
  refine hparts.imp fun p d _ htwice => ⟨htwice.1, ?_⟩
  rw [← hsecond]
  exact htwice.2.1

end ObjectMemory
