import ObjectMemory.Proofs.Limits
import ObjectMemory.Proofs.Texts

/-!
# Reading texts

A string that holds a text is to a program what the row of the text's characters is. Its length is
their number, an item is one of them, a part is those between two places, and joined strings are
joined rows: `strings_read_as_texts`.
-/

namespace ObjectMemory

open Utf8 (encodeAll)

-- Sums of numbers start from the zero of the core library, also beside other instances.
attribute [local instance (2000)] Zero.ofOfNat0

/-! ## Parts of rows -/

/-- The items from place `first` to place `last`, as far as there are any. -/
def cut {α : Type} (xs : List α) (first : Int) (last : Option Int) : List α :=
  let upTo := match last with
    | some e => xs.take e.toNat
    | none => xs
  upTo.drop (first - 1).toNat

/-- What is sliced out by a start and a size is what lies between the two places. -/
theorem cut_eq {α : Type} (xs : List α) (first : Int) (last : Option Int) :
    let part := ListObject.sliceOf xs.length first last
    cut xs first last = (xs.drop (part.1 - 1)).take part.2 := by
  intro part
  have hstart : part.1 - 1 = (first - 1).toNat := by
    show (max first 1).toNat - 1 = _
    omega
  rw [hstart]
  cases last with
  | none =>
    have hsize : part.2 = xs.length - (first - 1).toNat := by
      show ((xs.length : Int) - max first 1 + 1).toNat = _
      omega
    rw [hsize, cut, List.take_of_length_le (by simp)]
  | some e =>
    have hsize : part.2 = min e.toNat xs.length - (first - 1).toNat := by
      show (min e (xs.length : Int) - max first 1 + 1).toNat = _
      omega
    have htake : xs.take e.toNat = xs.take (min e.toNat xs.length) := by
      rw [← List.take_take, List.take_length]
    rw [hsize, cut, ← List.drop_take, htake]

/-! ## Strings as rows of characters -/

/-- The call gives a new string of the characters, and this is as long as they are many. It is
refused if the arena has no room for the string. -/
def GivesText (c : Context) (name : String) (args : List Ref) (cs : List Char) : Prop :=
  if c.arena.Fits ((encodeAll cs).length / 4 + 1) then
    ∃ d, Primitive.invoke name args c = .ok (.obj ⟨c.arena.used⟩) d ∧
      d.arena.classOf ⟨c.arena.used⟩ = .ok .string ∧
      d.arena.stringBytes ⟨c.arena.used⟩ = .ok (encodeAll cs) ∧
      Primitive.Tells "length" [.obj ⟨c.arena.used⟩] d cs.length
  else
    ∃ d, Primitive.invoke name args c =
      .error (.stop (c.arena.exhaustion ((encodeAll cs).length / 4 + 1))) d

section Readings

variable {c d : Context} {hs : List Handle} {h : Handle} {cs : List Char}

/-- A string of a text is as long as the text. -/
theorem tells_length_of_text (hc : c.arena.Closed hs) (hh : h ∈ hs)
    (hcls : c.arena.classOf h = .ok .string) (hbytes : c.arena.stringBytes h = .ok (encodeAll cs))
    {rest : List Ref} (hrest : ∀ r ∈ rest, r.Among hs) :
    Primitive.Tells "length" (.obj h :: rest) c cs.length := by
  obtain ⟨bytes, hfound, htells⟩ := (tells_length hc hh hrest).2.1 hcls
  cases hbytes.symm.trans hfound
  rwa [Utf8.count_encodeAll] at htells

theorem length_ofText (hclean : '\x00' ∉ cs) :
    (Content.ofText (encodeAll cs)).words.length = (encodeAll cs).length / 4 + 1 := by
  rw [Content.length_words_ofText, takeWhile_encodeAll_of_clean hclean]

theorem givesText_of_plan (hc : c.arena.Closed hs) {name : String} {args : List Ref}
    (hargs : ∀ r ∈ args, r.Among hs) (hclean : '\x00' ∉ cs)
    (hplan : Primitive.planNamed name c.arena.view c.arena.freeWords args =
      .give (.make .fresh (.ofText (encodeAll cs)))) : GivesText c name args cs := by
  have hp := invoke_performs hc hargs hplan
  have hwithin := planNamed_within hc hargs name
  rw [hplan] at hwithin
  simp only [Effect.Performed, length_ofText hclean] at hp
  unfold GivesText
  split
  · next hfits =>
    rw [if_pos hfits] at hp
    obtain ⟨b, hrun, hmade⟩ := hp
    have hcls : b.classOf ⟨c.arena.used⟩ = .ok .string := by
      rw [Arena.classOf_eq hmade.holds_new, hmade.view_new]
      rfl
    have hbytes : b.stringBytes ⟨c.arena.used⟩ = .ok (encodeAll cs) := by
      rw [Arena.stringBytes_eq hmade.holds_new, hmade.view_new]
      exact congrArg Except.ok (text_of_clean hclean)
    refine ⟨_, hrun, hcls, hbytes, ?_⟩
    -- the new string is an object of a closed arena
    have hperformed := invoke_performs hc hargs hplan
    rw [hrun] at hperformed
    have hclosed := hc.performed hwithin hperformed
    exact tells_length_of_text hclosed (mem_noted hs _) hcls hbytes among_nil
  · next hfull =>
    rw [if_neg hfull] at hp
    exact ⟨_, hp⟩

theorem planNamed_copyFromTo (v : View) (free : Nat) (source first : Ref) (rest : List Ref) :
    Primitive.planNamed "copyFromTo" v free (source :: first :: rest) =
      Plan.copyFromTo v source first rest[0]? :=
  (Primitive.planNamed_name .copyFromTo v free _).trans (if_neg (by simp [Primitive.arity]))

theorem planNamed_join (v : View) (free : Nat) {parts : List Ref} (hlen : 2 ≤ parts.length) :
    Primitive.planNamed "join" v free parts = Plan.join v parts :=
  (Primitive.planNamed_name .join v free _).trans (if_neg (Nat.not_lt.mpr hlen))

/-- **What is cut out by code points is cut out of the row of pieces.** -/
theorem copyText_eq (text : List UInt8) (first : Int) (last : Option Int) :
    Plan.copyText text first last =
      .make .fresh (.ofText (cut (CodePoints.pieces text) first last).flatten) := by
  have hcut := cut_eq (CodePoints.pieces text) first last
  have hstart : 1 ≤ (ListObject.sliceOf (CodePoints.count text) first last).1 := by
    show 1 ≤ (max first 1).toNat
    omega
  dsimp only at hcut
  rw [Plan.copyText, hcut, CodePoints.length_pieces]
  generalize ListObject.sliceOf (CodePoints.count text) first last = part at hstart
  by_cases hnone : part.2 = 0
  · rw [if_pos hnone, hnone, List.take_zero]
    rfl
  · have hsize : part.1 + part.2 - 1 + 1 - part.1 = part.2 := by omega
    rw [if_neg hnone, CodePoints.slice_eq text hstart (by omega), hsize]

/-- What is cut out of characters by code points is cut out of the row of characters. -/
theorem copyText_encodeAll (cs : List Char) (first : Int) (last : Option Int) :
    Plan.copyText (encodeAll cs) first last =
      .make .fresh (.ofText (encodeAll (cut cs first last))) := by
  have hmap : cut (cs.map String.utf8EncodeChar) first last =
      (cut cs first last).map String.utf8EncodeChar := by
    cases last <;> simp [cut]
  rw [copyText_eq, Utf8.pieces_encodeAll, hmap, encodeAll, List.flatMap_def]

/-- A string of the session, read as the row of its characters. -/
structure ReadsAsText (c : Context) (h : Handle) (cs : List Char) : Prop where
  clean : '\x00' ∉ cs
  bytes : c.arena.stringBytes h = .ok (encodeAll cs)
  length : Primitive.Tells "length" [.obj h] c cs.length
  item : ∀ (i : Nat) (ch : Char), cs[i]? = some ch →
    GivesText c "at" [.int (i + 1 : Nat), .obj h] [ch]
  outside : ∀ i : Int, i < 1 ∨ cs.length < i →
    Primitive.invoke "at" [.int i, .obj h] c = .error (.failure .indexOutOfRange) c
  part : ∀ first last : Int,
    GivesText c "copyFromTo" [.obj h, .int first, .int last] (cut cs first (some last))
  tail : ∀ first : Int, GivesText c "copyFromTo" [.obj h, .int first] (cut cs first none)

theorem mem_of_mem_cut {α : Type} {xs : List α} {first : Int} {last : Option Int} {x : α}
    (hx : x ∈ cut xs first last) : x ∈ xs := by
  unfold cut at hx
  have hx := List.mem_of_mem_drop hx
  cases last with
  | none => exact hx
  | some e => exact List.mem_of_mem_take hx

/-- **A string that holds a text is read as the row of its characters.** -/
theorem readsAsText (hc : c.arena.Closed hs) (hh : h ∈ hs)
    (hcls : c.arena.classOf h = .ok .string) (hcs : Spells (c.arena.view h).text cs) :
    ReadsAsText c h cs := by
  have hholds := hc.tiled.holds hh
  have hbytes : c.arena.stringBytes h = .ok (encodeAll cs) := by
    rw [Arena.stringBytes_eq hholds, hcs.eq]
  have hcontainer : c.arena.view.container? (.obj h) = some (.string h) :=
    container?_of_classOf hholds hcls
  have hobj : (Ref.obj h).Among hs := among_obj.mpr hh
  have hint (n : Int) : (Ref.int n).Among hs := among_of_obj? rfl hs
  have hget (i : Int) : Plan.getItem c.arena.view (.obj h) (.int i) =
      (Plan.place (.index i) cs.length >>= fun j =>
        .give (.make .fresh (.ofText (CodePoints.slice (encodeAll cs) j j)))) := by
    rw [Plan.getItem, hcontainer]
    show (Plan.place _ (CodePoints.count (c.arena.view h).text) >>= fun j => _) = _
    rw [hcs.eq, Utf8.count_encodeAll]
  refine ⟨hcs.clean, hbytes, tells_length_of_text hc hh hcls hbytes among_nil, ?_, ?_, ?_, ?_⟩
  · intro i ch hi
    obtain ⟨hlt, hch⟩ := List.getElem?_eq_some_iff.mp hi
    have hclean : '\x00' ∉ [ch] := by
      intro hmem
      rw [← List.mem_singleton.mp hmem] at hi
      exact hcs.clean (List.mem_of_getElem? hi)
    refine givesText_of_plan hc (among_pair (hint _) hobj) hclean ?_
    have hplace : Plan.place (.index ((i + 1 : Nat) : Int)) cs.length = .give (i + 1) :=
      Plan.place_index ⟨by omega, hlt⟩
    have hone : (cs.drop i).take 1 = [ch] := by
      rw [List.drop_eq_getElem_cons hlt, hch]
      rfl
    rw [planNamed_at, hget, hplace]
    show Plan.give (Effect.make .fresh (.ofText (CodePoints.slice _ (i + 1) (i + 1)))) = _
    rw [Utf8.slice_encodeAll cs (by omega) (Nat.le_refl _), Nat.add_sub_cancel,
      Nat.add_sub_cancel_left, hone]
  · intro i hi
    refine invoke_refuses hc (among_pair (hint _) hobj) ?_
    have hplace : Plan.place (.index i) cs.length = .refuse .indexOutOfRange := by
      rw [Plan.place, if_neg (by omega)]
    rw [planNamed_at, hget, hplace]
    rfl
  · intro first last
    refine givesText_of_plan hc (among_cons hobj (among_pair (hint _) (hint _)))
      (fun hmem => hcs.clean (mem_of_mem_cut hmem)) ?_
    rw [planNamed_copyFromTo, Plan.copyFromTo, hcontainer]
    show Plan.give (Plan.copyText (c.arena.view h).text first (some last)) = _
    rw [hcs.eq, copyText_encodeAll]
  · intro first
    refine givesText_of_plan hc (among_pair hobj (hint _))
      (fun hmem => hcs.clean (mem_of_mem_cut hmem)) ?_
    rw [planNamed_copyFromTo, Plan.copyFromTo, hcontainer]
    show Plan.give (Plan.copyText (c.arena.view h).text first none) = _
    rw [hcs.eq, copyText_encodeAll]

/-! ## Joining -/

theorem printed_of_among (hv : c.arena.view.Strings Content.IsText hs) (hc : c.arena.Closed hs)
    {r : Ref} (hr : r.Among hs) :
    StringObject.printed c.arena r = .ok none ∨
      ∃ cs, '\x00' ∉ cs ∧ StringObject.printed c.arena r = .ok (some (encodeAll cs)) := by
  rw [StringObject.printed_eq (hc.tiled.knows hr)]
  cases hp : c.arena.view.printed? r with
  | none => exact Or.inl rfl
  | some bytes =>
    obtain ⟨cs, hcs⟩ := spells_of_printed? hv hr hp
    rw [hcs.eq]
    exact Or.inr ⟨cs, hcs.clean, rfl⟩

/-- The parts are printed as the texts, which have no zero character. -/
theorem printed?_of_mapM (hv : c.arena.view.Strings Content.IsText hs) (hc : c.arena.Closed hs)
    {parts : List Ref} (hp : ∀ r ∈ parts, r.Among hs) {texts : List (List Char)}
    (hprinted : parts.mapM (StringObject.printed c.arena) =
      .ok (texts.map fun t => some (encodeAll t))) :
    parts.mapM c.arena.view.printed? = some (texts.map encodeAll) ∧ '\x00' ∉ texts.flatten := by
  induction parts generalizing texts with
  | nil =>
    cases texts with
    | nil => exact ⟨rfl, by simp⟩
    | cons t texts => cases hprinted
  | cons r rest ih =>
    have hr := hp r List.mem_cons_self
    have hrest : ∀ x ∈ rest, x.Among hs := fun x hx => hp x (List.mem_cons_of_mem _ hx)
    rw [List.mapM_cons, StringObject.printed_eq (hc.tiled.knows hr)] at hprinted
    cases hmore : rest.mapM (StringObject.printed c.arena) with
    | error s =>
      rw [hmore] at hprinted
      cases hprinted
    | ok shown =>
      rw [hmore] at hprinted
      cases texts with
      | nil => cases hprinted
      | cons t texts =>
        obtain ⟨hfirst, rfl⟩ := List.cons.inj (Except.ok.inj hprinted)
        obtain ⟨hall, hclean⟩ := ih hrest hmore
        obtain ⟨cs, hcs⟩ := spells_of_printed? hv hr hfirst
        refine ⟨?_, ?_⟩
        · rw [List.mapM_cons, hfirst, hall]
          rfl
        · rw [List.flatten_cons, List.mem_append]
          rintro (hmem | hmem)
          · rw [Utf8.encodeAll_injective hcs.eq] at hmem
            exact hcs.clean hmem
          · exact hclean hmem

theorem flatten_map_encodeAll (texts : List (List Char)) :
    (texts.map encodeAll).flatten = encodeAll texts.flatten := by
  induction texts with
  | nil => rfl
  | cons t texts ih =>
    rw [List.map_cons, List.flatten_cons, ih, List.flatten_cons, encodeAll_append]

/-- **Joined parts are the texts that they are printed as, one after another.** -/
theorem join_givesText (hv : c.arena.view.Strings Content.IsText hs) (hc : c.arena.Closed hs)
    (hh : h ∈ hs) (hcls : c.arena.classOf h = .ok .string) {r : Ref} {rest : List Ref}
    (hp : ∀ x ∈ r :: rest, x.Among hs) {texts : List (List Char)}
    (hprinted : (.obj h :: r :: rest).mapM (StringObject.printed c.arena) =
      .ok (texts.map fun t => some (encodeAll t))) :
    GivesText c "join" (.obj h :: r :: rest) texts.flatten := by
  have hargs := among_cons (among_obj.mpr hh) hp
  obtain ⟨hall, hclean⟩ := printed?_of_mapM hv hc hargs hprinted
  have hcontainer : c.arena.view.container? (.obj h) = some (.string h) :=
    container?_of_classOf (hc.tiled.holds hh) hcls
  refine givesText_of_plan hc hargs hclean ?_
  rw [planNamed_join _ _ (by simp), Plan.join, hcontainer, hall, ← flatten_map_encodeAll]
  rfl

end Readings

/-- **Strings made from texts stay texts, and are read by characters.** Let every string that the
program makes itself be made from a text, and let it write into no string. Then every string that
there is holds the UTF-8 bytes of some characters, none of them zero. Its length is their number.
`at` gives the string of one character alone for the places from 1 to that number and refuses
every other place, and `copyFromTo` gives those between two places, as far as there are any.

What may stand among joined strings is printed as a text, and a joined string is as long as all
printed parts together. -/
theorem strings_read_as_texts {c : Context} {hs : List Handle} (hses : TextSession c hs) :
    (∀ h ∈ hs, c.arena.classOf h = .ok .string → ∃ cs, ReadsAsText c h cs) ∧
    (∀ r, r.Among hs → StringObject.printed c.arena r = .ok none ∨
      ∃ cs, '\x00' ∉ cs ∧ StringObject.printed c.arena r = .ok (some (encodeAll cs))) ∧
    ∀ h ∈ hs, c.arena.classOf h = .ok .string → ∀ r rest, (∀ x ∈ r :: rest, x.Among hs) →
      ∀ texts : List (List Char), (.obj h :: r :: rest).mapM (StringObject.printed c.arena) =
          .ok (texts.map fun t => some (encodeAll t)) →
        GivesText c "join" (.obj h :: r :: rest) texts.flatten ∧
        ∀ l d, Primitive.invoke "join" (.obj h :: r :: rest) c = .ok l d →
          Primitive.Tells "length" [l] d (texts.map List.length).sum := by
  have hc := hses.closed
  have hv := hses.texts
  refine ⟨fun h hh hcls => ?_, fun r hr => printed_of_among hv hc hr, ?_⟩
  · obtain ⟨cs, hcs⟩ := hv h hh ((Arena.classOf_eq_ok_iff (hc.tiled.holds hh)).mp hcls)
    exact ⟨cs, readsAsText hc hh hcls hcs⟩
  · intro h hh hcls r rest hp texts hprinted
    have hgives := join_givesText hv hc hh hcls hp hprinted
    refine ⟨hgives, fun l d hrun => ?_⟩
    unfold GivesText at hgives
    split at hgives
    · obtain ⟨d', hrun', _, _, htells⟩ := hgives
      cases hrun.symm.trans hrun'
      rwa [List.length_flatten] at htells
    · obtain ⟨d', hstop⟩ := hgives
      cases hrun.symm.trans hstop

/-- A string of three characters in five bytes, and a join with a truth value. -/
theorem euro_sign_in_string :
    ∃ c, TextSession c [⟨0⟩] ∧ ReadsAsText c ⟨0⟩ ['a', '€', 'b'] ∧
      GivesText c "join" [.obj ⟨0⟩, .true] ['a', '€', 'b', 't', 'r', 'u', 'e'] := by
  have h0 : TextSession _ _ := Course.start 64 .panic (Source.ofList [])
  have h1 := Course.step (.make (.string (Utf8.encode "a€b"))) h0 ⟨"a€b", rfl⟩ trivial rfl
  obtain ⟨hreads, _, hjoins⟩ := strings_read_as_texts h1
  obtain ⟨cs, hcs⟩ := hreads ⟨0⟩ (by decide) rfl
  have hsame : encodeAll ['a', '€', 'b'] = encodeAll cs := Except.ok.inj hcs.bytes
  rw [← Utf8.encodeAll_injective hsame] at hcs
  refine ⟨_, h1, hcs, ?_⟩
  have hargs : ∀ x ∈ [Ref.true], x.Among [⟨0⟩] := by
    intro x hx
    rw [List.mem_singleton.mp hx]
    exact among_of_obj? rfl _
  exact (hjoins ⟨0⟩ (by decide) rfl .true [] hargs [['a', '€', 'b'], ['t', 'r', 'u', 'e']] rfl).1

end ObjectMemory
