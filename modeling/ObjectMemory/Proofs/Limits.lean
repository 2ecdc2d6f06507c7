import ObjectMemory.Proofs.Issues
import ObjectMemory.Proofs.StatedCounts
import ObjectMemory.Proofs.Stopping

/-!
# Limits

Code that counts takes the largest integer in place of a larger number, and a header that is
shifted could lose its high bits. No session gets that far: every object fits its header, every
number that a primitive tells is the number itself, every count that a list states is exact, and
what a primitive gives is found again in a list that it was added to.
-/

namespace ObjectMemory

/-! ## Numbers that primitives tell -/

/-- The call gives the integer, which a word can hold, and changes nothing. -/
def Primitive.Tells (name : String) (args : List Ref) (c : Context) (n : Int) : Prop :=
  Primitive.invoke name args c = .ok (.int n) c ∧ (Ref.int n).Canonical

section Told

variable {c d : Context} {hs : List Handle} {h : Handle} {rest : List Ref}

theorem tells_of_plan (hc : c.arena.Closed hs) {name : String} {args : List Ref}
    (hargs : ∀ r ∈ args, r.Among hs) {n : Int} (hn : (Ref.int n).Canonical)
    (hplan : Primitive.planNamed name c.arena.view c.arena.freeWords args =
      .give (.give (.int n))) : Primitive.Tells name args c n :=
  ⟨invoke_performs hc hargs hplan, hn⟩

theorem canonical_of_le {n : Nat} (hn : n ≤ Ref.maxSmallInt) : (Ref.int n).Canonical := by
  rw [← Ref.ofCount_of_le hn]
  exact Ref.canonical_ofCount n

theorem planNamed_length (v : View) (free : Nat) (r : Ref) (rest : List Ref) :
    Primitive.planNamed "length" v free (r :: rest) = Plan.length v r :=
  (Primitive.planNamed_name .length v free _).trans (if_neg (by simp [Primitive.arity]))

theorem planNamed_freeMemory (v : View) (free : Nat) (args : List Ref) :
    Primitive.planNamed "freeMemory" v free args = .give (.give (Ref.ofCount free)) :=
  (Primitive.planNamed_name .freeMemory v free _).trans (if_neg (Nat.not_lt_zero _))

theorem planNamed_findInString (v : View) (free : Nat) (r s : Ref) (rest : List Ref) :
    Primitive.planNamed "findInString" v free (r :: s :: rest) =
      Plan.findInString v r s rest[0]? :=
  (Primitive.planNamed_name .findInString v free _).trans (if_neg (by simp [Primitive.arity]))

/-- A length that is no larger than the largest integer is told, also by an arena whose lists hold
references to nothing. -/
theorem tells_of_length (ht : c.arena.Tiled hs) (hh : h ∈ hs) (hrest : ∀ r ∈ rest, r.Among hs)
    {n : Nat} (hn : n ≤ Ref.maxSmallInt)
    (hplan : Plan.length c.arena.view (.obj h) = .give (.give (Ref.ofCount n))) :
    Primitive.Tells "length" (.obj h :: rest) c n := by
  have hcarries := invoke_carries_apart ht (among_cons (among_obj.mpr hh) hrest)
    (by decide : Primitive.ofName? "length" ≠ some .joinStrings)
  rw [planNamed_length, hplan, Ref.ofCount_of_le hn, carries_effect] at hcarries
  exact ⟨hcarries, canonical_of_le hn⟩

/-- The call of `length` on the object tells how many items, code points or bytes it has. -/
def TellsLength (c : Context) (h : Handle) (rest : List Ref) : Prop :=
  (c.arena.classOf h = .ok .list → ∃ items, ListObject.items c.arena h = .ok items ∧
    Primitive.Tells "length" (.obj h :: rest) c items.length) ∧
  (c.arena.classOf h = .ok .string → ∃ bytes, c.arena.stringBytes h = .ok bytes ∧
    Primitive.Tells "length" (.obj h :: rest) c (CodePoints.count bytes)) ∧
  (c.arena.classOf h = .ok .byteArray → ∃ n, c.arena.payloadWords h = .ok n ∧
    Primitive.Tells "length" (.obj h :: rest) c (4 * n))

theorem tells_length (hc : c.arena.Closed hs) (hh : h ∈ hs) (hrest : ∀ r ∈ rest, r.Among hs) :
    TellsLength c h rest := by
  have hholds := hc.tiled.holds hh
  have hfits := hc.tiled.fitsHeaders
  refine ⟨fun hcls => ?_, fun hcls => ?_, fun hcls => ?_⟩
  · refine ⟨_, ListObject.items_eq hholds, ?_⟩
    rw [Content.length_items]
    refine tells_of_length hc.tiled hh hrest (hfits.count_le hh) ?_
    rw [Plan.length, container?_of_classOf hholds hcls]
    rfl
  · refine ⟨_, Arena.stringBytes_eq hholds,
      tells_of_length hc.tiled hh hrest (hfits.codePoints_le hh) ?_⟩
    rw [Plan.length, container?_of_classOf hholds hcls]
    rfl
  · refine ⟨_, Arena.payloadWords_eq hholds, ?_⟩
    have hplan : Plan.length c.arena.view (.obj h) =
        .give (.give (Ref.ofCount (c.arena.view h).bytes.length)) := by
      rw [Plan.length, container?_of_classOf hholds hcls]
      rfl
    have hbytes := tells_of_length hc.tiled hh hrest (hfits.bytes_le hh) hplan
    rw [Content.length_bytes] at hbytes
    exact hbytes

theorem tells_freeMemory (hc : c.arena.Closed hs) {args : List Ref}
    (hargs : ∀ r ∈ args, r.Among hs) :
    Primitive.Tells "freeMemory" args c (c.arena.capacity - c.arena.used) := by
  have hused := hc.tiled.used_le
  have hsize := hc.tiled.size
  have hfree : c.arena.freeWords ≤ Ref.maxSmallInt := by
    unfold maxArenaWords at hsize
    unfold Arena.freeWords Ref.maxSmallInt
    omega
  have hexact : (c.arena.capacity : Int) - c.arena.used = c.arena.freeWords := by
    unfold Arena.freeWords
    omega
  rw [hexact]
  refine tells_of_plan hc hargs (canonical_of_le hfree) ?_
  rw [planNamed_freeMemory, Ref.ofCount_of_le hfree]

/-- **A search tells the place itself.** -/
theorem tells_findInString (hc : c.arena.Closed hs) {needle haystack : Handle} (hn : needle ∈ hs)
    (hh : haystack ∈ hs) (hneedle : c.arena.classOf needle = .ok .string)
    (hhaystack : c.arena.classOf haystack = .ok .string) (hrest : ∀ r ∈ rest, r.Among hs) :
    ∃ small large, c.arena.stringBytes needle = .ok small ∧
      c.arena.stringBytes haystack = .ok large ∧
      Primitive.Tells "findInString" (.obj needle :: .obj haystack :: rest) c
        (Search.find small large ((rest[0]?.bind Ref.int?).getD 1)) := by
  have htext {g : Handle} (hg : g ∈ hs) (hcls : c.arena.classOf g = .ok .string) :=
    text?_of_classOf (hc.tiled.holds hg) hcls
  have hlen := hc.tiled.fitsHeaders.text_le hh
  refine ⟨_, _, Arena.stringBytes_eq (hc.tiled.holds hn), Arena.stringBytes_eq (hc.tiled.holds hh),
    tells_of_plan hc ?_ (canonical_find hlen _) ?_⟩
  · exact among_cons (among_obj.mpr hn) (among_cons (among_obj.mpr hh) hrest)
  · rw [planNamed_findInString, Plan.findInString, htext hn hneedle, htext hh hhaystack]
    rfl

end Told

/-! ## Keeping what was given -/

section Kept

variable {c d e : Context} {hs : List Handle} {h : Handle} {r : Ref}

theorem kept_of_canonical (hr : r.Canonical) : r.kept = r := by
  cases r with
  | int n => rw [Ref.kept, Ref.smallInt, Ref.wrap_of_bounds hr]
  | _ => rfl

theorem among_noted (hs : List Handle) (r : Ref) : r.Among (noted hs r) := by
  rintro h rfl
  exact mem_noted hs h

theorem planNamed_at (v : View) (free : Nat) (selector container : Ref) :
    Primitive.planNamed "at" v free [selector, container] = Plan.getItem v container selector :=
  Primitive.planNamed_name .getItem v free _

/-- The last item of a list is found at the place that is the list's length. -/
theorem at_last (hc : e.arena.Closed hs) {items : List Ref} {capacity : Nat}
    (hlist : e.arena.view.heap hs h = some ⟨items ++ [r], capacity⟩) :
    ∃ n : Nat, Primitive.Tells "length" [.obj h] e n ∧
      Primitive.invoke "at" [.int n, .obj h] e = .ok r e := by
  unfold View.heap at hlist
  split at hlist
  · next hin =>
    obtain ⟨hh, hcls⟩ := hin
    have hitems : (e.arena.view h).items = items ++ [r] :=
      congrArg Sequence.items (Option.some.inj hlist)
    have hcount : (e.arena.view h).count = items.length + 1 := by
      rw [← Content.length_items, hitems, List.length_append]
      rfl
    have hclassOf := (Arena.classOf_eq_ok_iff (hc.tiled.holds hh)).mpr hcls
    obtain ⟨found, hfound, htells⟩ := (tells_length hc hh among_nil).1 hclassOf
    rw [ListObject.items_eq (hc.tiled.holds hh), hitems] at hfound
    cases hfound
    rw [List.length_append] at htells
    refine ⟨_, htells, ?_⟩
    -- the place is one of the list's, and the item there is the last one
    have hfield : (e.arena.view h).field (items.length + 1) = r := by
      have hlast := Content.getElem?_items (c := e.arena.view h) (i := items.length + 1) (by omega)
      rw [hitems, Nat.add_sub_cancel, List.getElem?_concat_length] at hlast
      exact (Option.some.inj hlast).symm
    have hplace : Plan.place (.index ((items.length + 1 : Nat) : Int)) (e.arena.view h).count =
        .give (items.length + 1) :=
      Plan.place_index ⟨by omega, Nat.le_of_eq hcount.symm⟩
    have hplan : Plan.getItem e.arena.view (.obj h) (.int ((items.length + 1 : Nat) : Int)) =
        .give (.give r) := by
      rw [Plan.getItem, View.container?, hcls]
      show (Plan.place _ _ >>= fun i => _) = _
      rw [hplace, ← hfield]
      rfl
    have hindex : (Ref.int ((items.length + 1 : Nat) : Int)).Among hs := among_of_obj? rfl hs
    have hperformed := invoke_performs hc (among_pair hindex (among_obj.mpr hh))
      ((planNamed_at _ _ _ _).trans hplan)
    exact hperformed
  · cases hlist

/-- **What a word can hold is found again in a list that it was added to.** -/
theorem keeps_in_list (hc : d.arena.Closed hs) (hh : h ∈ hs)
    (hcls : d.arena.classOf h = .ok .list) (hr : r.Among hs) (hcanonical : r.Canonical) {l : Ref}
    (hrun : Primitive.invoke "addLast" [r, .obj h] d = .ok l e) :
    ∃ n : Nat, Primitive.Tells "length" [l] e n ∧
      Primitive.invoke "at" [.int n, l] e = .ok r e := by
  have hargs := among_pair hr (among_obj.mpr hh)
  have hclosed : e.arena.Closed (noted hs l) := by
    obtain ⟨effect, s, hplan, hp⟩ := invoke_effect hc hargs hrun
    exact hc.performed ((planNamed_within hc hargs "addLast").of_run hplan) hp
  have hname : Primitive.ofName? "addLast" = some .addLast := Primitive.ofName?_name .addLast
  have hcall : Primitive.listCallNamed? d.arena.view "addLast" [r, .obj h] =
      some (.addLast (.obj h) r) := by
    rw [Primitive.listCallNamed?, hname]
    rfl
  have hrunc : (Command.invoke "addLast" [r, .obj h]).run d = .ok (.given l) e := by
    rw [run_invoke, hrun]
  have hallowed := invoke_allowed hc hargs hrunc hcall
  rw [Arena.classOf_eq_ok_iff (hc.tiled.holds hh)] at hcls
  have hheap : (d.arena.view.heap hs).list? (.obj h) = some (h, (d.arena.view h).sequence) := by
    rw [Heap.list?, View.heap, if_pos ⟨hh, hcls⟩]
    rfl
  dsimp only [ListCall.verdict] at hallowed
  rw [hheap, kept_of_canonical hcanonical] at hallowed
  dsimp only [Verdict.need] at hallowed
  split at hallowed
  · obtain ⟨heq, hnext⟩ := hallowed
    cases heq
    exact at_last hclosed ((congrFun hnext h).trans (if_pos rfl))
  · obtain ⟨g, _, heq, hnext⟩ := hallowed
    cases heq
    exact at_last hclosed ((congrFun hnext g).trans (if_pos rfl))

end Kept

/-! ## Sizes that are asked for -/

/-- The action makes an object of `n` words if the arena has free words for it, for a header and
one word more. Otherwise it is refused for want of room. -/
def Arena.RoomDecides (act : ArenaM Handle) (n : Nat) (a : Arena) : Prop :=
  if a.used + (1 + n) < a.capacity then
    ∃ b, act a = .ok ⟨a.used⟩ b ∧ b.payloadWords ⟨a.used⟩ = .ok n
  else act a = .error (a.exhaustion n) (a.refused n)

section Decided

variable {a : Arena} {hs : List Handle}

/-- **What is made where there is room has a size that its header holds.** -/
theorem Arena.Makes.decided (ht : a.Tiled hs) {act : ArenaM Handle} {o : Origin} {c : Content}
    (hmakes : Makes act o c a) : RoomDecides act c.words.length a := by
  have hiff := ht.fits_iff c.words.length
  unfold RoomDecides
  split
  · next hroom =>
    obtain ⟨b, hrun, hmade⟩ := hmakes.of_fits (hiff.mpr hroom)
    refine ⟨b, hrun, ?_⟩
    rw [payloadWords_eq hmade.holds_new, hmade.words]
  · next hfull =>
    unfold Makes at hmakes
    rwa [if_neg fun hfits => hfull (hiff.mp hfits)] at hmakes

theorem Request.decided (ht : a.Tiled hs) {r : Request} (hc : r.cls.Storable) :
    if r.Sized then Arena.RoomDecides r.make r.payload a
    else r.make a = .error .overflow a := by
  split
  · next hsize =>
    rw [← r.length_content]
    exact (r.makes hc hsize a).decided ht
  · next hsize => exact make_of_not_sized hsize a

theorem Arena.grow_decided (ht : a.Tiled hs) {h : Handle} (hh : h ∈ hs) (n : Nat) (fill : Ref) :
    if 1 + n ≤ Size.largest then RoomDecides (grow h n fill) n a
    else grow h n fill a = .error .overflow a := by
  have hholds := ht.holds hh
  split
  · next hsize =>
    have hdecided := (grow_makes hholds hsize fill).decided ht
    rwa [length_grown] at hdecided
  · next hsize => exact grow_of_lt hholds (Nat.not_le.mp hsize) fill

end Decided

/-! ## No number reaches a limit -/

/-- **No count, length, place or handle saturates or wraps**, whatever the size that was asked for
and whatever a session did.

An object that was issued has an index below 2^30, its payload fits the 28 bits of its header, and
the header word is the sum of its parts: nothing was shifted out. An object is made, or copied to
another size, if there are enough words, so no size that these allow is refused. A size that 64 bits
do not hold together with a header or an end mark is not cut off either: it ends the run.

`length`, `freeMemory` and `findInString` tell the number itself. A list that a call made or
changed states as many items as a sequence would have after the same call. And what a call gives
can be held by a word, so that it is found again in a list that it is added to. -/
theorem numbers_stay_within_words {c : Context} {hs : List Handle} (hses : Session c hs) :
    (∀ o ∈ c.arena.issues, o.handle.index ≤ Ref.maxSmallInt ∧ o.payload ≤ maxPayloadWords ∧
      ∃ header, c.arena.header o.handle = .ok header ∧
        header.word.toNat = 16 * o.payload + o.cls.tag) ∧
    (∀ r : Request, r.cls.Storable →
      if r.Sized then Arena.RoomDecides r.make r.payload c.arena
      else r.make c.arena = .error .overflow c.arena) ∧
    (∀ h ∈ hs, ∀ n fill,
      if 1 + n ≤ Size.largest then Arena.RoomDecides (Arena.grow h n fill) n c.arena
      else Arena.grow h n fill c.arena = .error .overflow c.arena) ∧
    (∀ rest, (∀ r ∈ rest, r.Among hs) →
      (∀ h ∈ hs, TellsLength c h rest) ∧
      Primitive.Tells "freeMemory" rest c (c.arena.capacity - c.arena.used) ∧
      ∀ needle ∈ hs, ∀ haystack ∈ hs, c.arena.classOf needle = .ok .string →
        c.arena.classOf haystack = .ok .string →
        ∃ small large, c.arena.stringBytes needle = .ok small ∧
          c.arena.stringBytes haystack = .ok large ∧
          Primitive.Tells "findInString" (.obj needle :: .obj haystack :: rest) c
            (Search.find small large ((rest[0]?.bind Ref.int?).getD 1))) ∧
    ∀ name args, (∀ x ∈ args, x.Among hs) → ∀ r d, Primitive.invoke name args c = .ok r d →
      (∀ call, Primitive.listCallNamed? c.arena.view name args = some call →
        (call.verdict (c.arena.view.heap hs)).StatedIn (c.arena.view.heap hs) r d.arena) ∧
      r.Canonical ∧ Ref.ofWord r.toWord = r ∧
      ∀ list ∈ d.arena.issuedHandles, d.arena.classOf list = .ok .list →
        ∀ l e, Primitive.invoke "addLast" [r, .obj list] d = .ok l e →
          ∃ n : Nat, Primitive.Tells "length" [l] e n ∧
            Primitive.invoke "at" [.int n, l] e = .ok r e := by
  have hc := hses.closed
  refine ⟨fun o ho => hses.accounted.within ho, fun r hr => r.decided hc.tiled hr,
    fun h hh n fill => Arena.grow_decided hc.tiled hh n fill, fun rest hrest => ?_, ?_⟩
  · refine ⟨fun h hh => tells_length hc hh hrest, tells_freeMemory hc hrest, ?_⟩
    intro needle hn haystack hh hneedle hhaystack
    exact tells_findInString hc hn hh hneedle hhaystack hrest
  · intro name args hargs r d hrun
    obtain ⟨effect, s, hplan, hp⟩ := invoke_effect hc hargs hrun
    have hstates := (planNamed_states name _ _ args).of_run hplan
    have hcanonical : r.Canonical := by
      have heffect := planNamed_canonical hc.nameable hc.tiled.fitsHeaders hargs name
        c.arena.freeWords
      exact (heffect.of_run hplan).performed hc.tiled.size hp
    refine ⟨fun call hcall => ?_, hcanonical, Ref.ofWord_toWord hcanonical, ?_⟩
    · have hfollows := planNamed_follows hc.nameable hc.small hargs c.arena.freeWords hcall
      have hmatches := hfollows.of_run c.source
      rw [hplan] at hmatches
      exact hmatches.stated hc hstates hp
    · intro list hlist hcls l e hadd
      have hclosed := hc.performed ((planNamed_within hc hargs name).of_run hplan) hp
      have hrunc : (Command.invoke name args).run c = .ok (.given r) d := by rw [run_invoke, hrun]
      have hhandles := (Session.step (.invoke name args) hses hargs hrunc).handles_eq
      rw [← hhandles] at hlist
      exact keeps_in_list hclosed hlist hcls (among_noted hs r) hcanonical hadd

/-- A session that starts with a byte array. -/
theorem session_byteArray {words n : Nat} (hsize : 1 + Arena.wordsForBytes n ≤ Size.largest)
    (hfits : ((Arena.ofSize words).withAction .panic).Fits (Arena.wordsForBytes n)) :
    ∃ c, Session c [⟨0⟩] ∧ c.arena.classOf ⟨0⟩ = .ok .byteArray ∧
      c.arena.payloadWords ⟨0⟩ = .ok (Arena.wordsForBytes n) := by
  have hmakes := Arena.newByteArray_makes hsize ((Arena.ofSize words).withAction .panic)
  obtain ⟨b, hact, hmade⟩ := hmakes.of_fits (by rwa [List.length_replicate])
  have h0 := Session.start words .panic (Source.ofList [])
  have hrun : (Command.make (.byteArray n)).run
      ⟨(Arena.ofSize words).withAction .panic, Source.ofList []⟩ =
        .ok (.given (.obj ⟨0⟩)) ⟨b, Source.ofList []⟩ := by
    rw [run_of_onArena (Request.make (.byteArray n)) (fun h => .given (.obj h)) rfl]
    dsimp only [Request.make]
    rw [hact]
    rfl
  refine ⟨_, Session.step (.make (.byteArray n)) h0 trivial hrun, ?_, ?_⟩
  · exact (Arena.classOf_eq hmade.holds_new).trans (by rw [hmade.view_new]; rfl)
  · refine (Arena.payloadWords_eq hmade.holds_new).trans ?_
    rw [hmade.view_new, List.length_replicate]

/-- The largest arena has room for one byte array of 2^30 - 8 bytes. They are counted, although the
largest integer is only seven more. A string of as many bytes as 64 bits count would need one byte
more, and ends the run. -/
theorem length_of_largest_byteArray :
    ∃ c, Session c [⟨0⟩] ∧ Primitive.Tells "length" [.obj ⟨0⟩] c 1073741816 ∧
      Arena.allocString 18446744073709551615 c.arena = .error .overflow c.arena := by
  obtain ⟨c, hses, hcls, hwords⟩ :=
    @session_byteArray 268435456 1073741816 (by decide) ⟨by decide, by decide⟩
  obtain ⟨-, hmakes, -, hnumbers, -⟩ := numbers_stay_within_words hses
  obtain ⟨n, hn, htells⟩ := ((hnumbers [] among_nil).1 ⟨0⟩ List.mem_cons_self).2.2 hcls
  cases hwords.symm.trans hn
  have hover := hmakes (.blankString 18446744073709551615) Arena.storable_string
  rw [if_neg (by decide)] at hover
  exact ⟨c, hses, htells, hover⟩

end ObjectMemory
