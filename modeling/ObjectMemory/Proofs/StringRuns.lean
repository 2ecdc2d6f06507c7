import ObjectMemory.Proofs.Padding
import ObjectMemory.Proofs.Strings

/-!
# Strings that calls make

Four primitives make strings. Every such string is made of a row of bytes at once, so it is padded
whatever the row is. It stays so until the program itself writes into it, since no call stores
into a string, and an edit of another object does not reach it.

Nothing is asked of what else is stored. A program may put any word into any payload of its own,
so that lists hold handles of no object (`Usage`).
-/

namespace ObjectMemory

/-! ## Plans that make strings -/

/-- The content is a new string's, for some row of bytes. -/
def Content.IsPadded (c : Content) : Prop :=
  ∃ bytes, c = .ofText bytes

theorem makesPadded_text (text : List UInt8) :
    (Effect.make .fresh (.ofText text)).MakesStrings Content.IsPadded :=
  fun _ => ⟨text, rfl⟩

/-- **A plan makes a string from a row of bytes**, and in no other way. -/
theorem planNamed_makesPadded (name : String) (v : View) (free : Nat) (args : List Ref) :
    (Primitive.planNamed name v free args).Ensures (Effect.MakesStrings Content.IsPadded) := by
  refine Primitive.planNamed_ensures (fun p => ?_) name
  have hlist := makesStrings_list Content.IsPadded
  exact p.plan_ensures (fun _ => trivial) (fun _ _ _ => trivial) hlist makesPadded_text v free args

/-! ## Programs that use a context -/

/-- Operations of the arena and calls of primitives lead from an empty arena to the context `c`,
in which the objects `hs` were issued since the arena was last emptied. Of these, calls made
`mine`, and no edit has gone into them since. Operations and calls name issued objects only, but
whatever words the operations store is left open. -/
inductive Usage : (c : Context) → (hs mine : List Handle) → Prop
  | start (words : Nat) (action : ExhaustionAction) (source : Source) :
    Usage ⟨(Arena.ofSize words).withAction action, source⟩ [] []
  | make {c : Context} {b : Arena} {hs mine : List Handle} {h : Handle} (r : Request)
    (before : Usage c hs mine) (run : r.make c.arena = .ok h b) :
    Usage ⟨b, c.source⟩ (hs ++ [h]) mine
  | grow {c : Context} {b : Arena} {hs mine : List Handle} {g h : Handle} (payload : Nat)
    (fill : Ref) (before : Usage c hs mine) (issued : g ∈ hs)
    (run : Arena.grow g payload fill c.arena = .ok h b) : Usage ⟨b, c.source⟩ (hs ++ [h]) mine
  | edit {c : Context} {b : Arena} {hs mine : List Handle} {g : Handle} (e : Edit)
    (before : Usage c hs mine) (issued : g ∈ hs) (sources : ∀ x ∈ e.sources, x ∈ hs)
    (run : e.apply g c.arena = .ok () b) : Usage ⟨b, c.source⟩ hs (mine.filter (· ≠ g))
  | given {c d : Context} {hs mine : List Handle} {args : List Ref} {r : Ref} (name : String)
    (before : Usage c hs mine) (known : ∀ x ∈ args, x.Among hs)
    (run : Primitive.invoke name args c = .ok r d) :
    Usage d (hs ++ c.arena.madeUntil d.arena) (mine ++ c.arena.madeUntil d.arena)
  | refused {c d : Context} {hs mine : List Handle} {args : List Ref} {f : Failure}
    (name : String) (before : Usage c hs mine) (known : ∀ x ∈ args, x.Among hs)
    (run : Primitive.invoke name args c = .error (.failure f) d) : Usage d hs mine
  | reset {c : Context} {b : Arena} {hs mine : List Handle} (before : Usage c hs mine)
    (run : Arena.reset c.arena = .ok () b) : Usage ⟨b, c.source⟩ [] []

/-- The strings among some objects of a tiled arena are padded. -/
structure Arena.Keeping (a : Arena) (hs mine : List Handle) : Prop where
  tiled : a.Tiled hs
  issued : mine ⊆ hs
  strings : a.view.Strings Content.IsPadded mine

section Steps

variable {a b : Arena} {c d : Context} {hs mine : List Handle} {h : Handle}

theorem Arena.Keeping.gained (hk : a.Keeping hs mine) {cls : ObjClass} {n : Nat}
    (hg : a.Gained cls n b) : b.Keeping (hs ++ [⟨a.used⟩]) mine where
  tiled := hk.tiled.gained hg
  issued _ hh := List.mem_append_left _ (hk.issued hh)
  strings := hk.strings.gained hk.tiled hk.issued hg

/-- An edit leaves all strings but the object that it goes into. -/
theorem Arena.Keeping.wrote (hk : a.Keeping hs mine) (hh : h ∈ hs) (hw : a.WroteIn h b) :
    b.Keeping hs (mine.filter (· ≠ h)) := by
  have hsub : mine.filter (· ≠ h) ⊆ mine := List.filter_sublist.subset
  have hless : a.view.Strings Content.IsPadded (mine.filter (· ≠ h)) :=
    fun g hg => hk.strings g (hsub hg)
  refine ⟨hk.tiled.wrote hh hw, List.Subset.trans hsub hk.issued, ?_⟩
  refine hless.stored hk.tiled (List.Subset.trans hsub hk.issued) hh (fun hmem => ?_) hw
  have hne := (List.mem_filter.mp hmem).2
  simp at hne

/-- **A call leaves the strings, and a string that it makes is like them.** -/
theorem Arena.Keeping.given (hk : c.arena.Keeping hs mine) {name : String} {args : List Ref}
    (hargs : ∀ x ∈ args, x.Among hs) {r : Ref}
    (hrun : Primitive.invoke name args c = .ok r d) :
    d.arena.Keeping (hs ++ c.arena.madeUntil d.arena) (mine ++ c.arena.madeUntil d.arena) := by
  have htargets := planNamed_targets name c.arena.view c.arena.freeWords args
  have hpadded := planNamed_makesPadded name c.arena.view c.arena.freeWords args
  obtain ⟨e, s, ⟨he, hmakes⟩, hp⟩ :=
    (invoke_endsIn hk.tiled hargs name (htargets.and hpadded)
      fun text => ⟨trivial, makesPadded_text text⟩).effect hrun
  have htarget := target_among hargs name
  refine ⟨(hp.confined hk.tiled htarget he).2, fun h hh => ?_, ?_⟩
  · rcases List.mem_append.mp hh with hh | hh
    · exact List.mem_append_left _ (hk.issued hh)
    · exact List.mem_append_right _ hh
  · exact hk.strings.performed hk.tiled hk.issued htarget he hmakes hp

/-- **Every program keeps the strings that calls made.** -/
theorem Usage.keeping (hu : Usage c hs mine) : c.arena.Keeping hs mine := by
  induction hu with
  | start words action source =>
    exact ⟨Arena.tiled_ofSize words action, List.Subset.refl _, fun h hh => nomatch hh⟩
  | make r before run ih =>
    obtain ⟨rfl, hg⟩ := r.gained run
    exact ih.gained hg
  | grow payload fill before issued run ih =>
    obtain ⟨rfl, hg⟩ := Arena.grow_gained (ih.tiled.holds issued) run
    exact ih.gained hg
  | edit e before issued sources run ih =>
    have hsources : ∀ g ∈ e.sources, _ := fun g hg => ih.tiled.holds (sources g hg)
    exact ih.wrote issued (e.wrote (ih.tiled.holds issued) hsources (Or.inl ⟨(), run⟩))
  | given name before known run ih => exact ih.given known run
  | @refused c d hs mine args f name before known run ih =>
    have hplan := planNamed_makesPadded name c.arena.view c.arena.freeWords args
    have hsame : d = c :=
      (invoke_endsIn ih.tiled known name hplan makesPadded_text).unchanged run
    subst hsame
    exact ih
  | reset before run ih =>
    cases run
    exact ⟨⟨rfl, Or.inl rfl, ih.tiled.size⟩, List.Subset.refl _, fun h hh => nomatch hh⟩

theorem Usage.padded (hu : Usage c hs mine) (hh : h ∈ mine)
    (hcls : c.arena.classOf h = .ok .string) : ∃ bytes, c.arena.Padded h bytes := by
  have hk := hu.keeping
  have hholds := hk.tiled.holds (hk.issued hh)
  obtain ⟨bytes, hview⟩ := hk.strings h hh ((Arena.classOf_eq_ok_iff hholds).mp hcls)
  exact ⟨_, Arena.padded_of_view hholds hview⟩

end Steps

/-- **Strings give back what was put into them**, and the length that the last word shows is the
right one. A new string holds the bytes before the first zero one and is padded, in any arena with
room for it, and a text without a zero character is read back from its bytes.

A string that was made blank is the same once all of its bytes were written and none is zero,
whatever the order and the size of the chunks, and also if chunks overlap. So is every string that
a call made, in every run of any operations and calls, until an edit goes into it. -/
theorem strings_read_back_padded :
    (∀ (a : Arena) (bytes : List UInt8), a.Fits ((bytes.takeWhile (· ≠ 0)).length / 4 + 1) →
      ∃ b, Arena.newString bytes a = .ok ⟨a.used⟩ b ∧
        b.Padded ⟨a.used⟩ (bytes.takeWhile (· ≠ 0))) ∧
    (∀ (a : Arena) (text : String), '\x00' ∉ text.toList →
      a.Fits ((Utf8.encode text).length / 4 + 1) →
        ∃ b, Arena.newString (Utf8.encode text) a = .ok ⟨a.used⟩ b ∧
          b.stringText ⟨a.used⟩ = .ok text) ∧
    (∀ (a : Arena) (n : Nat) (chunks : List Chunk), (∀ w ∈ chunks, w.Within n) →
      0 ∉ Chunk.written n chunks → a.Fits (n / 4 + 1) →
        ∃ b, Arena.newWritten n chunks a = .ok ⟨a.used⟩ b ∧
          b.Padded ⟨a.used⟩ (Chunk.written n chunks)) ∧
    ∀ c hs mine, Usage c hs mine → ∀ h ∈ mine, c.arena.classOf h = .ok .string →
      ∃ bytes, c.arena.Padded h bytes := by
  refine ⟨fun a bytes hfits => ?_, fun a text hclean hfits => ?_, ?_, ?_⟩
  · exact Arena.newString_padded bytes hfits
  · exact Arena.newString_text hclean hfits
  · intro a n chunks hin hclean hfits
    exact Arena.newWritten_padded hin hclean hfits
  · intro c hs mine hu h hh hcls
    exact hu.padded hh hcls

/-- A string that is cut at a zero byte, one that is written from its end on, and one that a call
made from a string in which a word had been replaced. -/
theorem string_written_from_end :
    ∃ b d c, Arena.newString [97, 98, 0, 99] (Arena.ofSize 64) = .ok ⟨0⟩ b ∧
      b.Padded ⟨0⟩ [97, 98] ∧
      Arena.newWritten 4 [⟨2, [99, 100]⟩, ⟨0, [97, 98]⟩] (Arena.ofSize 64) = .ok ⟨0⟩ d ∧
      d.Padded ⟨0⟩ [97, 98, 99, 100] ∧
      Usage c [⟨0⟩, ⟨2⟩] [⟨2⟩] ∧ c.arena.Padded ⟨2⟩ (98 :: Utf8.encode "true") := by
  obtain ⟨hnew, _, hwritten, hcalls⟩ := strings_read_back_padded
  obtain ⟨b, hb, hpb⟩ := hnew (Arena.ofSize 64) [97, 98, 0, 99] (by decide)
  have hin : ∀ w ∈ [(⟨2, [99, 100]⟩ : Chunk), ⟨0, [97, 98]⟩], w.Within 4 := by
    simp [Chunk.Within]
  have hall : ∀ i < 4, ∃ w ∈ [(⟨2, [99, 100]⟩ : Chunk), ⟨0, [97, 98]⟩], w.Covers i := by
    intro i hi
    by_cases hlast : 2 ≤ i
    · exact ⟨_, List.mem_cons_self, hlast, hi⟩
    · exact ⟨_, List.mem_cons_of_mem _ List.mem_cons_self, Nat.zero_le i, Nat.not_le.mp hlast⟩
  have hclean := Chunk.not_mem_written hin (by decide) hall
  obtain ⟨d, hd, hpd⟩ := hwritten (Arena.ofSize 64) 4 _ hin hclean (by decide)
  have h0 := Usage.start 64 .panic (Source.ofList [])
  have h1 := Usage.make (.string [97]) h0 rfl
  have h2 := Usage.edit (.word 0 98) h1 List.mem_cons_self (fun x hx => nomatch hx) rfl
  have h3 := Usage.given "join" h2
    (among_pair (among_obj.mpr List.mem_cons_self) (among_of_obj? (r := .true) rfl _)) rfl
  obtain ⟨bytes, hbytes⟩ := hcalls _ _ _ h3 ⟨2⟩ (by decide) rfl
  have heq : 98 :: Utf8.encode "true" = bytes := Except.ok.inj hbytes.reads
  rw [← heq] at hbytes
  exact ⟨b, d, _, hb, hpb, hd, hpd, h3, hbytes⟩

end ObjectMemory
