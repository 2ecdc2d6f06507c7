import ObjectMemory.Proofs.Refusal

/-!
# Footprints

All objects lie in one row of words, so a store through a wrong index would go unnoticed until
somebody else's object is read. This module says which words a call may touch at all.

Only four primitives store into an object that is there, and each of them into one that an
argument names, its target (`Primitive.target?`). A target is never a string. All other calls
give what they found or make an object beyond all others. `Arena.Confined` says so of the words
before and after a call, and `calls_touch_only_their_target` says that every call that succeeds
is confined, and that no run of calls changes a string.
-/

namespace ObjectMemory

/-! ## Targets -/

/-- The object that a primitive may store into: the container that it adds an item to, deletes
from, or replaces items of. -/
def Primitive.target? (p : Primitive) (args : List Ref) : Option Handle :=
  match p with
  | .addLast | .delete | .putItem => args[1]?.bind Ref.obj?
  | .fill => args[0]?.bind Ref.obj?
  | _ => none

/-- The object that a call by name may store into. -/
def Primitive.targetNamed? (name : String) (args : List Ref) : Option Handle :=
  (ofName? name).bind fun p => p.target? args

/-- The effect rewrites no other object than the target, and that one only if it is no string. -/
def Effect.Targets (v : View) (target : Option Handle) : Effect → Prop
  | .rewrite h _ _ => target = some h ∧ (v h).cls ≠ .string
  | _ => True

namespace Plan

variable {v : View} {h : Handle}

theorem targets_rewrite {container : Ref} (hobj : container = .obj h) (hcls : (v h).cls ≠ .string)
    (words : List Word) (r : Ref) :
    (Effect.rewrite h words r).Targets v container.obj? := by
  subst hobj
  exact ⟨rfl, hcls⟩

theorem not_string_of_list (hcls : (v h).cls = .list) : (v h).cls ≠ .string :=
  fun hstring => nomatch hcls.symm.trans hstring

/-- An append stores into the list, or into no object that there was. -/
theorem addLast_targets (list item : Ref) :
    (addLast v list item).Ensures (Effect.Targets v list.obj?) := by
  refine Ensures.need fun h hlist => ?_
  obtain ⟨hobj, hcls⟩ := View.named?_eq_some.mp hlist
  dsimp only
  split
  · trivial
  · exact targets_rewrite hobj (not_string_of_list hcls) _ _

theorem delete_targets (list selector : Ref) :
    (delete v list selector).Ensures (Effect.Targets v list.obj?) :=
  delete_ensures (fun _ words hobj hcls => targets_rewrite hobj (not_string_of_list hcls) words _)
    trivial selector

theorem putItem_targets (container selector value : Ref) :
    (putItem v container selector value).Ensures (Effect.Targets v container.obj?) :=
  putItem_ensures (fun _ words hobj hcls => targets_rewrite hobj hcls words _) selector value

theorem fill_targets (container value : Ref) :
    (fill v container value).Ensures (Effect.Targets v container.obj?) :=
  fill_ensures (fun _ words hobj hcls => targets_rewrite hobj hcls words _) value

end Plan

/-- An argument that was not passed is no object. -/
theorem getD_obj? (args : List Ref) (i : Nat) :
    (args.getD i .nil).obj? = args[i]?.bind Ref.obj? := by
  rw [List.getD_eq_getElem?_getD]
  cases args[i]? <;> rfl

/-- **A plan rewrites the target of its primitive and nothing else.** -/
theorem plan_targets (p : Primitive) (v : View) (free : Nat) (args : List Ref) :
    (p.plan v free args).Ensures (Effect.Targets v (p.target? args)) := by
  unfold Primitive.plan
  split
  · trivial
  · cases p with
    | makeList => trivial
    | newList => trivial
    | freeMemory => trivial
    | addLast =>
      have hlist := Plan.addLast_targets (v := v) (args.getD 1 .nil) (args.getD 0 .nil)
      rwa [getD_obj?] at hlist
    | delete =>
      have hlist := Plan.delete_targets (v := v) (args.getD 1 .nil) (args.getD 0 .nil)
      rwa [getD_obj?] at hlist
    | putItem =>
      have hcontainer := Plan.putItem_targets (v := v) (args.getD 1 .nil) (args.getD 0 .nil)
        (args.getD 2 .nil)
      rwa [getD_obj?] at hcontainer
    | fill =>
      have hcontainer := Plan.fill_targets (v := v) (args.getD 0 .nil) (args.getD 1 .nil)
      rwa [getD_obj?] at hcontainer
    | join => exact Plan.join_ensures (fun _ => trivial) (fun _ => trivial) args
    | copyFromTo => exact Plan.copyFromTo_ensures (fun _ => trivial) (fun _ => trivial) _ _ _
    | getItem => exact Plan.getItem_ensures (fun _ => trivial) (fun _ => trivial) _ _
    | length => exact Plan.length_ensures (fun _ => trivial) _
    | findInString => exact Plan.findInString_ensures (fun _ => trivial) _ _ _
    | joinStrings => exact Plan.joinStrings_ensures (fun _ => trivial) _ _

theorem planNamed_targets (name : String) (v : View) (free : Nat) (args : List Ref) :
    (Primitive.planNamed name v free args).Ensures
      (Effect.Targets v (Primitive.targetNamed? name args)) := by
  unfold Primitive.planNamed Primitive.targetNamed?
  cases Primitive.ofName? name with
  | none => trivial
  | some p => exact plan_targets p v free args

/-! ## Confined calls -/

/-- The words that differ between two arenas, before and after a call on the objects `hs`. -/
structure Arena.Confined (a : Arena) (hs : List Handle) (target : Option Handle) (b : Arena) :
    Prop where
  /-- A word that was used and changed lies in the payload of the target. No object was made
  then, and none moved to a larger place. -/
  below : ∀ j < a.used, b.store.get j ≠ a.store.get j →
    b.used = a.used ∧ b.counters = a.counters ∧
      ∃ h, target = some h ∧ h.index < j ∧ j < a.store.after h.index
  headers : ∀ h ∈ hs, b.header h = a.header h
  /-- No word of a string changed. -/
  strings : ∀ h ∈ hs, a.classOf h = .ok .string → a.Keeps h b
  above : ∀ j, b.used ≤ j → b.store.get j = a.store.get j

/-- The object that was made between two arenas, if one was. -/
def Arena.madeUntil (a b : Arena) : List Handle :=
  if b.used = a.used then [] else [⟨a.used⟩]

section Frames

variable {a b : Arena} {h : Handle} {hs : List Handle} {target : Option Handle}

theorem Arena.Made.madeUntil {o : Origin} {content : Content} (hm : a.Made o content b) :
    a.madeUntil b = [⟨a.used⟩] := by
  have hused := hm.used
  rw [Arena.madeUntil, if_neg (by omega)]

theorem Arena.confined_refl (a : Arena) (hs : List Handle) (target : Option Handle) :
    a.Confined hs target a :=
  ⟨fun _ _ hne => absurd rfl hne, fun _ _ => rfl, fun _ _ _ _ _ _ => rfl, fun _ _ => rfl⟩

/-- Writing into an object that is no string changes no string, and no other object. -/
theorem Arena.WroteIn.confined (ht : a.Tiled hs) (hh : h ∈ hs) (hw : a.WroteIn h b)
    (hcls : a.classOf h ≠ .ok .string) : a.Confined hs (some h) b where
  below j _ hne := by
    have hin : h.index < j ∧ j < a.store.after h.index :=
      Decidable.byContradiction fun hout => hne (hw.get j hout)
    exact ⟨hw.used, hw.counters, h, rfl, hin⟩
  headers g hg := by
    rw [header_of_holds (ht.holds hg), header_of_holds ((ht.wrote hh hw).holds hg),
      ht.wrote_header hh hg hw]
  strings g hg hstring := by
    have hne : g ≠ h := by
      rintro rfl
      exact hcls hstring
    exact hw.keeps_apart (ht.tiles.apart hg hh hne)
  above j hj := by
    have hafter := (ht.holds hh).after_le
    have hused := hw.used
    exact hw.get j (by omega)

/-- A new object changes no word below the boundary. -/
theorem Arena.Gained.confined {c : ObjClass} {n : Nat} (ht : a.Tiled hs) (hg : a.Gained c n b)
    (target : Option Handle) : a.Confined hs target b where
  below j hj hne := absurd (hg.get j (by omega)) hne
  headers h hh := by
    have hold := ht.holds hh
    rw [header_of_holds hold, header_of_holds (hg.holds hold), (hg.keeps hold).header]
  strings h hh _ := hg.keeps (ht.holds hh)
  above j hj := by
    have hused := hg.used
    exact hg.get j (by omega)

/-- **An effect that rewrites only its target is confined**, and leaves the objects that were
there and the one it made. -/
theorem Effect.Performed.confined {e : Effect} {s : Source} {r : Ref} {d : Context}
    (ht : a.Tiled hs) (htarget : ∀ h ∈ target, h ∈ hs) (he : e.Targets a.view target)
    (hp : e.Performed a s (.ok r d)) :
    a.Confined hs target d.arena ∧ d.arena.Tiled (hs ++ a.madeUntil d.arena) := by
  cases e with
  | give x =>
    cases hp
    refine ⟨a.confined_refl hs target, ?_⟩
    rw [Arena.madeUntil, if_pos rfl, List.append_nil]
    exact ht
  | rewrite h words x =>
    obtain ⟨rfl, hcls⟩ := he
    have hh := htarget h rfl
    obtain ⟨b, heq, hst⟩ := hp
    cases heq
    refine ⟨hst.toWroteIn.confined ht hh ?_, ?_⟩
    · rw [Arena.classOf_eq (ht.holds hh)]
      exact fun heq => hcls (Except.ok.inj heq)
    · rw [Arena.madeUntil, if_pos hst.used, List.append_nil]
      exact ht.wrote hh hst.toWroteIn
  | make o content =>
    obtain ⟨_, b, rfl, hmade⟩ := hp.made
    refine ⟨hmade.toGained.confined ht target, ?_⟩
    rw [hmade.madeUntil]
    exact ht.gained hmade.toGained

end Frames

/-- A target is one of the arguments. -/
theorem target_among {hs : List Handle} {args : List Ref} (hargs : ∀ r ∈ args, r.Among hs)
    (name : String) : ∀ h ∈ Primitive.targetNamed? name args, h ∈ hs := by
  have hget (i : Nat) (h : Handle) (hi : args[i]?.bind Ref.obj? = some h) : h ∈ hs := by
    obtain ⟨r, hr, hobj⟩ := Option.bind_eq_some_iff.mp hi
    exact hargs r (List.mem_of_getElem? hr) h (Ref.obj?_eq_some.mp hobj)
  intro h hh
  obtain ⟨p, _, hp⟩ := Option.bind_eq_some_iff.mp hh
  cases p with
  | addLast => exact hget 1 h hp
  | delete => exact hget 1 h hp
  | putItem => exact hget 1 h hp
  | fill => exact hget 0 h hp
  | _ => cases hp

/-- **A call that succeeds is confined.** -/
theorem invoke_confined {c d : Context} {hs : List Handle} (ht : c.arena.Tiled hs)
    (name : String) {args : List Ref} (hargs : ∀ r ∈ args, r.Among hs) {r : Ref}
    (hrun : Primitive.invoke name args c = .ok r d) :
    c.arena.Confined hs (Primitive.targetNamed? name args) d.arena ∧
      d.arena.Tiled (hs ++ c.arena.madeUntil d.arena) := by
  have hplan := planNamed_targets name c.arena.view c.arena.freeWords args
  obtain ⟨e, s, he, hp⟩ := (invoke_endsIn ht hargs name hplan fun _ => trivial).effect hrun
  exact hp.confined ht (target_among hargs name) he

/-! ## Runs of calls -/

/-- Calls of primitives lead from the context `c`, in which the objects `hs` were issued, to the
context `d`, in which the objects `gs` were. A call may name any object that was issued before it.
Calls that are refused count as well. -/
inductive Calls (c : Context) (hs : List Handle) : (d : Context) → (gs : List Handle) → Prop
  | start : Calls c hs c hs
  | given {d e : Context} {gs : List Handle} {args : List Ref} {r : Ref} (name : String)
    (before : Calls c hs d gs) (known : ∀ x ∈ args, x.Among gs)
    (run : Primitive.invoke name args d = .ok r e) :
    Calls c hs e (gs ++ d.arena.madeUntil e.arena)
  | refused {d e : Context} {gs : List Handle} {args : List Ref} {f : Failure} (name : String)
    (before : Calls c hs d gs) (known : ∀ x ∈ args, x.Among gs)
    (run : Primitive.invoke name args d = .error (.failure f) e) : Calls c hs e gs

section Runs

variable {c d : Context} {hs gs : List Handle}

theorem Arena.Keeps.classOf {a b : Arena} {h : Handle} (hk : a.Keeps h b) (ha : a.Holds h)
    (hb : b.Holds h) : b.classOf h = a.classOf h := by
  rw [classOf_of_holds ha, classOf_of_holds hb, hk.header]

/-- What two runs keep is kept by one after the other. -/
theorem Arena.Keeps.trans {a b d : Arena} {h : Handle} (hab : a.Keeps h b) (hbd : b.Keeps h d) :
    a.Keeps h d := by
  intro j hlo hhi
  rw [hbd j hlo (by rw [hab.after]; exact hhi), hab j hlo hhi]

/-- **Every run of calls keeps the strings that were there.** The objects tile the used words all
the time, so none of the strings comes to lie in another object. -/
theorem Calls.keeps (ht : c.arena.Tiled hs) (hr : Calls c hs d gs) :
    d.arena.Tiled gs ∧ hs ⊆ gs ∧
      ∀ h ∈ hs, c.arena.classOf h = .ok .string → c.arena.Keeps h d.arena := by
  induction hr with
  | start => exact ⟨ht, fun _ hh => hh, fun _ _ _ _ _ _ => rfl⟩
  | @given d e gs args r name before known run ih =>
    obtain ⟨htiled, hsub, hkeeps⟩ := ih
    obtain ⟨hconfined, hafter⟩ := invoke_confined htiled name known run
    refine ⟨hafter, fun h hh => List.mem_append_left _ (hsub hh), fun h hh hstring => ?_⟩
    have hk := hkeeps h hh hstring
    refine hk.trans (hconfined.strings h (hsub hh) ?_)
    rw [hk.classOf (ht.holds hh) (htiled.holds (hsub hh))]
    exact hstring
  | @refused d e gs args f name before known run ih =>
    obtain ⟨htiled, hsub, hkeeps⟩ := ih
    have hplan := planNamed_targets name d.arena.view d.arena.freeWords args
    have hsame : e = d := (invoke_endsIn htiled known name hplan fun _ => trivial).unchanged run
    subst hsame
    exact ⟨htiled, hsub, hkeeps⟩

end Runs

/-- **Calls touch only their target.** Let the used words be tiled by the objects `hs`, as any run
leaves them (`Reached.accounted`, `Course.closed`), whatever these hold.

A call of any name with any row of arguments that names no other objects changes, if it succeeds,
no used word outside the payload of its target. So it changes none if its primitive stores into
nothing (`Primitive.targetNamed?`), and none if it made an object, as when an item is added to a
full list. It changes no header, no word of a string, and no word beyond the used ones.

Whatever calls follow one another, refused ones among them, the words of the strings that were
there stay, and so do their bytes. -/
theorem calls_touch_only_their_target {c : Context} {hs : List Handle} (ht : c.arena.Tiled hs) :
    (∀ name args r d, (∀ x ∈ args, x.Among hs) → Primitive.invoke name args c = .ok r d →
      c.arena.Confined hs (Primitive.targetNamed? name args) d.arena) ∧
    ∀ d gs, Calls c hs d gs → ∀ h ∈ hs, c.arena.classOf h = .ok .string →
      c.arena.Keeps h d.arena ∧ d.arena.stringBytes h = c.arena.stringBytes h := by
  constructor
  · intro name args r d hargs hrun
    exact (invoke_confined ht name hargs hrun).1
  · intro d gs hcalls h hh hstring
    obtain ⟨htiled, hsub, hkeeps⟩ := hcalls.keeps ht
    have hk := hkeeps h hh hstring
    have hc := ht.holds hh
    have hd := htiled.holds (hsub hh)
    refine ⟨hk, ?_⟩
    rw [Arena.stringBytes_eq hc, Arena.stringBytes_eq hd, hk.view_eq hc hd]

/-- A list lies before a string. An item is added to it, then two more. The third one finds no
slot. -/
theorem string_behind_growing_list :
    ∃ c d, Session c [⟨0⟩, ⟨4⟩] ∧
      Primitive.invoke "addLast" [.int 5, .obj ⟨0⟩] c = .ok (.obj ⟨0⟩) d ∧
      c.arena.Confined [⟨0⟩, ⟨4⟩] (some ⟨0⟩) d.arena ∧
      ∃ e, Calls c [⟨0⟩, ⟨4⟩] e [⟨0⟩, ⟨4⟩, ⟨6⟩] ∧
        e.arena.stringBytes ⟨4⟩ = c.arena.stringBytes ⟨4⟩ := by
  have h0 := Session.start 64 .panic (Source.ofList [])
  have h1 := Session.step (.invoke "newList" []) h0 (fun r hr => nomatch hr) rfl
  have h2 := Session.step (.make (.string (Utf8.encode "ab"))) h1 trivial rfl
  have ht := h2.closed.tiled
  have hargs : ∀ x ∈ [Ref.int 5, .obj ⟨0⟩], x.Among [⟨0⟩, ⟨4⟩] :=
    among_pair (among_of_obj? rfl _) (among_obj.mpr (by decide))
  have hstart {c : Context} {hs : List Handle} (_ : Session c hs) : Calls c hs c hs := .start
  have c1 := Calls.given "addLast" (hstart h2) hargs rfl
  have c2 := Calls.given "addLast" c1 hargs rfl
  have c3 := Calls.given "addLast" c2 hargs rfl
  refine ⟨_, _, h2, rfl, ?_, _, c3, ?_⟩
  · exact (calls_touch_only_their_target ht).1 "addLast" _ _ _ hargs rfl
  · exact ((calls_touch_only_their_target ht).2 _ _ c3 ⟨4⟩ (by decide) rfl).2

end ObjectMemory
