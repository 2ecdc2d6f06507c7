import ObjectMemory.Proofs.Footprint

/-!
# Issues in the journal

The journal records every object that is made and every time that the arena is emptied. So the
objects that were issued since then can be read off it without a look at the words
(`Arena.issues`).

In a session they are the objects that the used words consist of (`Course.accounted`). No list
holds a handle of anything else, neither in a slot that no item has reached yet nor when it was
left behind for a larger copy, and no primitive gives another one:
`stored_references_stay_issued`.
-/

namespace ObjectMemory

/-! ## Reading the journal -/

/-- The objects that are issued after an event, where `log` were before it. -/
def Event.replay (log : List Issue) : Event → List Issue
  | .allocated start cls payload => log ++ [⟨⟨start⟩, cls, payload⟩]
  | .reset _ => []
  | _ => log

namespace Arena

/-- The objects that were issued since the arena was last emptied, as the journal has them. -/
def issues (a : Arena) : List Issue :=
  a.journal.toList.foldl Event.replay []

/-- The handles that were issued since the arena was last emptied. -/
def issuedHandles (a : Arena) : List Handle :=
  a.issues.map Issue.handle

variable {a b : Arena} {h : Handle} {hs : List Handle} {c : Content} {o : Origin}

theorem issues_ofSize (words : Nat) (action : ExhaustionAction) :
    ((ofSize words).withAction action).issues = [] := by
  unfold issues ofSize withAction
  dsimp only
  split <;> rfl

/-- What is recorded about the origin of an object issues nothing. -/
theorem foldl_replay_recorded (log : List Issue) (v : View) (start words : Nat) :
    (o.recorded v start words).foldl Event.replay log = log := by
  cases o <;> rfl

/-- **An object that is made is the next one in the journal.** -/
theorem Made.issues (hm : a.Made o c b) :
    b.issues = a.issues ++ [⟨⟨a.used⟩, c.cls, c.words.length⟩] := by
  unfold Arena.issues
  rw [hm.journal]
  simp only [Array.toList_append, Array.toList_push, List.foldl_append, List.foldl_cons,
    List.foldl_nil, foldl_replay_recorded]
  rfl

/-- A store issues nothing. -/
theorem WroteIn.issues (hw : a.WroteIn h b) : b.issues = a.issues := by
  unfold Arena.issues
  rw [hw.journal]

theorem issues_of_reset (hrun : reset a = .ok () b) : b.issues = [] := by
  cases hrun
  show (a.journal.push (.reset a.used)).toList.foldl Event.replay [] = []
  rw [Array.toList_push, List.foldl_append]
  rfl

end Arena

/-! ## The journal accounts for all objects -/

section Accounts

variable {a b : Arena} {h : Handle} {hs : List Handle} {o : Origin} {content : Content}

theorem Accounted.made (hacc : Accounted a a.issues) (hm : a.Made o content b) :
    Accounted b b.issues := by
  rw [hm.issues]
  exact hacc.gained hm.toGained (faithful_of_gained hm.toGained) rfl

theorem Accounted.stored (hacc : Accounted a a.issues) (hh : h ∈ a.issuedHandles)
    (hw : a.WroteIn h b) : Accounted b b.issues := by
  obtain ⟨p, hp, rfl⟩ := List.mem_map.mp hh
  rw [hw.issues]
  exact hacc.wrote hp hw

/-- **An effect leaves an account**, to which it may have added an object at the end. -/
theorem Accounted.performed (hacc : Accounted a a.issues) {target : Option Handle}
    (htarget : ∀ h ∈ target, h ∈ a.issuedHandles) {e : Effect} (he : e.Targets a.view target)
    {s : Source} {r : Ref} {d : Context} (hp : e.Performed a s (.ok r d)) :
    Accounted d.arena d.arena.issues ∧ a.issues <+: d.arena.issues := by
  cases e with
  | give x =>
    cases hp
    exact ⟨hacc, List.prefix_rfl⟩
  | rewrite h words x =>
    obtain ⟨b, heq, hst⟩ := hp
    cases heq
    have hsame : b.issues = a.issues := hst.toWroteIn.issues
    exact ⟨hacc.stored (htarget h he.1) hst.toWroteIn, hsame ▸ List.prefix_rfl⟩
  | make o content =>
    obtain ⟨_, b, rfl, hmade⟩ := hp.made
    refine ⟨hacc.made hmade, ?_⟩
    rw [hmade.issues]
    exact List.prefix_append _ _

end Accounts

section Sessions

variable {c d : Context} {hs : List Handle}

theorem Accounted.invoke (hacc : Accounted c.arena c.arena.issues) {name : String}
    {args : List Ref} (hargs : ∀ r ∈ args, r.Among c.arena.issuedHandles) {r : Ref}
    (hrun : Primitive.invoke name args c = .ok r d) :
    Accounted d.arena d.arena.issues ∧ c.arena.issues <+: d.arena.issues := by
  have hplan := planNamed_targets name c.arena.view c.arena.freeWords args
  obtain ⟨e, s, he, hp⟩ := (invoke_endsIn hacc.tiled hargs name hplan fun _ => trivial).effect hrun
  exact hacc.performed (target_among hargs name) he hp

/-- **The journal of a session accounts for all objects.** -/
theorem Course.accounted {σ : Type} {rules : Rules σ} {notes : σ}
    (hrun : Course rules c hs notes) : Accounted c.arena c.arena.issues := by
  refine hrun.keeps (P := fun c _ _ => Accounted c.arena c.arena.issues) ?_ ?_
  · intro words action source
    dsimp only
    rw [Arena.issues_ofSize]
    exact ⟨Arena.tiled_ofSize words action, fun o ho => nomatch ho⟩
  · intro c d hs _ answer cmd hc ih _ honest run
    -- the handles that the program has are those in the journal
    obtain rfl : hs = c.arena.issuedHandles := hc.tiled.unique ih.tiled
    cases cmd with
    | make r => exact ih.made (run_make_ok run).2
    | grow h payload fill =>
      obtain ⟨g, hact, _⟩ := run_ok_of_onArena (k := fun h => .given (.obj h)) rfl run
      exact ih.made (Arena.grow_made (ih.tiled.holds honest.1) hact).2
    | edit h e =>
      obtain ⟨hh, hon⟩ := honest
      have hst := (run_edit_ok (ih.tiled.holds hh) hon.sources run).2
      exact ih.stored hh hst.toWroteIn
    | ask q =>
      obtain ⟨rfl, _⟩ := run_ask_ok run
      exact ih
    | invoke name args =>
      rw [run_invoke] at run
      split at run
      · next hrun =>
        cases run
        exact (ih.invoke honest hrun).1
      · next hrun =>
        cases run
        have hplan := planNamed_targets name c.arena.view c.arena.freeWords args
        have hsame := (invoke_endsIn ih.tiled honest name hplan fun _ => trivial).unchanged hrun
        rw [hsame]
        exact ih
      · cases run
    | reset =>
      obtain ⟨_, hact, _⟩ := run_ok_of_onArena (k := fun _ => .done) rfl run
      rw [Arena.issues_of_reset hact]
      cases run
      exact ⟨⟨rfl, Or.inl rfl, ih.tiled.size⟩, fun o ho => nomatch ho⟩

/-- A program has exactly the handles that the journal has. -/
theorem Session.handles_eq (hses : Session c hs) : hs = c.arena.issuedHandles :=
  hses.closed.tiled.unique hses.accounted.tiled

end Sessions

/-! ## References in lists -/

/-- A slot of a list reads as an immediate or as a handle of the program. -/
theorem Arena.Closed.slot {a : Arena} {hs : List Handle} (hc : a.Closed hs) {h : Handle}
    (hh : h ∈ hs) (hcls : a.classOf h = .ok .list) :
    ∃ capacity, ListObject.capacity a h = .ok capacity ∧
      ∀ i, 1 ≤ i → i ≤ capacity → ∃ r, a.field h i = .ok r ∧ r.Among hs := by
  have hholds := hc.tiled.holds hh
  have hsound := hc.sound h hh ((Arena.classOf_eq_ok_iff hholds).mp hcls)
  refine ⟨_, ListObject.capacity_eq hholds, fun i h1 hi => ?_⟩
  refine ⟨_, Arena.field_eq hholds ?_, among_field hsound i⟩
  unfold Content.capacity at hi
  omega

/-- **Stored references stay closed.** After any session, the walk by headers visits exactly the
objects that the journal has as issued since the arena was last emptied, and these are the ones
that the program was given. Every slot of every list among them, also one beyond the list's items
and also in a list that grew out of its place, reads as an immediate or as the handle of one of
them. A call that names no other handles gives no other ones, but for the object that it makes
itself, which comes last in the journal. -/
theorem stored_references_stay_issued {c : Context} {hs : List Handle} (hses : Session c hs) :
    c.arena.walk = (c.arena.issuedHandles, c.arena.used) ∧ hs = c.arena.issuedHandles ∧
    (∀ h ∈ c.arena.issuedHandles, c.arena.classOf h = .ok .list →
      ∃ capacity, ListObject.capacity c.arena h = .ok capacity ∧
        ∀ i, 1 ≤ i → i ≤ capacity →
          ∃ r, c.arena.field h i = .ok r ∧ r.Among c.arena.issuedHandles) ∧
    ∀ name args, (∀ r ∈ args, r.Among c.arena.issuedHandles) →
      ∀ r d, Primitive.invoke name args c = .ok r d →
        r.Among d.arena.issuedHandles ∧ c.arena.issues <+: d.arena.issues := by
  have hacc := hses.accounted
  have hhandles := hses.handles_eq
  have hc := hses.closed
  refine ⟨hacc.tiled.walk_eq, hhandles, fun h hh hcls => ?_, fun name args hargs r d hrun => ?_⟩
  · rw [← hhandles] at hh ⊢
    exact hc.slot hh hcls
  · obtain ⟨hafter, hprefix⟩ := hacc.invoke hargs hrun
    refine ⟨?_, hprefix⟩
    -- the call is a step of a session, which ends with the handles of its journal
    rw [← hhandles] at hargs
    have hrunc : (Command.invoke name args).run c = .ok (.given r) d := by rw [run_invoke, hrun]
    have hstep := (Session.step (.invoke name args) hses hargs hrunc).handles_eq
    intro g hg
    subst hg
    rw [← hstep]
    exact mem_noted hs g

/-- A list takes up a string three times and grows at the third. The list that was left behind
still holds the string, and so does its copy. -/
theorem string_in_list_left_behind :
    ∃ c, Session c [⟨0⟩, ⟨4⟩, ⟨6⟩] ∧
      c.arena.field ⟨0⟩ 2 = .ok (.obj ⟨4⟩) ∧ c.arena.field ⟨6⟩ 3 = .ok (.obj ⟨4⟩) ∧
      (∃ d, Primitive.invoke "at" [.int 3, .obj ⟨6⟩] c = .ok (.obj ⟨4⟩) d ∧
        (Ref.obj ⟨4⟩).Among d.arena.issuedHandles) ∧
      ∀ h ∈ c.arena.issuedHandles, c.arena.classOf h = .ok .list →
        ∃ capacity, ListObject.capacity c.arena h = .ok capacity ∧
          ∀ i, 1 ≤ i → i ≤ capacity →
            ∃ r, c.arena.field h i = .ok r ∧ r.Among c.arena.issuedHandles := by
  have hargs : ∀ r ∈ [Ref.obj ⟨4⟩, .obj ⟨0⟩], r.Among [⟨0⟩, ⟨4⟩] :=
    among_pair (among_obj.mpr (by decide)) (among_obj.mpr (by decide))
  have h0 := Session.start 64 .panic (Source.ofList [])
  have h1 := Session.step (.invoke "newList" []) h0 among_nil rfl
  have h2 := Session.step (.make (.string (Utf8.encode "ab"))) h1 trivial rfl
  have h3 := Session.step (.invoke "addLast" [.obj ⟨4⟩, .obj ⟨0⟩]) h2 hargs rfl
  have h4 := Session.step (.invoke "addLast" [.obj ⟨4⟩, .obj ⟨0⟩]) h3 hargs rfl
  have h5 := Session.step (.invoke "addLast" [.obj ⟨4⟩, .obj ⟨0⟩]) h4 hargs rfl
  obtain ⟨_, hhandles, hlists, hcalls⟩ := stored_references_stay_issued h5
  refine ⟨_, h5, rfl, rfl, ⟨_, rfl, ?_⟩, hlists⟩
  refine (hcalls "at" [.int 3, .obj ⟨6⟩] (among_pair (among_of_obj? rfl _) ?_) _ _ rfl).1
  rw [← hhandles]
  exact among_obj.mpr (by decide)

end ObjectMemory
