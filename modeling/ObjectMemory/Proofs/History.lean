import ObjectMemory.Machine
import ObjectMemory.Proofs.Footprint
import ObjectMemory.Proofs.Stopping

/-!
# The history of an arena

Whatever a program does with an arena, only two kinds of deeds change what objects there are: an
object is issued, or the arena is emptied. A `History` is the row of these deeds, each object with
where it came from. It is kept beside the run, by looking at what was asked for and at the words
of a new object. The counts and the journal of the arena are not looked at.

`Lifetime` are the runs. A run goes on after a stop. `Lifetime.keeps` says how to show something
of all of them: one case for each way in which a command can change an arena.
-/

namespace ObjectMemory

-- Sums of numbers start from the zero of the core library, also beside other instances.
attribute [local instance (2000)] Zero.ofOfNat0

/-! ## Deeds -/

/-- Something that was done to the objects of an arena. -/
inductive Deed where
  | issued (origin : Origin) (o : Issue)
  | emptied
  deriving DecidableEq, Repr

/-- The words that an object takes up, with its header. -/
def Issue.words (o : Issue) : Nat :=
  1 + o.payload

namespace Deed

/-- The objects after a deed, of those since the arena was last emptied. -/
def after (live : List Issue) : Deed → List Issue
  | issued _ o => live ++ [o]
  | emptied => []

/-- The object that was issued. -/
def object? : Deed → Option Issue
  | issued _ o => some o
  | emptied => none

/-- The object that was issued, if it is a copy. -/
def copy? : Deed → Option Issue
  | issued .fresh _ => none
  | issued _ o => some o
  | emptied => none

end Deed

/-- Everything that was done to the objects of an arena, in order. -/
abbrev History := List Deed

namespace History

variable (past : History)

/-- The objects that were issued since the arena was last emptied. -/
def live : List Issue :=
  past.foldl Deed.after []

def handles : List Handle :=
  past.live.map Issue.handle

/-- All objects that were ever issued, copies included. -/
def objects : List Issue :=
  past.filterMap Deed.object?

/-- The copies among them. -/
def copies : List Issue :=
  past.filterMap Deed.copy?

/-- How often the arena was emptied. -/
def resets : Nat :=
  past.count Deed.emptied

/-- The history after some more deeds. -/
def add (deeds : List Deed) : History :=
  past ++ deeds

@[simp] theorem add_nil : past.add [] = past :=
  List.append_nil past

variable {past} {origin : Origin} {o : Issue}

@[simp] theorem live_issued : (past.add [.issued origin o]).live = past.live ++ [o] := by
  simp [live, add, Deed.after]

@[simp] theorem live_emptied : (past.add [.emptied]).live = [] := by
  simp [live, add, Deed.after]

@[simp] theorem handles_issued :
    (past.add [.issued origin o]).handles = past.handles ++ [o.handle] := by
  simp [handles]

@[simp] theorem handles_emptied : (past.add [.emptied]).handles = [] := by
  simp [handles]

@[simp] theorem objects_issued : (past.add [.issued origin o]).objects = past.objects ++ [o] := by
  simp [objects, add, Deed.object?]

@[simp] theorem objects_emptied : (past.add [.emptied]).objects = past.objects := by
  simp [objects, add, Deed.object?]

@[simp] theorem copies_add (deed : Deed) :
    (past.add [deed]).copies = past.copies ++ deed.copy?.toList := by
  cases h : deed.copy? <;> simp [copies, add, h]

@[simp] theorem resets_issued : (past.add [.issued origin o]).resets = past.resets := by
  simp [resets, add]

@[simp] theorem resets_emptied : (past.add [.emptied]).resets = past.resets + 1 := by
  simp [resets, add]

/-- Every copy is an object that was issued. -/
theorem copies_sublist (past : History) : past.copies.Sublist past.objects := by
  unfold copies objects
  induction past with
  | nil => exact List.Sublist.refl []
  | cons deed rest ih =>
    rcases deed with ⟨_ | h | h, o⟩ | _
    · exact ih.cons o
    · exact ih.cons_cons o
    · exact ih.cons_cons o
    · exact ih

/-- As long as the arena was not emptied, all objects are still there. -/
theorem live_of_no_reset (hnone : past.resets = 0) : past.live = past.objects := by
  have hstart (log : List Issue) (deeds : List Deed) (hdeeds : Deed.emptied ∉ deeds) :
      deeds.foldl Deed.after log = log ++ deeds.filterMap Deed.object? := by
    induction deeds generalizing log with
    | nil => simp
    | cons deed rest ih =>
      obtain ⟨hne, hrest⟩ := List.ne_and_not_mem_of_not_mem_cons hdeeds
      cases deed with
      | issued origin o => simp [Deed.after, Deed.object?, ih _ hrest]
      | emptied => exact absurd rfl hne
  exact hstart [] past (List.count_eq_zero.mp hnone)

end History

/-! ## What commands do -/

/-- Where an object comes from that a call makes. Only appending to a list makes a copy. -/
def Primitive.origin (p : Primitive) (args : List Ref) : Origin :=
  match p with
  | .addLast =>
    match args[1]?.bind Ref.obj? with
    | some h => .largerList h
    | none => .fresh
  | _ => .fresh

def Primitive.originNamed (name : String) (args : List Ref) : Origin :=
  match ofName? name with
  | some p => p.origin args
  | none => .fresh

/-- The object that was made between two arenas, if one was, as its words describe it. -/
def Arena.found (a b : Arena) : List Issue :=
  (a.madeUntil b).map fun h => ⟨h, (b.view h).cls, (b.view h).words.length⟩

/-- The deeds of a command that was answered, between the arenas `a` and `b`. -/
def Command.deeds (a b : Arena) (answer : Answer) : Command → List Deed
  | .make r =>
    match answer with
    | .given (.obj h) => [.issued .fresh ⟨h, r.cls, r.payload⟩]
    | _ => []
  | .grow g payload _ =>
    match answer with
    | .given (.obj h) => [.issued (.copyOf g) ⟨h, (a.view g).cls, payload⟩]
    | _ => []
  | .invoke name args => (a.found b).map (.issued (Primitive.originNamed name args))
  | .reset => [.emptied]
  | .edit .. | .ask _ => []

/-- One thing that an arena `a` with the objects `hs` goes through. -/
inductive Arena.Does (a : Arena) (hs : List Handle) : (deeds : List Deed) → (b : Arena) → Prop
  | nothing : Does a hs [] a
  | stored {h : Handle} {b : Arena} (mem : h ∈ hs) (wrote : a.WroteIn h b) : Does a hs [] b
  | made {o : Origin} {c : Content} {b : Arena} (made : a.Made o c b) :
    Does a hs [.issued o ⟨⟨a.used⟩, c.cls, c.words.length⟩] b
  | emptied {b : Arena} (run : reset a = .ok () b) : Does a hs [.emptied] b

/-! ### Origins in plans -/

/-- An object that the effect makes comes from `origin`, and a header states its class in full. -/
def Effect.ComesFrom (origin : Origin) : Effect → Prop
  | .make o c => o = origin ∧ c.cls.stored = c.cls
  | _ => True

theorem comesFrom_list (words : List Word) :
    (Effect.make .fresh ⟨.list, words⟩).ComesFrom .fresh := ⟨rfl, rfl⟩

theorem comesFrom_text (text : List UInt8) :
    (Effect.make .fresh (.ofText text)).ComesFrom .fresh := ⟨rfl, rfl⟩

theorem Plan.addLast_comesFrom (v : View) (item : Ref) (args : List Ref) :
    (addLast v (args.getD 1 .nil) item).Ensures
      (Effect.ComesFrom (Primitive.origin .addLast args)) := by
  refine Ensures.need fun h hlist => ?_
  have hobj := congrArg Ref.obj? (View.named?_eq_some.mp hlist).1
  rw [getD_obj?] at hobj
  dsimp only
  split
  · exact ⟨by simp [Primitive.origin, hobj, Ref.obj?], rfl⟩
  · trivial

/-- **A plan makes an object of the origin that its call says.** -/
theorem plan_comesFrom (p : Primitive) (v : View) (free : Nat) (args : List Ref) :
    (p.plan v free args).Ensures (Effect.ComesFrom (p.origin args)) := by
  unfold Primitive.plan
  split
  · trivial
  · cases p with
    | makeList => exact comesFrom_list _
    | newList => exact comesFrom_list _
    | addLast => exact Plan.addLast_comesFrom v _ args
    | freeMemory => trivial
    | delete => exact Plan.delete_ensures (fun _ _ _ _ => trivial) trivial _
    | join => exact Plan.join_ensures (fun _ => comesFrom_list _) comesFrom_text args
    | copyFromTo => exact Plan.copyFromTo_ensures (fun _ => comesFrom_list _) comesFrom_text _ _ _
    | findInString => exact Plan.findInString_ensures (fun _ => trivial) _ _ _
    | joinStrings => exact Plan.joinStrings_ensures comesFrom_text _ _
    | getItem => exact Plan.getItem_ensures (fun _ => trivial) comesFrom_text _ _
    | putItem => exact Plan.putItem_ensures (fun _ _ _ _ => trivial) _ _
    | fill => exact Plan.fill_ensures (fun _ _ _ _ => trivial) _
    | length => exact Plan.length_ensures (fun _ => trivial) _

/-- An append makes a larger copy of the list that it is given. All else that is made is new. -/
theorem planNamed_comesFrom (name : String) (v : View) (free : Nat) (args : List Ref) :
    (Primitive.planNamed name v free args).Ensures
      (Effect.ComesFrom (Primitive.originNamed name args)) := by
  unfold Primitive.planNamed Primitive.originNamed
  cases Primitive.ofName? name with
  | none => trivial
  | some p => exact plan_comesFrom p v free args

theorem planNamed_refusesFirst (name : String) (v : View) (free : Nat) (args : List Ref) :
    (Primitive.planNamed name v free args).RefusesFirst := by
  unfold Primitive.planNamed
  cases Primitive.ofName? name with
  | none => trivial
  | some p => exact plan_refusesFirst p v free args

/-! ### Commands that were answered -/

section Doing

variable {a b : Arena} {c d : Context} {hs : List Handle} {answer : Answer}

@[simp] theorem Arena.found_same (hused : b.used = a.used) : a.found b = [] := by
  rw [found, madeUntil, if_pos hused, List.map_nil]

theorem Command.deeds_invoke_same {name : String} {args : List Ref} (hused : b.used = a.used) :
    (Command.invoke name args).deeds a b answer = [] :=
  congrArg (List.map _) (Arena.found_same hused)

/-- **An object that was made is the one that is found.** -/
theorem Arena.Made.found {o : Origin} {content : Content} (hm : a.Made o content b)
    (hcls : content.cls.stored = content.cls) :
    a.found b = [⟨⟨a.used⟩, content.cls, content.words.length⟩] := by
  rw [Arena.found, hm.madeUntil, List.map_singleton, hm.view_new, hcls]

/-- An effect is a deed if it makes an object, and otherwise none. -/
theorem Effect.Performed.does {e : Effect} {s : Source} {r : Ref} {target : Option Handle}
    {origin : Origin} (htarget : ∀ h ∈ target, h ∈ hs) (he : e.Targets a.view target)
    (ho : e.ComesFrom origin) (hp : e.Performed a s (.ok r d)) :
    a.Does hs ((a.found d.arena).map (.issued origin)) d.arena := by
  cases e with
  | give x =>
    cases hp
    simp only [Arena.found_same, List.map_nil]
    exact .nothing
  | rewrite h words x =>
    obtain ⟨b, heq, hst⟩ := hp
    cases heq
    simp only [Arena.found_same hst.used, List.map_nil]
    exact .stored (htarget h he.1) hst.toWroteIn
  | make o content =>
    obtain ⟨_, b, rfl, hmade⟩ := hp.made
    obtain ⟨rfl, hcls⟩ := ho
    simp only [hmade.found hcls, List.map_cons, List.map_nil]
    exact .made hmade

/-- **A call that gives a value makes one object, stores into one or does nothing.** -/
theorem invoke_does (answer : Answer) (ht : c.arena.Tiled hs) {name : String} {args : List Ref}
    (hargs : ∀ r ∈ args, r.Among hs) {r : Ref} (hrun : Primitive.invoke name args c = .ok r d) :
    c.arena.Does hs ((Command.invoke name args).deeds c.arena d.arena answer) d.arena := by
  have htargets := planNamed_targets name c.arena.view c.arena.freeWords args
  have horigin := planNamed_comesFrom name c.arena.view c.arena.freeWords args
  have hends : EndsIn (fun e => e.Targets c.arena.view (Primitive.targetNamed? name args) ∧
      e.ComesFrom (Primitive.originNamed name args)) (Primitive.invoke name args) c := by
    by_cases hjoin : Primitive.ofName? name = some .joinStrings
    · -- the joined string may be another one than the plan has, but it is new all the same
      refine invoke_endsIn ht hargs name (htargets.and horigin) fun text => ⟨trivial, ?_⟩
      rw [Primitive.originNamed, hjoin]
      exact comesFrom_text text
    · refine (invoke_carries_apart ht hargs hjoin).endsIn ?_ (htargets.and horigin)
      exact planNamed_refusesFirst name _ _ args
  obtain ⟨e, s, ⟨he, ho⟩, hp⟩ := hends.effect hrun
  exact hp.does (target_among hargs name) he ho

/-- A call that is refused does nothing. -/
theorem invoke_refused (ht : c.arena.Tiled hs) {name : String} {args : List Ref}
    (hargs : ∀ r ∈ args, r.Among hs) {f : Failure}
    (hrun : Primitive.invoke name args c = .error (.failure f) d) : d = c := by
  have hplan := planNamed_targets name c.arena.view c.arena.freeWords args
  exact (invoke_endsIn ht hargs name hplan fun _ => trivial).unchanged hrun

theorem Request.cls_content (r : Request) : r.content.cls = r.cls := by
  cases r <;> rfl

/-- **A command that was answered did what its deeds say.** -/
theorem Command.run_does {cmd : Command} (ht : c.arena.Tiled hs) (hnames : cmd.Names hs)
    (hrun : cmd.run c = .ok answer d) :
    c.arena.Does hs (cmd.deeds c.arena d.arena answer) d.arena := by
  cases cmd with
  | make r =>
    obtain ⟨rfl, hmade⟩ := run_make_ok hrun
    have hdoes : c.arena.Does hs _ d.arena := .made hmade
    rwa [r.cls_content, r.length_content] at hdoes
  | grow g payload fill =>
    obtain ⟨h, hact, rfl⟩ := run_ok_of_onArena (k := fun h => .given (.obj h)) rfl hrun
    obtain ⟨rfl, hmade⟩ := Arena.grow_made (ht.holds hnames) hact
    have hdoes : c.arena.Does hs _ d.arena := .made hmade
    rwa [Arena.length_grown] at hdoes
  | edit h e =>
    obtain ⟨_, hact, _⟩ := run_ok_of_onArena (k := fun _ => .done) rfl hrun
    have hsources : ∀ g ∈ e.sources, c.arena.Holds g := fun g hg => ht.holds (hnames.2 g hg)
    exact .stored hnames.1 (e.wrote (ht.holds hnames.1) hsources (Or.inl ⟨_, hact⟩))
  | ask q =>
    obtain ⟨rfl, _⟩ := run_ask_ok hrun
    exact .nothing
  | invoke name args =>
    rw [run_invoke] at hrun
    split at hrun
    · next hend =>
      cases hrun
      exact invoke_does _ ht hnames hend
    · next hend =>
      cases hrun
      obtain rfl := invoke_refused ht hnames hend
      rw [deeds_invoke_same rfl]
      exact .nothing
    · cases hrun
  | reset =>
    obtain ⟨_, hact, _⟩ := run_ok_of_onArena (k := fun _ => .done) rfl hrun
    exact .emptied hact

end Doing

/-! ## Runs -/

/-- The arena after a dispatch loop noted that a primitive refused its arguments. -/
def Arena.withFailure (a : Arena) (name : String) (f : Failure) : Arena :=
  { a with journal := a.journal.push (.primitiveFailed name f) }

/-- Commands lead from an empty arena to the context `c`. What they did to its objects is `past`,
and `levels` are the numbers of used words at the start and after each of them. A command may end
in a stop, and a primitive may be called by a dispatch loop. Commands name issued objects only,
but whatever words they store is left open. -/
inductive Lifetime : (c : Context) → (past : History) → (levels : List Nat) → Prop
  | start (words : Nat) (action : ExhaustionAction) (source : Source) :
    Lifetime ⟨(Arena.ofSize words).withAction action, source⟩ [] [0]
  | answered {c d : Context} {past : History} {levels : List Nat} {answer : Answer}
    (cmd : Command) (before : Lifetime c past levels) (names : cmd.Names past.handles)
    (run : cmd.run c = .ok answer d) :
    Lifetime d (past.add (cmd.deeds c.arena d.arena answer)) (levels ++ [d.arena.used])
  | stopped {c d : Context} {past : History} {levels : List Nat} {s : Stop} (cmd : Command)
    (before : Lifetime c past levels) (names : cmd.Names past.handles)
    (run : cmd.run c = .error s d) : Lifetime d past (levels ++ [d.arena.used])
  | dispatched {c d : Context} {past : History} {levels : List Nat} {slot slot' : Option Failure}
    {args : List Ref} {r : Ref} (name : String) (before : Lifetime c past levels)
    (names : ∀ x ∈ args, x.Among past.handles)
    (run : Machine.call name args ⟨c, slot⟩ = .ok r ⟨d, slot'⟩) :
    Lifetime d (past.add ((Command.invoke name args).deeds c.arena d.arena (.given r)))
      (levels ++ [d.arena.used])

section Runs

variable {a b : Arena} {c d : Context} {past : History} {levels : List Nat}

/-- A dispatched call is a call, and a refusal is noted. -/
theorem call_cases {slot slot' : Option Failure} {name : String} {args : List Ref} {r : Ref}
    (hrun : Machine.call name args ⟨c, slot⟩ = .ok r ⟨d, slot'⟩) :
    Primitive.invoke name args c = .ok r d ∨
      ∃ f e, Primitive.invoke name args c = .error (.failure f) e ∧
        d = ⟨e.arena.withFailure name f, e.source⟩ := by
  unfold Machine.call at hrun
  dsimp only at hrun
  cases hend : Primitive.invoke name args c with
  | ok x e =>
    rw [hend] at hrun
    cases hrun
    exact Or.inl rfl
  | error refusal e =>
    rw [hend] at hrun
    cases refusal with
    | stop s => cases hrun
    | failure f =>
      cases hrun
      exact Or.inr ⟨f, e, rfl, rfl⟩

/-- The objects that were issued since the last reset tile the used words. -/
theorem Arena.Does.tiled {deeds : List Deed} (ht : a.Tiled past.handles)
    (hdoes : a.Does past.handles deeds b) : b.Tiled (past.add deeds).handles := by
  cases hdoes with
  | nothing =>
    rw [History.add_nil]
    exact ht
  | stored mem wrote =>
    rw [History.add_nil]
    exact ht.wrote mem wrote
  | made hmade =>
    rw [History.handles_issued]
    exact ht.gained hmade.toGained
  | emptied hrun =>
    rw [History.handles_emptied]
    cases hrun
    exact ⟨rfl, Or.inl rfl, ht.size⟩

/-- A stop issues nothing. -/
theorem Arena.Breaks.tiled {hs : List Handle} {s : Stop} (ht : a.Tiled hs)
    (hbreaks : a.Breaks hs s b) : b.Tiled hs := by
  cases hbreaks with
  | full => exact ht.transport rfl rfl fun _ _ => rfl
  | unchanged => exact ht
  | stored _ mem wrote => exact ht.wrote mem wrote

/-- **What is so at the start and kept by all that an arena goes through is so after every run.**
On the way the objects of the history tile the used words. -/
theorem Lifetime.keeps {P : Arena → History → List Nat → Prop}
    (hstart : ∀ words action, P ((Arena.ofSize words).withAction action) [] [0])
    (hdoes : ∀ {a b past levels deeds}, a.Tiled past.handles → P a past levels →
      a.Does past.handles deeds b → P b (past.add deeds) (levels ++ [b.used]))
    (hbreaks : ∀ {a b past levels s}, P a past levels → a.Breaks past.handles s b →
      P b past (levels ++ [b.used]))
    (hnoted : ∀ {a past levels} name f, P a past levels →
      P (a.withFailure name f) past (levels ++ [a.used]))
    (hrun : Lifetime c past levels) : c.arena.Tiled past.handles ∧ P c.arena past levels := by
  induction hrun with
  | start words action source => exact ⟨Arena.tiled_ofSize words action, hstart words action⟩
  | answered cmd before names run ih =>
    have hstep := cmd.run_does ih.1 names run
    exact ⟨hstep.tiled ih.1, hdoes ih.1 ih.2 hstep⟩
  | stopped cmd before names run ih =>
    have hstep := (cmd.run_breaks ih.1 names run).mono names.edited_subset
    exact ⟨hstep.tiled ih.1, hbreaks ih.2 hstep⟩
  | dispatched name before names run ih =>
    rcases call_cases run with hend | ⟨f, e, hend, rfl⟩
    · have hstep := invoke_does .done ih.1 names hend
      exact ⟨hstep.tiled ih.1, hdoes ih.1 ih.2 hstep⟩
    · -- a refusal is noted, and nothing else is done
      obtain rfl := invoke_refused ih.1 names hend
      have hsame : (e.arena.withFailure name f).used = e.arena.used := rfl
      rw [Command.deeds_invoke_same hsame, History.add_nil]
      exact ⟨ih.1.transport rfl rfl fun _ _ => rfl, hnoted name f ih.2⟩

/-- **The objects of the history tile the used words.** -/
theorem Lifetime.tiled (hrun : Lifetime c past levels) : c.arena.Tiled past.handles :=
  (hrun.keeps (P := fun _ _ _ => True) (fun _ _ => trivial) (fun _ _ _ => trivial)
    (fun _ _ => trivial) fun _ _ _ => trivial).1

end Runs

end ObjectMemory
