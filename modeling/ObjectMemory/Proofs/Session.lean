import ObjectMemory.Proofs.Closure
import ObjectMemory.Proofs.Editing

/-!
# Sessions

A session is what a program does with a context that starts out empty: it makes objects, stores
into them, asks about them, calls primitives and now and then empties the arena. It is honest if
it names nothing but immediates and the handles that it was given since the arena was last
emptied, and if it writes bytes into strings and byte arrays only. Words that it forged itself
would be no references.

Some things hold only of programs that keep further rules, or have to be said of what a program did.
So sessions are a case of `Course`, the runs by given `Rules`. What each command keeps holds after
every course: `Course.keeps`.

Any object may be of any class and size, also a list without a single payload word, and any word
of any object may be stored into, also the one that holds a list's count. Even so the arena stays
closed (`Course.closed`), and then no primitive can end a run, whatever it is called with, except
for want of room: `invoke_stops_only_when_full`.
-/

namespace ObjectMemory

open PrimM (onArena)

/-! ## Questions about objects -/

/-- What is asked about an object. -/
inductive Question where
  | header
  | cls
  | payloadWords
  | word (i : Nat)
  | field (i : Nat)
  | byte (i : Nat)
  | bytes (offset n : Nat)
  | byteCount
  | stringLength
  | stringBytes
  | stringText
  | codePoints
  | itemCount
  | itemCapacity
  | items
  | dump

/-- What is asked about an arena. -/
inductive Query where
  | object (h : Handle) (q : Question)
  | isClass (r : Ref) (c : ObjClass)
  | stringMatches (r : Ref) (bytes : List UInt8)
  | contains (h : Handle)
  | usedWords
  | freeWords

/-- What a question is answered with. -/
inductive Sight where
  | header (h : Header)
  | cls (c : ObjClass)
  | number (n : Nat)
  | word (w : Word)
  | reference (r : Ref)
  | references (rs : List Ref)
  | byte (b : UInt8)
  | bytes (bs : List UInt8)
  | text (t : String)
  | truth (b : Bool)

def Question.read (h : Handle) : Question → Arena → Except Stop Sight
  | .header, a => (a.header h).map .header
  | .cls, a => (a.classOf h).map .cls
  | .payloadWords, a => (a.payloadWords h).map .number
  | .word i, a => (a.payloadWord h i).map .word
  | .field i, a => (a.field h i).map .reference
  | .byte i, a => (a.byteAt h i).map .byte
  | .bytes offset n, a => (a.readBytes h offset n).map .bytes
  | .byteCount, a => (a.byteArrayLength h).map .number
  | .stringLength, a => (a.stringLength h).map .number
  | .stringBytes, a => (a.stringBytes h).map .bytes
  | .stringText, a => (a.stringText h).map .text
  | .codePoints, a => (StringObject.length a h).map .number
  | .itemCount, a => (ListObject.count a h).map .number
  | .itemCapacity, a => (ListObject.capacity a h).map .number
  | .items, a => (ListObject.items a h).map .references
  | .dump, a => (a.dump h).map .text

namespace Query

def read : Query → Arena → Except Stop Sight
  | .object h q, a => q.read h a
  | .isClass r c, a => (a.isClass r c).map .truth
  | .stringMatches r bytes, a => (a.stringMatches r bytes).map .truth
  | .contains h, a => .ok (.truth (a.contains h))
  | .usedWords, a => .ok (.number a.used)
  | .freeWords, a => .ok (.number a.freeWords)

/-- The references that are asked about. -/
def subjects : Query → List Ref
  | .object h _ | .contains h => [.obj h]
  | .isClass r _ | .stringMatches r _ => [r]
  | .usedWords | .freeWords => []

end Query

/-! ## Commands -/

/-- One thing that a program does with a context. -/
inductive Command where
  | make (r : Request)
  | grow (h : Handle) (payload : Nat) (fill : Ref)
  | edit (h : Handle) (e : Edit)
  | ask (q : Query)
  | invoke (name : String) (args : List Ref)
  | reset

/-- What a program is told after a command. -/
inductive Answer where
  | given (r : Ref)
  | refused (f : Failure)
  | seen (s : Sight)
  | done

/-- An object that is asked for without forging references. -/
def Request.Honest (hs : List Handle) : Request → Prop
  | .object _ _ fill => fill.Among hs
  | _ => True

/-- An edit that stores references, or bytes where there are bytes. -/
def Edit.Honest (hs : List Handle) (a : Arena) (h : Handle) : Edit → Prop
  | .field _ value | .fields _ _ value => value.Among hs
  | .byte .. | .bytes .. | .allBytes _ => a.classOf h = .ok .string ∨ a.classOf h = .ok .byteArray
  | .word .. | .copy .. => False

namespace Command

def act : Command → PrimM Answer
  | .make r => do return .given (.obj (← onArena r.make))
  | .grow h payload fill => do return .given (.obj (← onArena (Arena.grow h payload fill)))
  | .edit h e => do
    onArena (e.apply h)
    return .done
  | .ask q => do return .seen (← PrimM.look q.read)
  | .invoke name args => do return .given (← Primitive.invoke name args)
  | .reset => do
    onArena Arena.reset
    return .done

/-- Carries out a command. That a primitive refuses its arguments is an answer. -/
def run (cmd : Command) : EStateM Stop Context Answer := fun c =>
  match cmd.act c with
  | .ok x d => .ok x d
  | .error (.failure f) d => .ok (.refused f) d
  | .error (.stop s) d => .error s d

/-- A command that names only immediates and the handles `hs`. -/
def Honest (hs : List Handle) (a : Arena) : Command → Prop
  | .make r => r.Honest hs
  | .grow h _ fill => h ∈ hs ∧ fill.Among hs
  | .edit h e => h ∈ hs ∧ e.Honest hs a h
  | .ask q => ∀ r ∈ q.subjects, r.Among hs
  | .invoke _ args => ∀ r ∈ args, r.Among hs
  | .reset => True

/-- The handles that a program has after a command. -/
def handles (hs : List Handle) (answer : Answer) : Command → List Handle
  | .reset => []
  | _ =>
    match answer with
    | .given r => noted hs r
    | _ => hs

end Command

/-! ## Courses -/

/-- Which commands a program gives, and what it notes of them. -/
structure Rules (σ : Type) where
  /-- The commands that are admitted, by what the arena holds. -/
  admits : Command → Arena → Prop
  /-- The notes before the first command. -/
  blank : σ
  /-- The notes after a command that was answered, from the arenas before and after it. -/
  note : Command → Answer → Arena → Arena → σ → σ

/-- Rules by which nothing is noted. -/
def Rules.only (admits : Command → Arena → Prop) : Rules Unit where
  admits := admits
  blank := ()
  note _ _ _ _ notes := notes

/-- Honest commands that the rules admit lead from an empty arena to the context `c`. The handles
`hs` were given since the arena was last empty, and `notes` is what was noted. -/
inductive Course {σ : Type} (rules : Rules σ) :
    (c : Context) → (hs : List Handle) → (notes : σ) → Prop
  | start (words : Nat) (action : ExhaustionAction) (source : Source) :
    Course rules ⟨(Arena.ofSize words).withAction action, source⟩ [] rules.blank
  | step {c d : Context} {hs : List Handle} {notes : σ} {answer : Answer} (cmd : Command)
    (before : Course rules c hs notes) (admitted : rules.admits cmd c.arena)
    (honest : cmd.Honest hs c.arena) (run : cmd.run c = .ok answer d) :
    Course rules d (cmd.handles hs answer) (rules.note cmd answer c.arena d.arena notes)

/-- Honest commands lead from an empty arena to the context `c`, and `hs` are the handles that were
given since the arena was last empty. -/
def Session (c : Context) (hs : List Handle) : Prop :=
  Course (.only fun _ _ => True) c hs ()

theorem Session.start (words : Nat) (action : ExhaustionAction) (source : Source) :
    Session ⟨(Arena.ofSize words).withAction action, source⟩ [] :=
  Course.start words action source

theorem Session.step {c d : Context} {hs : List Handle} {answer : Answer} (cmd : Command)
    (before : Session c hs) (honest : cmd.Honest hs c.arena) (run : cmd.run c = .ok answer d) :
    Session d (cmd.handles hs answer) :=
  Course.step cmd before trivial honest run

/-! ## What a command comes to -/

section Runs

variable {c d : Context} {hs : List Handle} {answer : Answer} {cmd : Command}

theorem run_of_onArena {α : Type} (act : ArenaM α) (k : α → Answer)
    (hact : cmd.act = do return k (← onArena act)) (c : Context) :
    cmd.run c =
      match act c.arena with
      | .ok x b => .ok (k x) ⟨b, c.source⟩
      | .error s b => .error s ⟨b, c.source⟩ := by
  unfold Command.run
  rw [hact]
  cases hrun : act c.arena with
  | ok x b => rw [bind_of_ok (onArena_of_ok hrun)]; rfl
  | error s b => rw [bind_of_error (onArena_of_error hrun)]

theorem run_ask (q : Query) (c : Context) :
    (Command.ask q).run c =
      match q.read c.arena with
      | .ok x => .ok (.seen x) c
      | .error s => .error s c := by
  have hact : (Command.ask q).act = (PrimM.look q.read >>= fun x => pure (.seen x)) := rfl
  unfold Command.run
  rw [hact]
  cases hread : q.read c.arena with
  | ok x => rw [look_bind hread]; rfl
  | error s =>
    have hlook : PrimM.look q.read c = .error (.stop s) c := by
      rw [PrimM.look, hread]
    rw [bind_of_error hlook]

theorem run_invoke (name : String) (args : List Ref) (c : Context) :
    (Command.invoke name args).run c =
      match Primitive.invoke name args c with
      | .ok r d => .ok (.given r) d
      | .error (.failure f) d => .ok (.refused f) d
      | .error (.stop s) d => .error s d := by
  have hact : (Command.invoke name args).act =
      (Primitive.invoke name args >>= fun r => pure (.given r)) := rfl
  unfold Command.run
  rw [hact]
  cases hrun : Primitive.invoke name args c with
  | ok r d => rw [bind_of_ok hrun]; rfl
  | error refusal d =>
    rw [bind_of_error hrun]
    cases refusal <;> rfl

/-- An effect gives a value, or there is no room for it. -/
theorem Effect.Performed.result {e : Effect} {a : Arena} {s : Source}
    {outcome : EStateM.Result Refusal Context Ref} (hp : e.Performed a s outcome) :
    (∃ r d, outcome = .ok r d) ∨
      ∃ n, ¬ a.Fits n ∧ outcome = .error (.stop (a.exhaustion n)) ⟨a.refused n, s⟩ := by
  cases e with
  | give r => exact Or.inl ⟨r, _, hp⟩
  | rewrite h words r =>
    obtain ⟨b, hb, _⟩ := hp
    exact Or.inl ⟨r, _, hb⟩
  | make o content =>
    simp only [Effect.Performed] at hp
    split at hp
    · obtain ⟨b, hb, _⟩ := hp
      exact Or.inl ⟨_, _, hb⟩
    · next hfull => exact Or.inr ⟨_, hfull, hp⟩

theorem planNamed_within (hc : c.arena.Closed hs) {args : List Ref}
    (hargs : ∀ r ∈ args, r.Among hs) (name : String) :
    (Primitive.planNamed name c.arena.view c.arena.freeWords args).Ensures
      (Effect.Within hs c.arena.view) :=
  Primitive.planNamed_ensures (fun p => plan_within hc.nameable hargs p _) name

/-- **A primitive gives a value, refuses its arguments, or finds no room.** A refusal leaves the
arena as it was, and a value leaves it closed. -/
theorem invoke_cases (hc : c.arena.Closed hs) {args : List Ref} (hargs : ∀ r ∈ args, r.Among hs)
    (name : String) :
    (∃ r d, Primitive.invoke name args c = .ok r d ∧ d.arena.Closed (noted hs r)) ∨
    (∃ f s, Primitive.invoke name args c = .error (.failure f) ⟨c.arena, s⟩) ∨
    ∃ n s, ¬ c.arena.Fits n ∧
      Primitive.invoke name args c =
        .error (.stop (c.arena.exhaustion n)) ⟨c.arena.refused n, s⟩ := by
  have hcarries := invoke_carries (hc.knowsArguments hargs) name
  have hwithin := planNamed_within hc hargs name
  unfold Carries at hcarries
  cases hplan : (Primitive.planNamed name c.arena.view c.arena.freeWords args).run c.source with
  | mk result s =>
    rw [hplan] at hcarries
    cases result with
    | error f => exact Or.inr (Or.inl ⟨f, s, hcarries⟩)
    | ok e =>
      -- the plan names and stores only what may be named, and so does its effect
      rcases hcarries.result with ⟨r, d, hok⟩ | ⟨n, hfull, hstop⟩
      · rw [hok] at hcarries
        exact Or.inl ⟨r, d, hok, hc.performed (hwithin.of_run hplan) hcarries⟩
      · exact Or.inr (Or.inr ⟨n, s, hfull, hstop⟩)

/-- A call with nothing left to decide has the effect that its plan gives. -/
theorem invoke_performs (hc : c.arena.Closed hs) {args : List Ref} (hargs : ∀ r ∈ args, r.Among hs)
    {name : String} {e : Effect}
    (hplan : Primitive.planNamed name c.arena.view c.arena.freeWords args = .give e) :
    e.Performed c.arena c.source (Primitive.invoke name args c) := by
  have hcarries := invoke_carries (hc.knowsArguments hargs) name
  unfold Carries at hcarries
  rwa [hplan] at hcarries

/-- A call that its plan refuses at once is refused, and changes nothing. -/
theorem invoke_refuses (hc : c.arena.Closed hs) {args : List Ref} (hargs : ∀ r ∈ args, r.Among hs)
    {name : String} {f : Failure}
    (hplan : Primitive.planNamed name c.arena.view c.arena.freeWords args = .refuse f) :
    Primitive.invoke name args c = .error (.failure f) c := by
  have hcarries := invoke_carries (hc.knowsArguments hargs) name
  unfold Carries at hcarries
  rwa [hplan] at hcarries

/-- A call that gave a value did what its plan says. -/
theorem invoke_effect (hc : c.arena.Closed hs) {args : List Ref} (hargs : ∀ r ∈ args, r.Among hs)
    {name : String} {r : Ref} (hrun : Primitive.invoke name args c = .ok r d) :
    ∃ e s, (Primitive.planNamed name c.arena.view c.arena.freeWords args).run c.source =
        (.ok e, s) ∧ e.Performed c.arena s (.ok r d) := by
  have hcarries := invoke_carries (hc.knowsArguments hargs) name
  unfold Carries at hcarries
  cases hplan : (Primitive.planNamed name c.arena.view c.arena.freeWords args).run c.source with
  | mk result s =>
    rw [hplan, hrun] at hcarries
    cases result with
    | error f => cases hcarries
    | ok e => exact ⟨e, s, rfl, hcarries⟩

/-! ## Commands that were answered -/

theorem run_ok_of_onArena {α : Type} {act : ArenaM α} {k : α → Answer}
    (hact : cmd.act = do return k (← onArena act)) (hrun : cmd.run c = .ok answer d) :
    ∃ x, act c.arena = .ok x d.arena ∧ answer = k x := by
  rw [run_of_onArena act k hact] at hrun
  cases hend : act c.arena with
  | ok x b =>
    rw [hend] at hrun
    cases hrun
    exact ⟨x, rfl, rfl⟩
  | error s b =>
    rw [hend] at hrun
    cases hrun

/-- An object that was asked for is the new one. -/
theorem run_make_ok {r : Request} (hrun : (Command.make r).run c = .ok answer d) :
    answer = .given (.obj ⟨c.arena.used⟩) ∧ c.arena.Made .fresh r.content d.arena := by
  obtain ⟨h, hact, rfl⟩ := run_ok_of_onArena (k := fun h => .given (.obj h)) rfl hrun
  obtain ⟨rfl, hmade⟩ := Request.made hact
  exact ⟨rfl, hmade⟩

/-- An object that was edited holds what the outcome says. -/
theorem run_edit_ok {h : Handle} {e : Edit} (hh : c.arena.Holds h)
    (hsources : ∀ g ∈ e.sources, c.arena.Holds g)
    (hrun : (Command.edit h e).run c = .ok answer d) :
    answer = .done ∧ c.arena.Stored h (e.outcome c.arena.view h).1 d.arena := by
  obtain ⟨x, hact, rfl⟩ := run_ok_of_onArena (k := fun _ => .done) rfl hrun
  obtain ⟨b, hst, hend⟩ := Edit.apply_ends hh hsources
  rw [hact] at hend
  refine ⟨rfl, ?_⟩
  split at hend
  · cases hend
    exact hst
  · cases hend

theorem run_ask_ok {q : Query} (hrun : (Command.ask q).run c = .ok answer d) :
    d = c ∧ ∃ x, answer = .seen x := by
  rw [run_ask] at hrun
  split at hrun
  · cases hrun
    exact ⟨rfl, _, rfl⟩
  · cases hrun

/-! ## Sessions keep the arena closed -/

theorem Request.Honest.sound {r : Request} (hc : c.arena.Closed hs) (hon : r.Honest hs)
    (hcls : r.content.cls = .list) : Sound hs r.content.words := by
  cases r with
  | object cls payload fill => exact Sound.replicate (hon.stored hc.nameable.small) _
  | _ => cases hcls

theorem Edit.Honest.sources {a : Arena} {h : Handle} {e : Edit} (hon : e.Honest hs a h) :
    ∀ g ∈ e.sources, a.Holds g := by
  cases e with
  | copy source sourceStart targetStart n => exact hon.elim
  | _ =>
    intro g hg
    cases hg

/-- A list is no place for bytes. -/
theorem not_bytes_of_list {a : Arena} {h : Handle} (hh : a.Holds h)
    (hcls : (a.view h).cls = .list) :
    ¬ (a.classOf h = .ok .string ∨ a.classOf h = .ok .byteArray) := by
  rw [Arena.classOf_eq hh, hcls]
  rintro (heq | heq)
  · cases heq
  · cases heq

/-- **An honest edit keeps the words of a list sound.** -/
theorem Edit.Honest.sound {a : Arena} {h : Handle} {e : Edit} (hc : a.Closed hs) (hh : h ∈ hs)
    (hon : e.Honest hs a h) (hcls : (a.view h).cls = .list) :
    Sound hs (e.outcome a.view h).1 := by
  have hws := hc.sound h hh hcls
  have hbytes := not_bytes_of_list (hc.tiled.holds hh) hcls
  cases e with
  | field i value =>
    simp only [outcome, storeWord]
    split
    · exact hws.set (hon.stored hc.nameable.small) i
    · exact hws
  | fields first past value =>
    simp only [outcome]
    split
    · exact hws.splice (Sound.replicate (hon.stored hc.nameable.small) _) first
    · exact hws
  | word i w => exact hon.elim
  | copy source sourceStart targetStart n => exact hon.elim
  | byte i b => exact absurd hon hbytes
  | bytes offset content => exact absurd hon hbytes
  | allBytes b => exact absurd hon hbytes

/-- **An honest command leaves the arena closed.** -/
theorem Arena.Closed.step (hc : c.arena.Closed hs) (hon : cmd.Honest hs c.arena)
    (hrun : cmd.run c = .ok answer d) : d.arena.Closed (cmd.handles hs answer) := by
  cases cmd with
  | make r =>
    obtain ⟨rfl, hmade⟩ := run_make_ok hrun
    dsimp only [Command.handles]
    rw [hc.tiled.noted_used]
    exact hc.made hmade (Request.Honest.sound hc hon)
  | grow h payload fill =>
    obtain ⟨g, hact, rfl⟩ := run_ok_of_onArena (k := fun h => .given (.obj h)) rfl hrun
    obtain ⟨rfl, hmade⟩ := Arena.grow_made (hc.tiled.holds hon.1) hact
    dsimp only [Command.handles]
    rw [hc.tiled.noted_used]
    refine hc.made hmade fun hcls => ?_
    exact (hc.sound h hon.1 hcls).grown (hon.2.stored hc.nameable.small) payload
  | edit h e =>
    obtain ⟨hh, hon⟩ := hon
    obtain ⟨rfl, hst⟩ := run_edit_ok (hc.tiled.holds hh) hon.sources hrun
    exact hc.stored hh hst fun hcls => hon.sound hc hh hcls
  | ask q =>
    obtain ⟨rfl, x, rfl⟩ := run_ask_ok hrun
    exact hc
  | invoke name args =>
    rw [run_invoke] at hrun
    rcases invoke_cases hc hon name with ⟨r, e, hok, hclosed⟩ | ⟨f, s, hfail⟩ | ⟨n, s, _, hstop⟩
    · rw [hok] at hrun
      cases hrun
      exact hclosed
    · rw [hfail] at hrun
      cases hrun
      exact hc
    · rw [hstop] at hrun
      cases hrun
  | reset =>
    cases hrun
    exact ⟨⟨rfl, Or.inl rfl, hc.tiled.size⟩, fun h hh => nomatch hh⟩

/-- **Every course leaves the arena closed.** -/
theorem Course.closed {σ : Type} {rules : Rules σ} {notes : σ} (hrun : Course rules c hs notes) :
    c.arena.Closed hs := by
  induction hrun with
  | start words action source => exact closed_ofSize words action
  | step cmd before admitted honest run ih => exact ih.step honest run

/-- **What holds of an empty arena and is kept by every admitted command holds after a course.** -/
theorem Course.keeps {σ : Type} {rules : Rules σ} {notes : σ}
    {P : Context → List Handle → σ → Prop} (hrun : Course rules c hs notes)
    (hstart : ∀ words action source,
      P ⟨(Arena.ofSize words).withAction action, source⟩ [] rules.blank)
    (hstep : ∀ {c d : Context} {hs : List Handle} {notes : σ} {answer : Answer} (cmd : Command),
      c.arena.Closed hs → P c hs notes → rules.admits cmd c.arena → cmd.Honest hs c.arena →
      cmd.run c = .ok answer d →
      P d (cmd.handles hs answer) (rules.note cmd answer c.arena d.arena notes)) :
    P c hs notes := by
  induction hrun with
  | start words action source => exact hstart words action source
  | step cmd before admitted honest run ih =>
    exact hstep cmd before.closed ih admitted honest run

end Runs

/-! ## No primitive ends a run -/

/-- An arena in which an object does not fit is too small for it. -/
theorem capacity_le_of_not_fits {a : Arena} {n : Nat} (hsize : a.capacity ≤ maxArenaWords)
    (hfull : ¬ a.Fits n) : a.capacity ≤ a.used + (1 + n) := by
  unfold Arena.Fits maxPayloadWords at hfull
  unfold maxArenaWords at hsize
  omega

/-- The report of a want of room names at least the capacity, also where it is cut off. -/
theorem capacity_le_reported {a : Arena} {n : Nat} (hsize : a.capacity ≤ maxArenaWords)
    (hfull : ¬ a.Fits n) : a.capacity ≤ Size.reported a.used (1 + n) := by
  have hdemand := capacity_le_of_not_fits hsize hfull
  unfold Size.reported
  rw [Size.largest_eq]
  unfold maxArenaWords at hsize
  omega

/-- **Primitives never end a run because of their arguments.** After any session, whatever its
objects hold, a call with any name and with any row of arguments that names only immediates and
handles of the session gives a value or refuses the arguments. The one stop it can force is the
report that the arena has no room, and then it has none. -/
theorem invoke_stops_only_when_full {c : Context} {hs : List Handle} (hses : Session c hs)
    (name : String) {args : List Ref} (hargs : ∀ r ∈ args, r.Among hs) :
    (∃ r d, Primitive.invoke name args c = .ok r d) ∨
    (∃ f d, Primitive.invoke name args c = .error (.failure f) d) ∨
    ∃ demand d, c.arena.capacity ≤ demand ∧
      Primitive.invoke name args c =
        .error (.stop (.exhausted c.arena.onExhaustion demand c.arena.capacity)) d := by
  have hc := hses.closed
  rcases invoke_cases hc hargs name with ⟨r, d, hok, _⟩ | ⟨f, s, hfail⟩ | ⟨n, s, hfull, hstop⟩
  · exact Or.inl ⟨r, d, hok⟩
  · exact Or.inr (Or.inl ⟨f, _, hfail⟩)
  · exact Or.inr (Or.inr ⟨_, _, capacity_le_reported hc.tiled.size hfull, hstop⟩)

/-- A list without payload is deleted from by a selector that is a string, in an arena where
another list holds a handle in place of its count. -/
theorem delete_from_bare_list :
    ∃ c, Session c [⟨0⟩, ⟨1⟩, ⟨4⟩] ∧
      ((∃ r d, Primitive.invoke "delete" [.obj ⟨4⟩, .obj ⟨0⟩] c = .ok r d) ∨
        (∃ f d, Primitive.invoke "delete" [.obj ⟨4⟩, .obj ⟨0⟩] c = .error (.failure f) d) ∨
        ∃ demand d, c.arena.capacity ≤ demand ∧
          Primitive.invoke "delete" [.obj ⟨4⟩, .obj ⟨0⟩] c =
            .error (.stop (.exhausted c.arena.onExhaustion demand c.arena.capacity)) d) := by
  have h0 := Session.start 64 .panic (Source.ofList [])
  have h1 := Session.step (.make (.object .list 0 .nil)) h0 (among_of_obj? rfl _) rfl
  have h2 := Session.step (.make (.object .list 2 (.int 5))) h1 (among_of_obj? rfl _) rfl
  have h3 := Session.step (.edit ⟨1⟩ (.field 0 (.obj ⟨0⟩))) h2
    ⟨by decide, among_obj.mpr (by decide)⟩ rfl
  have h4 := Session.step (.make (.string (Utf8.encode "all"))) h3 trivial rfl
  refine ⟨_, h4, invoke_stops_only_when_full h4 "delete" (among_pair ?_ ?_)⟩
  · exact among_obj.mpr (by decide)
  · exact among_obj.mpr (by decide)

end ObjectMemory
