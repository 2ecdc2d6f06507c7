import ObjectMemory.Proofs.Refusal

/-!
# How commands stop

A command that is not answered ends in a stop, and the stop is one of two kinds. A new object may
find no room. That is recorded, and nothing else is done. Or something is read or written that is
not there, which may happen half way through a run of bytes, or a sum of sizes takes more than 64
bits, and that is not recorded.

The two kinds never mix, since no reading function reports that an arena is full (`NeverFull`).
`Command.run_breaks` says so of every command that names issued objects, whatever these hold.
-/

namespace ObjectMemory

open PrimM (Looks find look onArena refuse)

/-! ## Readings -/

/-- The stop is a want of room. -/
def Stop.isFull : Stop → Bool
  | .exhausted .. => true
  | _ => false

/-- If a value is not read, then not for want of room. -/
def NeverFull {α : Type} (x : Except Stop α) : Prop :=
  ∀ s, x = .error s → s.isFull = false

section Rules

variable {α β : Type} {x : Except Stop α}

@[simp] theorem neverFull_ok (y : α) : NeverFull (.ok y) := by
  intro s hs
  cases hs

@[simp] theorem neverFull_error {s : Stop} :
    NeverFull (.error s : Except Stop α) ↔ s.isFull = false := by
  constructor
  · intro h
    exact h s rfl
  · rintro h _ ⟨⟩
    exact h

theorem NeverFull.map (hx : NeverFull x) (f : α → β) : NeverFull (x.map f) := by
  cases x with
  | ok y => simp [Except.map]
  | error s => exact neverFull_error.mpr (neverFull_error.mp hx)

/-- Readings one after the other: none of them asks for room. -/
theorem NeverFull.bind {next : α → Except Stop β} (hx : NeverFull x)
    (hnext : ∀ y, NeverFull (next y)) : NeverFull (x >>= next) := by
  cases x with
  | ok y => exact hnext y
  | error s => exact neverFull_error.mpr (neverFull_error.mp hx)

/-- A range is read place by place. -/
theorem neverFull_readRange {read : Nat → Except Stop α} (hread : ∀ i, NeverFull (read i))
    (start n : Nat) : NeverFull (Arena.readRange read start n) := by
  induction n generalizing start with
  | zero => exact neverFull_ok []
  | succ n ih =>
    rw [Arena.readRange_succ]
    exact (hread start).bind fun _ => (ih _).bind fun _ => neverFull_ok _

end Rules

section Readings

variable (a : Arena) (h : Handle) (i n : Nat) (r : Ref)

theorem neverFull_header : NeverFull (a.header h) := by
  refine NeverFull.map ?_ _
  unfold Arena.cell
  split <;> simp [Stop.isFull]

theorem neverFull_classOf : NeverFull (a.classOf h) := (neverFull_header a h).map _

theorem neverFull_payloadWords : NeverFull (a.payloadWords h) := (neverFull_header a h).map _

/-- A word is looked for in its object and then in the arena, and neither asks for room. -/
theorem neverFull_payloadWord : NeverFull (a.payloadWord h i) := by
  refine NeverFull.map ((neverFull_payloadWords a h).bind fun words => ?_) _
  by_cases hword : words ≤ i
  · simp only [if_pos hword]
    exact neverFull_error.mpr rfl
  · by_cases hplace : a.capacity ≤ h.index + 1 + i
    · simp only [if_neg hword, if_pos hplace]
      exact neverFull_error.mpr rfl
    · simp only [if_neg hword, if_neg hplace]
      exact neverFull_ok _

theorem neverFull_field : NeverFull (a.field h i) := (neverFull_payloadWord a h i).map _

theorem neverFull_byteAt : NeverFull (a.byteAt h i) := (neverFull_payloadWord a h _).map _

/-- A range of bytes may end past all sizes, and that is no want of room either. -/
theorem neverFull_readBytes : NeverFull (a.readBytes h i n) := by
  unfold Arena.readBytes
  split
  · exact neverFull_readRange (neverFull_byteAt a h) i n
  · exact neverFull_error.mpr rfl

theorem neverFull_byteArrayLength : NeverFull (a.byteArrayLength h) :=
  (neverFull_payloadWords a h).map _

theorem neverFull_stringLength : NeverFull (a.stringLength h) := by
  refine (neverFull_payloadWords a h).bind fun words => ?_
  split
  · exact neverFull_ok 0
  · exact (neverFull_payloadWord a h _).bind fun last => neverFull_ok _

theorem neverFull_stringBytes : NeverFull (a.stringBytes h) :=
  (neverFull_stringLength a h).bind fun length => neverFull_readBytes a h 0 length

/-- A reference is asked for its class alone. -/
theorem neverFull_asString : NeverFull (a.asString r) := by
  cases r with
  | obj h => exact (neverFull_classOf a h).map _
  | _ => exact neverFull_ok none

theorem neverFull_stringMatches (bytes : List UInt8) : NeverFull (a.stringMatches r bytes) := by
  refine (neverFull_asString a r).bind fun found => ?_
  cases found with
  | none => exact neverFull_ok false
  | some h =>
    refine (neverFull_stringLength a h).bind fun length => ?_
    split
    · exact (neverFull_stringBytes a h).bind fun _ => neverFull_ok _
    · exact neverFull_ok false

theorem neverFull_isClass (c : ObjClass) : NeverFull (a.isClass r c) := by
  refine NeverFull.map ?_ _
  cases r with
  | obj h => exact (neverFull_classOf a h).map _
  | _ => exact neverFull_ok none

theorem neverFull_count : NeverFull (ListObject.count a h) := by
  refine (neverFull_payloadWords a h).bind fun words => ?_
  split
  · exact neverFull_ok 0
  · exact (neverFull_field a h 0).bind fun _ => neverFull_ok _

/-- The count is read, and then the slots that it counts. -/
theorem neverFull_items : NeverFull (ListObject.items a h) :=
  (neverFull_count a h).bind fun count => neverFull_readRange (neverFull_field a h) 1 count

theorem neverFull_asList : NeverFull (ListObject.asList a r) := by
  cases r with
  | obj h => exact (neverFull_classOf a h).map _
  | _ => exact neverFull_ok none

theorem neverFull_printed : NeverFull (StringObject.printed a r) := by
  unfold StringObject.printed
  split
  · exact neverFull_ok _
  · exact neverFull_ok _
  · exact neverFull_ok _
  · -- what is no string has no text
    refine (neverFull_asString a _).bind fun found => ?_
    cases found with
    | none => exact neverFull_ok none
    | some h => exact (neverFull_stringBytes a h).bind fun _ => neverFull_ok _

theorem neverFull_separatorBytes (separator : Option Ref) :
    NeverFull (StringObject.separatorBytes a separator) := by
  cases separator with
  | none => exact neverFull_ok []
  | some r =>
    refine (neverFull_asString a r).bind fun found => ?_
    cases found with
    | none => exact neverFull_ok []
    | some h => exact neverFull_stringBytes a h

theorem neverFull_dump : NeverFull (a.dump h) := by
  unfold Arena.dump
  split
  · refine (neverFull_header a h).bind fun header => ?_
    exact (neverFull_readRange (neverFull_payloadWord a h) 0 _).bind fun _ => neverFull_ok _
  · exact neverFull_ok _

/-- **No question about an object or an arena is answered with a want of room.** -/
theorem neverFull_query (q : Query) : NeverFull (q.read a) := by
  cases q with
  | isClass r c => exact (neverFull_isClass a r c).map _
  | stringMatches r bytes => exact (neverFull_stringMatches a r bytes).map _
  | contains h => exact neverFull_ok _
  | usedWords => exact neverFull_ok _
  | freeWords => exact neverFull_ok _
  | object h question =>
    cases question with
    | header => exact (neverFull_header a h).map _
    | cls => exact (neverFull_classOf a h).map _
    | payloadWords => exact (neverFull_payloadWords a h).map _
    | word i => exact (neverFull_payloadWord a h i).map _
    | field i => exact (neverFull_field a h i).map _
    | byte i => exact (neverFull_byteAt a h i).map _
    | bytes offset n => exact (neverFull_readBytes a h offset n).map _
    | byteCount => exact (neverFull_byteArrayLength a h).map _
    | stringLength => exact (neverFull_stringLength a h).map _
    | stringBytes => exact (neverFull_stringBytes a h).map _
    | stringText => exact ((neverFull_stringBytes a h).map _).map _
    | codePoints => exact ((neverFull_stringBytes a h).map _).map _
    | itemCount => exact (neverFull_count a h).map _
    | itemCapacity => exact ((neverFull_payloadWords a h).map _).map _
    | items => exact (neverFull_items a h).map _
    | dump => exact (neverFull_dump a h).map _

end Readings

/-! ## Programs that read -/

namespace PrimM

variable {α β : Type} {prog : PrimM α}

/-- The program only looks, and does not stop for want of room. -/
structure Peeks (prog : PrimM α) : Prop where
  looks : Looks prog
  room : ∀ c s d, prog c = .error (.stop s) d → s.isFull = false

theorem peeks_pure (x : α) : Peeks (pure x) :=
  ⟨looks_pure x, fun _ _ _ hrun => nomatch hrun⟩

theorem peeks_refuse (f : Failure) : Peeks (refuse f : PrimM α) :=
  ⟨looks_refuse f, fun _ _ _ hrun => nomatch hrun⟩

/-- A program in two parts that peek peeks. -/
theorem Peeks.bind {next : α → PrimM β} (hp : Peeks prog) (hnext : ∀ x, Peeks (next x)) :
    Peeks (prog >>= next) := by
  refine ⟨hp.looks.bind fun x => (hnext x).looks, fun c s d hrun => ?_⟩
  cases hend : prog c with
  | ok x e =>
    rw [bind_of_ok hend] at hrun
    exact (hnext x).room _ _ _ hrun
  | error refusal e =>
    rw [bind_of_error hend] at hrun
    cases hrun
    exact hp.room _ _ _ hend

/-- Reading leaves the context as it was. -/
theorem peeks_look {read : Arena → Except Stop α} (hread : ∀ a, NeverFull (read a)) :
    Peeks (look read) := by
  refine ⟨looks_look read, fun c s d hrun => ?_⟩
  unfold look at hrun
  split at hrun
  · cases hrun
  · next hend =>
    cases hrun
    exact hread _ _ hend

theorem peeks_find (f : Failure) {read : Arena → Except Stop (Option α)}
    (hread : ∀ a, NeverFull (read a)) : Peeks (find f read) := by
  refine (peeks_look hread).bind fun found => ?_
  cases found with
  | none => exact peeks_refuse f
  | some x => exact peeks_pure x

/-- A walk through a row peeks if it does at each member. -/
theorem peeks_mapM {prog : α → PrimM β} (hp : ∀ x, Peeks (prog x)) (xs : List α) :
    Peeks (xs.mapM prog) := by
  induction xs with
  | nil => exact peeks_pure []
  | cons x rest ih =>
    rw [List.mapM_cons]
    exact (hp x).bind fun _ => ih.bind fun _ => peeks_pure _

theorem peeks_argument (args : List Ref) (i : Nat) : Peeks (Primitive.argument args i) := by
  unfold Primitive.argument
  split
  · exact peeks_pure _
  · refine ⟨fun _ => Or.inr ⟨_, rfl⟩, fun c s d hrun => ?_⟩
    cases hrun
    rfl

end PrimM

open PrimM (Peeks peeks_argument peeks_find peeks_look peeks_mapM)

/-! ## Stops -/

/-- What is left when a command stops that was run on the arena `a` and stores into none but the
objects `hs`. -/
inductive Arena.Breaks (a : Arena) (hs : List Handle) : (s : Stop) → (b : Arena) → Prop
  /-- An object of `n` payload words did not fit. -/
  | full {n : Nat} (full : ¬ a.Fits n) : Breaks a hs (a.exhaustion n) (a.refused n)
  /-- Something else was wrong, and nothing was done. -/
  | unchanged {s : Stop} (other : s.isFull = false) : Breaks a hs s a
  /-- Something else was wrong, after words were stored. -/
  | stored {s : Stop} {h : Handle} {b : Arena} (other : s.isFull = false) (mem : h ∈ hs)
    (wrote : a.WroteIn h b) : Breaks a hs s b

/-- If the program stops, then in one of these ways. -/
def StopsWell (hs : List Handle) (prog : PrimM Ref) (c : Context) : Prop :=
  ∀ s d, prog c = .error (.stop s) d → c.arena.Breaks hs s d.arena

section Stops

variable {a b : Arena} {c d : Context} {hs gs : List Handle} {s : Stop} {prog : PrimM Ref}

/-- More objects may be named than were changed. -/
theorem Arena.Breaks.mono (hb : a.Breaks gs s b) (hsub : gs ⊆ hs) : a.Breaks hs s b := by
  cases hb with
  | full hfull => exact .full hfull
  | unchanged other => exact .unchanged other
  | stored other mem wrote => exact .stored other (hsub mem) wrote

/-- A command that stopped made nothing. -/
theorem Arena.Breaks.used (hb : a.Breaks gs s b) : b.used = a.used := by
  cases hb with
  | full => rfl
  | unchanged => rfl
  | stored _ _ wrote => exact wrote.used

/-- **What is left when an object of `n` payload words was not made**: either there was no room for
it, or its size or its class was wrong and nothing was done. -/
def Arena.FailsToMake (a : Arena) (n : Nat) (s : Stop) (b : Arena) : Prop :=
  (s.isFull = false ∧ b = a) ∨ (¬ a.Fits n ∧ s = a.exhaustion n ∧ b = a.refused n)

/-- A failed attempt to make an object changes none. -/
theorem Arena.FailsToMake.breaks {n : Nat} (hf : a.FailsToMake n s b) : a.Breaks hs s b := by
  rcases hf with ⟨hother, rfl⟩ | ⟨hfull, rfl, rfl⟩
  · exact .unchanged hother
  · exact .full hfull

/-- The size of an object is checked first, then room for it is looked for, then its class is looked
at. -/
theorem Request.fails {r : Request} (hrun : r.make a = .error s b) :
    a.FailsToMake r.payload s b := by
  by_cases hsize : r.Sized
  case neg =>
    rw [make_of_not_sized hsize] at hrun
    cases hrun
    exact Or.inl ⟨rfl, rfl⟩
  by_cases hcls : r.cls.Storable
  · have hroom := (makes hcls hsize a).eq_error hrun
    rw [r.length_content] at hroom
    exact Or.inr hroom
  · cases r with
    | object cls payload fill =>
      cases cls with
      | other t =>
        have hr : ObjClass.isReservedTag t = true := by simpa [cls, ObjClass.Storable] using hcls
        have hact : Arena.allocate (.other t) payload fill a = .error s b := hrun
        rw [Arena.allocate_of_le _ fill hsize] at hact
        by_cases hfits : a.Fits payload
        · rw [Arena.allot_of_reserved hr fill hfits] at hact
          cases hact
          exact Or.inl ⟨rfl, rfl⟩
        · rw [Arena.allot_of_not_fits hfits] at hact
          cases hact
          exact Or.inr ⟨hfits, rfl, rfl⟩
      | _ => exact absurd trivial hcls
    | _ => exact absurd trivial hcls

/-- Growing an issued object has one thing that can fail, and that is making the copy. -/
theorem Arena.grow_fails {h : Handle} {n : Nat} {fill : Ref} (hh : a.Holds h)
    (hrun : grow h n fill a = .error s b) : a.FailsToMake n s b := by
  rcases Nat.lt_or_ge Size.largest (1 + n) with hlarge | hsize
  · rw [grow_of_lt hh hlarge] at hrun
    cases hrun
    exact Or.inl ⟨rfl, rfl⟩
  · have hroom := (grow_makes hh hsize fill).eq_error hrun
    rw [length_grown] at hroom
    exact Or.inr hroom

/-- Moved words may miss either object, or end past all sizes. None of it is a want of room. -/
theorem moveStop_isFull {sourceStart sourceWords targetStart targetWords n : Nat}
    (hstop : Arena.moveStop sourceStart sourceWords targetStart targetWords n = some s) :
    s.isFull = false := by
  unfold Arena.moveStop at hstop
  repeat' split at hstop
  all_goals
    cases hstop
    try rfl

/-- An edit that stops names something that the object does not have. -/
theorem Edit.outcome_isFull {e : Edit} {v : View} {h : Handle}
    (hstop : (e.outcome v h).2 = some s) : s.isFull = false := by
  have hword (words : List Word) (i : Nat) (w : Word)
      (hend : (storeWord h words i w).2 = some s) : s.isFull = false := by
    unfold storeWord at hend
    split at hend
    · cases hend
    · cases hend
      rfl
  cases e with
  | field i value => exact hword _ _ _ hstop
  | word i w => exact hword _ _ _ hstop
  | allBytes value => cases hstop
  | bytes offset content =>
    simp only [outcome] at hstop
    split at hstop
    · cases hstop
    · cases hstop
      rfl
  | copy source sourceStart targetStart n =>
    simp only [outcome] at hstop
    split at hstop
    · cases hstop
    · split at hstop
      · cases hstop
      · next hmove =>
        cases hstop
        exact moveStop_isFull hmove
  | _ =>
    simp only [outcome] at hstop
    split at hstop
    · cases hstop
    · cases hstop
      rfl

/-- A store may stop half way, and then only the object it was for may have changed. -/
theorem Edit.breaks {e : Edit} {h : Handle} (ht : a.Tiled hs) (hh : h ∈ hs)
    (hsources : ∀ g ∈ e.sources, g ∈ hs) (hrun : e.apply h a = .error s b) :
    a.Breaks [h] s b := by
  obtain ⟨d, hst, hend⟩ :=
    Edit.apply_ends (ht.holds hh) fun g hg => ht.holds (hsources g hg)
  rw [hrun] at hend
  split at hend
  · cases hend
  · next hstop =>
    cases hend
    exact .stored (Edit.outcome_isFull hstop) List.mem_cons_self hst.toWroteIn

/-- An effect stops only where its object finds no room. -/
theorem Effect.Performed.breaks {e : Effect} {source : Source}
    (hp : e.Performed a source (.error (.stop s) d)) : a.Breaks hs s d.arena := by
  rcases hp.result with ⟨r, e, hok⟩ | ⟨n, hfull, hend⟩
  · cases hok
  · cases hend
    exact .full hfull

/-- **A program that carries out a plan stops for want of room only.** -/
theorem Carries.stopsWell {plan : Plan Effect} (hc : Carries prog plan c) :
    StopsWell hs prog c := by
  intro s d hrun
  unfold Carries at hc
  cases hplan : plan.run c.source with
  | mk result source =>
    rw [hplan, hrun] at hc
    cases result with
    | ok e => exact hc.breaks
    | error f => cases hc

/-- What comes first may stop as well, if it only peeks. -/
theorem PrimM.Peeks.stopsWell {α : Type} {first : PrimM α} {next : α → PrimM Ref}
    (hp : Peeks first) (hnext : ∀ x, StopsWell hs (next x) c) :
    StopsWell hs (first >>= next) c := by
  intro s d hrun
  rcases hp.looks c with ⟨x, hend⟩ | ⟨refusal, hend⟩
  · rw [bind_of_ok hend] at hrun
    exact hnext x s d hrun
  · rw [bind_of_error hend] at hrun
    cases hrun
    exact .unchanged (hp.room _ _ _ hend)

/-- Joining strings may meet a handle that is none, and then stops before it makes a string. -/
theorem joinItems_stopsWell (list : Ref) (separator : Option Ref) (c : Context) :
    StopsWell hs (Primitive.joinItems list separator) c := by
  refine (peeks_find _ fun a => neverFull_asList a list).stopsWell fun h => ?_
  refine (peeks_look fun a => neverFull_items a h).stopsWell fun items => ?_
  refine (peeks_look fun a => neverFull_separatorBytes a separator).stopsWell fun between => ?_
  have hprinted : Peeks (StringObject.printAll .needsString items) :=
    peeks_mapM (fun r => peeks_find _ fun a => neverFull_printed a r) items
  refine hprinted.stopsWell fun printed => ?_
  exact (carries_made (Arena.newString_makes _ c.arena)).stopsWell

/-- The plan of a call is carried out whatever lists hold, unless it joins their items. -/
theorem invoke_carries_apart (ht : c.arena.Tiled hs) {args : List Ref}
    (hargs : ∀ r ∈ args, r.Among hs) {name : String}
    (hjoin : Primitive.ofName? name ≠ some .joinStrings) :
    Carries (Primitive.invoke name args)
      (Primitive.planNamed name c.arena.view c.arena.freeWords args) c := by
  unfold Primitive.invoke Primitive.planNamed
  cases hname : Primitive.ofName? name with
  | none => exact carries_refuse _ c
  | some p =>
    refine run_carries (fun r hr => ht.knows (hargs r hr)) fun heq => ?_
    exact absurd (heq ▸ hname) hjoin

/-- **A call stops for want of room, or where a handle is none.** -/
theorem invoke_stopsWell (ht : c.arena.Tiled hs) {args : List Ref}
    (hargs : ∀ r ∈ args, r.Among hs) (name : String) :
    StopsWell gs (Primitive.invoke name args) c := by
  by_cases hjoin : Primitive.ofName? name = some .joinStrings
  · simp only [Primitive.invoke, hjoin, Primitive.run]
    split
    · exact (peeks_argument args 0).stopsWell fun list => joinItems_stopsWell list _ c
    · exact fun s d hrun => nomatch hrun
  · exact (invoke_carries_apart ht hargs hjoin).stopsWell

/-! ## Commands -/

/-- A command that names no other objects than `hs`. Whatever words it stores is left open. -/
def Command.Names (hs : List Handle) : Command → Prop
  | .make _ | .ask _ | .reset => True
  | .grow h _ _ => h ∈ hs
  | .edit h e => h ∈ hs ∧ ∀ g ∈ e.sources, g ∈ hs
  | .invoke _ args => ∀ r ∈ args, r.Among hs

/-- The object that a command edits. A call that stops has stored into none. -/
def Command.edited : Command → List Handle
  | .edit h _ => [h]
  | _ => []

/-- A command changes no object that it does not name. -/
theorem Command.Names.edited_subset {cmd : Command} (hnames : cmd.Names hs) : cmd.edited ⊆ hs := by
  intro g hg
  cases cmd with
  | edit h e =>
    rw [List.mem_singleton.mp hg]
    exact hnames.1
  | _ => cases hg

/-- A command that acts on the arena alone stops as its action does. -/
theorem run_error_of_onArena {α : Type} {cmd : Command} {act : ArenaM α} {k : α → Answer}
    (hact : cmd.act = do return k (← onArena act)) (hrun : cmd.run c = .error s d) :
    act c.arena = .error s d.arena := by
  rw [run_of_onArena act k hact] at hrun
  cases hend : act c.arena with
  | ok x b =>
    rw [hend] at hrun
    cases hrun
  | error t b =>
    rw [hend] at hrun
    cases hrun
    rfl

/-- **A command that stops lacked room, or named something that is not there.** In the first case
nothing but the journal was changed, in the second nothing but payload words of the object that was
edited. -/
theorem Command.run_breaks {cmd : Command} (ht : c.arena.Tiled hs) (hnames : cmd.Names hs)
    (hrun : cmd.run c = .error s d) : c.arena.Breaks cmd.edited s d.arena := by
  cases cmd with
  | make r =>
    exact (Request.fails (run_error_of_onArena (k := fun h => .given (.obj h)) rfl hrun)).breaks
  | grow h payload fill =>
    have hact := run_error_of_onArena (k := fun h => .given (.obj h)) rfl hrun
    exact (Arena.grow_fails (ht.holds hnames) hact).breaks
  | edit h e =>
    have hact := run_error_of_onArena (k := fun _ => .done) rfl hrun
    exact Edit.breaks ht hnames.1 hnames.2 hact
  | ask q =>
    rw [run_ask] at hrun
    split at hrun
    · cases hrun
    · next hread =>
      cases hrun
      exact .unchanged (neverFull_query _ q _ hread)
  | invoke name args =>
    rw [run_invoke] at hrun
    split at hrun
    · cases hrun
    · cases hrun
    · next hend =>
      cases hrun
      exact invoke_stopsWell ht hnames name _ _ hend
  | reset => cases hrun

/-- The payload words of the object that a command asks for, where the command alone decides
them. -/
def Command.asked? : Command → Option Nat
  | .make r => some r.payload
  | .grow _ payload _ => some payload
  | _ => none

/-- Of the ways to fail, only the recorded one is a want of room. -/
theorem Arena.FailsToMake.of_isFull {n : Nat} (hf : a.FailsToMake n s b) (hfull : s.isFull = true) :
    s = a.exhaustion n ∧ b = a.refused n := by
  rcases hf with ⟨hother, -⟩ | ⟨-, hends⟩
  · rw [hfull] at hother
    cases hother
  · exact hends

/-- **A command that stops for want of room lacked it for the object that it asks for.** -/
theorem Command.run_full {cmd : Command} (ht : c.arena.Tiled hs) (hnames : cmd.Names hs)
    (hrun : cmd.run c = .error s d) (hfull : s.isFull = true) :
    ∃ n, s = c.arena.exhaustion n ∧ d.arena = c.arena.refused n ∧ ∀ m ∈ cmd.asked?, m = n := by
  -- a command that names no size stops like any other
  have hunnamed (hnone : cmd.asked? = none) :
      ∃ n, s = c.arena.exhaustion n ∧ d.arena = c.arena.refused n ∧ ∀ m ∈ cmd.asked?, m = n := by
    have hbreaks := cmd.run_breaks ht hnames hrun
    rw [hnone]
    generalize d.arena = b at hbreaks
    cases hbreaks with
    | @full n _ => exact ⟨n, rfl, rfl, fun m hm => by cases hm⟩
    | unchanged hother => rw [hfull] at hother; cases hother
    | stored hother => rw [hfull] at hother; cases hother
  cases cmd with
  | make r =>
    have hact := run_error_of_onArena (k := fun h => .given (.obj h)) rfl hrun
    obtain ⟨hs, hd⟩ := (Request.fails hact).of_isFull hfull
    exact ⟨_, hs, hd, fun m hm => (Option.some.inj hm).symm⟩
  | grow h payload fill =>
    have hact := run_error_of_onArena (k := fun h => .given (.obj h)) rfl hrun
    obtain ⟨hs, hd⟩ := (Arena.grow_fails (ht.holds hnames) hact).of_isFull hfull
    exact ⟨_, hs, hd, fun m hm => (Option.some.inj hm).symm⟩
  | _ => exact hunnamed rfl

end Stops

end ObjectMemory
