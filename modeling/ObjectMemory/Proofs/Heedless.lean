import ObjectMemory.Primitive
import ObjectMemory.Proofs.Access

/-!
# The journal is written and never read

An action is `Heedless` if it comes to the same whatever the journal holds, and leaves the same but
for the journal. Reading functions do not look at the journal, changes of the words and the counts
leave it, and a new event goes to its end. So all actions on an arena are heedless, and all
primitives (`invoke_heedless`). Nothing about this depends on what the arena holds or on whether
the arguments were issued.
-/

namespace ObjectMemory

/-- The same arena with another journal. -/
def Arena.relogged (a : Arena) (journal : Array Event) : Arena :=
  { a with journal }

/-- The same context with another journal. -/
def Context.relogged (c : Context) (journal : Array Event) : Context :=
  ⟨c.arena.relogged journal, c.source⟩

/-! ## Heedless actions -/

section Rules

variable {ε σ α β : Type} {relog : σ → Array Event → σ}

/-- The same outcome with another journal. -/
def relogOutcome (relog : σ → Array Event → σ) (journal : Array Event) :
    EStateM.Result ε σ α → EStateM.Result ε σ α
  | .ok x s => .ok x (relog s journal)
  | .error e s => .error e (relog s journal)

/-- The action never looks at the journal. -/
def Heedless (relog : σ → Array Event → σ) (act : EStateM ε σ α) : Prop :=
  ∀ s j, ∃ k, act (relog s j) = relogOutcome relog k (act s)

/-- A value is given whatever the journal holds. -/
theorem heedless_pure (x : α) : Heedless relog (pure x : EStateM ε σ α) :=
  fun _ j => ⟨j, rfl⟩

theorem heedless_throw (e : ε) : Heedless relog (throw e : EStateM ε σ α) :=
  fun _ j => ⟨j, rfl⟩

/-- **Heedless actions may follow one another**, also where the second depends on the first. -/
theorem Heedless.bind {act : EStateM ε σ α} {next : α → EStateM ε σ β}
    (hact : Heedless relog act) (hnext : ∀ x, Heedless relog (next x)) :
    Heedless relog (act >>= next) := by
  intro s j
  obtain ⟨k, hk⟩ := hact s j
  cases hrun : act s with
  | ok x t =>
    rw [hrun] at hk
    rw [bind_of_ok hrun, bind_of_ok hk]
    exact hnext x t k
  | error e t =>
    rw [hrun] at hk
    rw [bind_of_error hrun, bind_of_error hk]
    exact ⟨k, rfl⟩

/-- A change may add to the journal, but what else it does must not depend on it. -/
theorem heedless_modify {change : σ → σ}
    (hchange : ∀ s j, ∃ k, change (relog s j) = relog (change s) k) :
    Heedless relog (modify change : EStateM ε σ PUnit) := by
  intro s j
  obtain ⟨k, hk⟩ := hchange s j
  exact ⟨k, congrArg (EStateM.Result.ok PUnit.unit) hk⟩

/-- Whoever looks at the whole state must not look at its journal. -/
theorem heedless_get {next : σ → EStateM ε σ β} (hblind : ∀ s j, next (relog s j) = next s)
    (hnext : ∀ s, Heedless relog (next s)) :
    Heedless relog (do next (← get)) := by
  intro s j
  obtain ⟨k, hk⟩ := hnext s s j
  refine ⟨k, ?_⟩
  show next (relog s j) (relog s j) = _
  rw [hblind]
  exact hk

/-- One heedless action for each member of a row. -/
theorem heedless_mapM {act : α → EStateM ε σ β} (hact : ∀ x, Heedless relog (act x))
    (xs : List α) : Heedless relog (xs.mapM act) := by
  induction xs with
  | nil => exact heedless_pure []
  | cons x rest ih =>
    rw [List.mapM_cons]
    exact (hact x).bind fun y => ih.bind fun ys => heedless_pure _

end Rules

/-! ## Actions on an arena -/

namespace Arena

/-- The action on an arena never looks at the journal. -/
abbrev ActsHeedless {α : Type} (act : ArenaM α) : Prop :=
  Heedless relogged act

variable {α : Type}

/-- A reading that comes to the same for every journal. -/
theorem heedless_look {read : Arena → Except Stop α}
    (hread : ∀ a j, read (a.relogged j) = read a) : ActsHeedless (look read) := by
  intro a j
  refine ⟨j, ?_⟩
  simp only [look, hread]
  cases read a <;> rfl

/-- An event goes to the end of the journal, whatever stands there. -/
theorem heedless_note (e : Event) : ActsHeedless (note e) :=
  heedless_modify fun _ j => ⟨j.push e, rfl⟩

theorem heedless_alter (change : Store → Store) : ActsHeedless (alter change) :=
  heedless_modify fun _ j => ⟨j, rfl⟩

theorem heedless_tally (change : Counters → Counters) : ActsHeedless (tally change) :=
  heedless_modify fun _ j => ⟨j, rfl⟩

/-- The check against the arena's end looks at the capacity only. -/
theorem heedless_reach (past : Nat) : ActsHeedless (reach past) := by
  refine heedless_get (fun _ _ => rfl) fun a => ?_
  split
  · exact heedless_throw _
  · exact heedless_pure _

/-- The report of a want of room is worked out from the used words and the capacity. -/
theorem heedless_exhaust (requested : Nat) : ActsHeedless (exhaust requested : ArenaM α) :=
  heedless_get (fun _ _ => rfl) fun _ => (heedless_note _).bind fun _ => heedless_throw _

theorem heedless_place (header : Header) (payload : Nat) (fill : Word) :
    ActsHeedless (modify fun a => a.place header payload fill) :=
  heedless_modify fun _ j => ⟨j, rfl⟩

/-- What is placed, counted and recorded is worked out from the words that are used. -/
theorem heedless_allot (cls : ObjClass) (payload : Nat) (fill : Ref) :
    ActsHeedless (allot cls payload fill) := by
  refine heedless_get (fun _ _ => rfl) fun a => ?_
  dsimp only
  split
  · refine (heedless_look fun _ _ => rfl).bind fun header => ?_
    refine (heedless_place _ _ _).bind fun _ => ?_
    exact (heedless_note _).bind fun _ => heedless_pure _
  · exact heedless_exhaust _

theorem heedless_allocate (cls : ObjClass) (payload : Nat) (fill : Ref) :
    ActsHeedless (allocate cls payload fill) :=
  (heedless_look fun _ _ => rfl).bind fun _ => heedless_allot _ _ _

/-- A copy is made by an allocation, a move of words and two events. -/
theorem heedless_grow (h : Handle) (payload : Nat) (fill : Ref) :
    ActsHeedless (grow h payload fill) := by
  refine (heedless_look fun _ _ => rfl).bind fun header => ?_
  refine (heedless_allocate _ _ _).bind fun copy => (heedless_reach _).bind fun _ => ?_
  refine (heedless_alter _).bind fun _ => (heedless_tally _).bind fun _ => ?_
  exact (heedless_note _).bind fun _ => heedless_pure _

/-- A store finds its place by the header, and changes a word. -/
theorem heedless_setPayloadWord (h : Handle) (i : Nat) (w : Word) :
    ActsHeedless (setPayloadWord h i w) :=
  (heedless_look fun _ _ => rfl).bind fun _ => heedless_alter _

theorem heedless_setField (h : Handle) (i : Nat) (value : Ref) :
    ActsHeedless (setField h i value) :=
  heedless_setPayloadWord h i _

/-- A range is filled after checks on the header and the capacity. -/
theorem heedless_fillFields (h : Handle) (first past : Nat) (value : Ref) :
    ActsHeedless (fillFields h first past value) := by
  unfold fillFields
  split
  · refine (heedless_look fun _ _ => rfl).bind fun n => ?_
    have hrest : ActsHeedless (do
        reach (h.index + 1 + past)
        alter (·.fill (h.index + 1 + first) value.toWord (past - first))) :=
      (heedless_reach _).bind fun _ => heedless_alter _
    split
    · exact (heedless_throw _).bind fun _ => hrest
    · exact hrest
  · exact heedless_pure _

/-- A range is copied after checks on two sums, two headers and the capacity. -/
theorem heedless_copyFields (source : Handle) (sourceStart : Nat) (target : Handle)
    (targetStart n : Nat) :
    ActsHeedless (copyFields source sourceStart target targetStart n) := by
  unfold copyFields
  split
  · refine (heedless_look fun _ _ => rfl).bind fun sourcePast => ?_
    refine (heedless_look fun _ _ => rfl).bind fun sourceWords => ?_
    split
    · exact heedless_throw _
    · refine (heedless_look fun _ _ => rfl).bind fun targetPast => ?_
      refine (heedless_look fun _ _ => rfl).bind fun targetWords => ?_
      split
      · exact heedless_throw _
      · refine (heedless_reach _).bind fun _ => (heedless_reach _).bind fun _ => ?_
        exact heedless_alter _
  · exact heedless_pure _

/-! ### Bytes -/

theorem heedless_setByte (h : Handle) (i : Nat) (b : UInt8) : ActsHeedless (setByte h i b) :=
  (heedless_look fun _ _ => rfl).bind fun _ => heedless_setPayloadWord h _ _

/-- Bytes are written one after the other, by induction on the bytes that are left. -/
theorem heedless_writeBytes (h : Handle) (offset : Nat) (bytes : List UInt8) :
    ActsHeedless (writeBytes h offset bytes) := by
  induction bytes generalizing offset with
  | nil => exact heedless_pure _
  | cons b rest ih => exact (heedless_setByte h offset b).bind fun _ => ih (offset + 1)

theorem heedless_fillBytes (h : Handle) (b : UInt8) : ActsHeedless (fillBytes h b) := by
  refine (heedless_look fun _ _ => rfl).bind fun n => ?_
  refine heedless_get (fun _ _ => rfl) fun a => ?_
  exact (heedless_alter _).bind fun _ => heedless_reach _

theorem heedless_allocString (n : Nat) : ActsHeedless (allocString n) :=
  (heedless_look fun _ _ => rfl).bind fun _ => heedless_allocate _ _ _

/-- A string is placed and then written byte by byte. -/
theorem heedless_newString (bytes : List UInt8) : ActsHeedless (newString bytes) :=
  (heedless_allot _ _ _).bind fun _ =>
    (heedless_writeBytes _ _ _).bind fun _ => heedless_pure _

theorem heedless_newSlice (bytes : List UInt8) (first last : Nat) :
    ActsHeedless (StringObject.newSlice bytes first last) := by
  unfold StringObject.newSlice
  split
  · exact heedless_newString _
  · exact heedless_throw _

/-- Part of a string is cut out, or an empty string is made. -/
theorem heedless_copyText (h : Handle) (first : Int) (last : Option Int) :
    ActsHeedless (StringObject.copyFromTo h first last) := by
  have hpart (bytes : List UInt8) (start past : Int) : ActsHeedless
      (if past < start then allocString 0
        else StringObject.newSlice bytes start.toNat past.toNat) := by
    split
    · exact heedless_allocString 0
    · exact heedless_newSlice _ _ _
  exact (heedless_look fun _ _ => rfl).bind fun bytes => hpart bytes _ _

/-! ### Lists -/

theorem heedless_setCount (h : Handle) (n : Nat) : ActsHeedless (ListObject.setCount h n) :=
  heedless_setField h 0 _

/-- Items are stored one after the other, by induction on the items that are left. -/
theorem heedless_storeFrom (h : Handle) (i : Nat) (items : List Ref) :
    ActsHeedless (ListObject.storeFrom h i items) := by
  induction items generalizing i with
  | nil => exact heedless_pure _
  | cons r rest ih => exact (heedless_setField h i r).bind fun _ => ih (i + 1)

theorem heedless_ofItems (items : List Ref) : ActsHeedless (ListObject.ofItems items) := by
  refine (heedless_allot _ _ _).bind fun h => (heedless_setCount _ _).bind fun _ => ?_
  exact (heedless_storeFrom _ _ _).bind fun _ => heedless_pure _

/-- A larger list is a copy and one more event. -/
theorem heedless_enlarge (h : Handle) (capacity : Nat) :
    ActsHeedless (ListObject.enlarge h capacity) :=
  (heedless_grow _ _ _).bind fun _ => (heedless_note _).bind fun _ => heedless_pure _

/-- Later items move down, and two words are stored. -/
theorem heedless_deleteItem (h : Handle) (i n : Nat) :
    ActsHeedless (ListObject.deleteItem h i n) :=
  (heedless_copyFields _ _ _ _ _).bind fun _ =>
    (heedless_setField _ _ _).bind fun _ => heedless_setCount _ _

theorem heedless_fill (h : Handle) (value : Ref) : ActsHeedless (ListObject.fill h value) :=
  (heedless_look fun _ _ => rfl).bind fun _ => heedless_fillFields _ _ _ _

/-- Part of a list is a new list whose items are moved in at once. -/
theorem heedless_copyItems (h : Handle) (first : Int) (last : Option Int) :
    ActsHeedless (ListObject.copyFromTo h first last) := by
  refine (heedless_look fun _ _ => rfl).bind fun n => ?_
  refine (heedless_allot _ _ _).bind fun result => (heedless_setCount _ _).bind fun _ => ?_
  exact (heedless_copyFields _ _ _ _ _).bind fun _ => heedless_pure _

/-- Items of lists are moved in one list after the other. -/
theorem heedless_appendFrom (result : Handle) (i : Nat) (lists : List Handle) :
    ActsHeedless (ListObject.appendFrom result i lists) := by
  induction lists generalizing i with
  | nil => exact heedless_pure _
  | cons h rest ih =>
    refine (heedless_look fun _ _ => rfl).bind fun n => ?_
    exact (heedless_copyFields _ _ _ _ _).bind fun _ => ih (i + n)

/-- Lists are joined by counting them first and moving their items in afterwards. -/
theorem heedless_join (lists : List Handle) : ActsHeedless (ListObject.join lists) := by
  refine (heedless_look fun _ _ => rfl).bind fun counts => ?_
  refine (heedless_allot _ _ _).bind fun result => (heedless_setCount _ _).bind fun _ => ?_
  exact (heedless_appendFrom _ _ _).bind fun _ => heedless_pure _

end Arena

/-! ## Programs -/

open PrimM (refuse look find onArena pick)

namespace PrimM

/-- The program never looks at the journal. -/
abbrev RunsHeedless {α : Type} (prog : PrimM α) : Prop :=
  Heedless Context.relogged prog

variable {α : Type}

/-- A refusal does not depend on the journal. -/
theorem heedless_refuse (f : Failure) : RunsHeedless (refuse f : PrimM α) :=
  heedless_throw _

theorem heedless_seen {read : Arena → Except Stop α}
    (hread : ∀ a j, read (a.relogged j) = read a) : RunsHeedless (look read) := by
  intro c j
  refine ⟨j, ?_⟩
  simp only [look, Context.relogged, hread]
  cases read c.arena <;> rfl

/-- Something that is looked for and may be missing. -/
theorem heedless_find {f : Failure} {read : Arena → Except Stop (Option α)}
    (hread : ∀ a j, read (a.relogged j) = read a) : RunsHeedless (find f read) := by
  refine (heedless_seen hread).bind fun found => ?_
  cases found with
  | none => exact heedless_refuse f
  | some x => exact heedless_pure x

/-- **A heedless action on the arena is a heedless program.** -/
theorem heedless_onArena {act : ArenaM α} (hact : Arena.ActsHeedless act) :
    RunsHeedless (onArena act) := by
  rintro ⟨a, s⟩ j
  obtain ⟨k, hk⟩ := hact a j
  refine ⟨k, ?_⟩
  simp only [onArena, Context.relogged, hk]
  cases act a <;> rfl

/-- A pick draws from the source and leaves the arena alone. -/
theorem heedless_pick (n : Nat) : RunsHeedless (pick n) := by
  rintro ⟨a, s⟩ j
  refine ⟨j, ?_⟩
  simp only [pick, Context.relogged]
  split <;> rfl

theorem heedless_argument (args : List Ref) (i : Nat) :
    RunsHeedless (Primitive.argument args i) := by
  unfold Primitive.argument
  split
  · exact heedless_pure _
  · exact heedless_throw _

/-- An action on the arena that ends the program with its handle. -/
theorem heedless_made {act : ArenaM Handle} (hact : Arena.ActsHeedless act) :
    RunsHeedless (onArena act >>= fun h => pure (Ref.obj h)) :=
  (heedless_onArena hact).bind fun _ => heedless_pure _

/-- A change of the arena after which the program ends with a value. -/
theorem heedless_stored {act : ArenaM Unit} (hact : Arena.ActsHeedless act) (r : Ref) :
    RunsHeedless (onArena act >>= fun _ => pure r) :=
  (heedless_onArena hact).bind fun _ => heedless_pure r

end PrimM

open PrimM

/-! ### Primitives -/

/-- An item is stored in the list or in a larger copy of it. -/
theorem addLast_heedless (list item : Ref) : (ListObject.addLast list item).RunsHeedless := by
  refine (heedless_find fun _ _ => rfl).bind fun old => ?_
  refine (heedless_seen fun _ _ => rfl).bind fun n => ?_
  refine (heedless_seen fun _ _ => rfl).bind fun room => ?_
  have hstore (h : Handle) : RunsHeedless (do
      onArena (Arena.setField h (n + 1) item)
      onArena (ListObject.setCount h (n + 1))
      return (.obj h : Ref)) :=
    (heedless_onArena (Arena.heedless_setField _ _ _)).bind fun _ =>
      heedless_stored (Arena.heedless_setCount _ _) _
  split
  · exact (heedless_onArena (Arena.heedless_enlarge _ _)).bind hstore
  · exact (heedless_pure old).bind hstore

/-- Which items are deleted depends on the count and the selector. -/
theorem delete_heedless (list selector : Ref) :
    (ListObject.delete list selector).RunsHeedless := by
  refine (heedless_find fun _ _ => rfl).bind fun h => ?_
  refine (heedless_seen fun _ _ => rfl).bind fun n => ?_
  refine (heedless_seen fun _ _ => rfl).bind fun parsed => ?_
  rcases parsed with _ | (i | _ | _ | _)
  · exact heedless_refuse _
  · dsimp only
    split
    · exact heedless_stored (Arena.heedless_deleteItem _ _ _) _
    · exact heedless_refuse _
  · dsimp only
    split
    · exact (heedless_onArena (Arena.heedless_setField _ _ _)).bind fun _ =>
        heedless_stored (Arena.heedless_setCount _ _) _
    · exact heedless_pure _
  · exact heedless_refuse _
  · exact (heedless_seen fun _ _ => rfl).bind fun words =>
      heedless_stored (Arena.heedless_fillFields _ _ _ _) _

theorem heedless_printAll (f : Failure) (parts : List Ref) :
    (StringObject.printAll f parts).RunsHeedless :=
  heedless_mapM (fun r => heedless_find fun _ _ => by cases r <;> rfl) parts

/-- The first part decides whether lists or strings are joined. -/
theorem join_heedless (parts : List Ref) : (Container.join parts).RunsHeedless := by
  match parts with
  | [] => exact heedless_refuse _
  | [_] => exact heedless_refuse _
  | first :: second :: rest =>
    refine (heedless_seen fun _ _ => by cases first <;> rfl).bind fun found => ?_
    rcases found with _ | (h | h | h)
    · exact heedless_refuse _
    · refine (heedless_mapM (fun r => heedless_find fun _ _ => ?_) _).bind fun lists => ?_
      · cases r <;> rfl
      · exact heedless_made (Arena.heedless_join _)
    · exact (heedless_printAll _ _).bind fun printed => heedless_made (Arena.heedless_newString _)
    · exact heedless_refuse _

theorem heedless_needInteger (r : Ref) : (Container.needInteger r).RunsHeedless := by
  unfold Container.needInteger
  split
  · exact heedless_pure _
  · exact heedless_refuse _

/-- The ends of the part are looked at before the object it is taken from. -/
theorem copyFromTo_heedless (source first : Ref) (last : Option Ref) :
    (Container.copyFromTo source first last).RunsHeedless := by
  have hlast : RunsHeedless (last.mapM Container.needInteger) := by
    cases last with
    | none => exact heedless_pure none
    | some r => exact (heedless_needInteger r).bind fun n => heedless_pure (some n)
  refine (heedless_needInteger first).bind fun first => hlast.bind fun last => ?_
  refine (heedless_seen fun _ _ => by cases source <;> rfl).bind fun found => ?_
  rcases found with _ | (h | h | h)
  · exact heedless_refuse _
  · exact heedless_made (Arena.heedless_copyItems _ _ _)
  · exact heedless_made (Arena.heedless_copyText _ _ _)
  · exact heedless_refuse _

theorem search_heedless (needle haystack : Ref) (start : Option Ref) :
    (Primitive.search needle haystack start).RunsHeedless := by
  refine (heedless_find fun _ _ => by cases needle <;> rfl).bind fun small => ?_
  refine (heedless_find fun _ _ => by cases haystack <;> rfl).bind fun large => ?_
  refine (heedless_seen fun _ _ => rfl).bind fun needleBytes => ?_
  exact (heedless_seen fun _ _ => rfl).bind fun haystackBytes => heedless_pure _

theorem joinItems_heedless (list : Ref) (separator : Option Ref) :
    (Primitive.joinItems list separator).RunsHeedless := by
  refine (heedless_find fun _ _ => rfl).bind fun h => ?_
  refine (heedless_seen fun _ _ => rfl).bind fun items => ?_
  refine (heedless_seen fun _ _ => by cases separator <;> rfl).bind fun between => ?_
  exact (heedless_printAll _ _).bind fun printed => heedless_made (Arena.heedless_newString _)

theorem length_heedless (container : Ref) : (Container.length container).RunsHeedless := by
  refine (heedless_find fun _ _ => by cases container <;> rfl).bind fun target => ?_
  cases target <;> exact (heedless_seen fun _ _ => rfl).bind fun _ => heedless_pure _

theorem heedless_needByte (value : Ref) : (ByteArrayObject.needByte value).RunsHeedless := by
  unfold ByteArrayObject.needByte
  split
  · exact heedless_pure _
  · exact heedless_refuse _

theorem fill_heedless (container value : Ref) : (Container.fill container value).RunsHeedless := by
  refine (heedless_seen fun _ _ => by cases container <;> rfl).bind fun found => ?_
  rcases found with _ | (h | h | h)
  · exact heedless_refuse _
  · exact heedless_stored (Arena.heedless_fill _ _) _
  · exact heedless_refuse _
  · exact (heedless_needByte value).bind fun b => heedless_stored (Arena.heedless_fillBytes _ _) _

/-- A place is checked against a count, or picked. -/
theorem heedless_resolve (place : Selector) (n : Nat) : (place.resolve n).RunsHeedless := by
  have hcheck (i : Int) : RunsHeedless (Selector.checkPlace i n) := by
    unfold Selector.checkPlace
    split
    · exact heedless_pure _
    · exact heedless_refuse _
  cases place with
  | index i => exact hcheck i
  | last => exact hcheck n
  | all => exact heedless_refuse _
  | random =>
    unfold Selector.resolve
    dsimp only
    split
    · exact heedless_pick n
    · exact heedless_refuse _

/-- Each kind of container reads items in its own way. -/
theorem getItem_heedless (container selector : Ref) :
    (Container.get container selector).RunsHeedless := by
  refine (heedless_find fun _ _ => by cases container <;> rfl).bind fun target => ?_
  refine (heedless_find fun _ _ => by cases selector <;> rfl).bind fun place => ?_
  cases target with
  | list h =>
    refine (heedless_seen fun _ _ => rfl).bind fun n => ?_
    refine (heedless_resolve _ _).bind fun i => ?_
    exact heedless_seen fun _ _ => rfl
  | string h =>
    refine (heedless_seen fun _ _ => rfl).bind fun bytes => ?_
    exact (heedless_resolve _ _).bind fun i => heedless_made (Arena.heedless_newSlice _ _ _)
  | byteArray h =>
    refine (heedless_seen fun _ _ => rfl).bind fun n => ?_
    refine (heedless_resolve _ _).bind fun i => ?_
    exact (heedless_seen fun _ _ => rfl).bind fun b => heedless_pure _

/-- Each kind of container but strings stores items in its own way. -/
theorem putItem_heedless (container selector value : Ref) :
    (Container.put container selector value).RunsHeedless := by
  refine (heedless_find fun _ _ => by cases container <;> rfl).bind fun target => ?_
  refine (heedless_find fun _ _ => by cases selector <;> rfl).bind fun place => ?_
  cases target with
  | string h => exact heedless_refuse _
  | list h =>
    refine (heedless_seen fun _ _ => rfl).bind fun n => ?_
    cases place with
    | random => exact heedless_refuse _
    | all => exact heedless_stored (Arena.heedless_fillFields _ _ _ _) _
    | _ =>
      exact (heedless_resolve _ _).bind fun i => heedless_stored (Arena.heedless_setField _ _ _) _
  | byteArray h =>
    refine (heedless_needByte value).bind fun b => ?_
    cases place with
    | random => exact heedless_refuse _
    | all => exact heedless_stored (Arena.heedless_fillBytes _ _) _
    | _ =>
      refine (heedless_seen fun _ _ => rfl).bind fun n => ?_
      exact (heedless_resolve _ _).bind fun i => heedless_stored (Arena.heedless_setByte _ _ _) _

/-- **What a primitive does never depends on the journal.** -/
theorem act_heedless (p : Primitive) (args : List Ref) : (p.act args).RunsHeedless := by
  have hone (i : Nat) {next : Ref → PrimM Ref} (hnext : ∀ r, (next r).RunsHeedless) :
      RunsHeedless (do next (← Primitive.argument args i)) :=
    (heedless_argument args i).bind hnext
  have htwo (i k : Nat) {next : Ref → Ref → PrimM Ref} (hnext : ∀ r t, (next r t).RunsHeedless) :
      RunsHeedless (do next (← Primitive.argument args i) (← Primitive.argument args k)) :=
    hone i fun r => hone k (hnext r)
  cases p with
  | makeList => exact heedless_made (Arena.heedless_ofItems _)
  | newList => exact heedless_made (Arena.heedless_allot _ _ _)
  | addLast => exact htwo 1 0 addLast_heedless
  | delete => exact htwo 1 0 delete_heedless
  | join => exact join_heedless args
  | copyFromTo => exact htwo 0 1 fun source first => copyFromTo_heedless source first _
  | findInString => exact htwo 0 1 fun needle haystack => search_heedless needle haystack _
  | joinStrings => exact hone 0 fun list => joinItems_heedless list _
  | freeMemory =>
    show RunsHeedless (look fun a => .ok (Ref.ofCount a.freeWords))
    exact heedless_seen fun _ _ => rfl
  | getItem => exact htwo 1 0 getItem_heedless
  | putItem => exact htwo 1 0 fun container selector => hone 2 (putItem_heedless container selector)
  | fill => exact htwo 0 1 fill_heedless
  | length => exact hone 0 length_heedless

/-- **No primitive ever looks at the journal.** -/
theorem invoke_heedless (name : String) (args : List Ref) :
    (Primitive.invoke name args).RunsHeedless := by
  unfold Primitive.invoke
  split
  · unfold Primitive.run
    split
    · exact act_heedless _ args
    · exact heedless_refuse _
  · exact heedless_refuse _

end ObjectMemory
