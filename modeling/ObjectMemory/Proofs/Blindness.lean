import ObjectMemory.Proofs.Cost

/-!
# Programs that never draw

A program is `Blind` if it comes to the same with every random source and leaves the source as it
was. Programs that only look at the arena or change it are, and so is a program made of blind
parts. All primitives are blind but `at`, and nothing about this depends on what the arena holds:
a blind program may be refused or stop, and does so with every source.
-/

namespace ObjectMemory

open PrimM (refuse find look onArena)

namespace PrimM

variable {α β : Type} {a : Arena}

/-- On the arena `a` the program comes to the same with every random source, and leaves it. -/
def BlindOn (prog : PrimM α) (a : Arena) : Prop :=
  (∃ x b, ∀ s, prog ⟨a, s⟩ = .ok x ⟨b, s⟩) ∨ ∃ refusal b, ∀ s, prog ⟨a, s⟩ = .error refusal ⟨b, s⟩

/-- The program never looks at the random source. -/
def Blind (prog : PrimM α) : Prop :=
  ∀ a, prog.BlindOn a

/-- Where the first part is blind and comes to a value, only the second part may still look. -/
theorem BlindOn.bind {prog : PrimM α} {next : α → PrimM β} (hp : prog.BlindOn a)
    (hnext : ∀ x b, (∀ s, prog ⟨a, s⟩ = .ok x ⟨b, s⟩) → (next x).BlindOn b) :
    BlindOn (prog >>= next) a := by
  rcases hp with ⟨x, b, hrun⟩ | ⟨refusal, b, hrun⟩
  · rcases hnext x b hrun with ⟨y, d, hthen⟩ | ⟨refusal, d, hthen⟩
    · refine Or.inl ⟨y, d, fun s => ?_⟩
      rw [bind_of_ok (hrun s), hthen]
    · refine Or.inr ⟨refusal, d, fun s => ?_⟩
      rw [bind_of_ok (hrun s), hthen]
  · exact Or.inr ⟨refusal, b, fun s => bind_of_error (hrun s)⟩

/-- A program in two blind parts is blind. -/
theorem Blind.bind {prog : PrimM α} {next : α → PrimM β} (hp : prog.Blind)
    (hnext : ∀ x, (next x).Blind) : Blind (prog >>= next) :=
  fun a => (hp a).bind fun x b _ => hnext x b

theorem blind_pure (x : α) : Blind (pure x : PrimM α) :=
  fun a => Or.inl ⟨x, a, fun _ => rfl⟩

theorem blind_refuse (f : Failure) : Blind (refuse f : PrimM α) :=
  fun a => Or.inr ⟨_, a, fun _ => rfl⟩

/-- What is read off the arena does not depend on the source, stops included. -/
theorem blind_look (read : Arena → Except Stop α) : Blind (look read) := by
  intro a
  cases hread : read a with
  | ok x =>
    refine Or.inl ⟨x, a, fun s => ?_⟩
    simp only [look, hread]
  | error stop =>
    refine Or.inr ⟨.stop stop, a, fun s => ?_⟩
    simp only [look, hread]

/-- What is done to the arena does not depend on the source, stops included. -/
theorem blind_onArena (act : ArenaM α) : Blind (onArena act) := by
  intro a
  cases hrun : act a with
  | ok x b =>
    refine Or.inl ⟨x, b, fun s => ?_⟩
    simp only [onArena, hrun]
  | error stop b =>
    refine Or.inr ⟨.stop stop, b, fun s => ?_⟩
    simp only [onArena, hrun]

theorem blind_find (f : Failure) (read : Arena → Except Stop (Option α)) :
    Blind (find f read) := by
  refine (blind_look read).bind fun found => ?_
  cases found with
  | none => exact blind_refuse f
  | some x => exact blind_pure x

/-- A walk through a row is blind if it is at each member. -/
theorem blind_mapM {prog : α → PrimM β} (hp : ∀ x, (prog x).Blind) (xs : List α) :
    Blind (xs.mapM prog) := by
  induction xs with
  | nil => exact blind_pure []
  | cons x rest ih =>
    rw [List.mapM_cons]
    exact (hp x).bind fun y => ih.bind fun ys => blind_pure _

theorem blind_argument (args : List Ref) (i : Nat) : Blind (Primitive.argument args i) := by
  unfold Primitive.argument
  split
  · exact blind_pure _
  · exact fun a => Or.inr ⟨_, a, fun _ => rfl⟩

/-- An action on the arena that ends the program with its handle. -/
theorem blind_made (act : ArenaM Handle) :
    Blind (onArena act >>= fun h => pure (Ref.obj h)) :=
  (blind_onArena act).bind fun _ => blind_pure _

theorem blind_stored (act : ArenaM Unit) (r : Ref) :
    Blind (onArena act >>= fun _ => pure r) :=
  (blind_onArena act).bind fun _ => blind_pure r

end PrimM

open PrimM

/-! ## Primitives that never draw -/

/-- An append stores in the same place with every source, in the list or in its copy. -/
theorem addLast_blind (list item : Ref) : (ListObject.addLast list item).Blind := by
  refine (blind_find _ _).bind fun old => (blind_look _).bind fun n => ?_
  refine (blind_look _).bind fun room => ?_
  have hstore (h : Handle) : Blind (do
      onArena (Arena.setField h (n + 1) item)
      onArena (ListObject.setCount h (n + 1))
      return (.obj h : Ref)) :=
    (blind_onArena _).bind fun _ => blind_stored _ _
  split
  · exact (blind_onArena _).bind hstore
  · exact (blind_pure old).bind hstore

/-- A removal refuses to pick its place, and otherwise has no use for the source. -/
theorem delete_blind (list selector : Ref) : (ListObject.delete list selector).Blind := by
  refine (blind_find _ _).bind fun h => (blind_look _).bind fun n => ?_
  refine (blind_look _).bind fun parsed => ?_
  rcases parsed with _ | (i | _ | _ | _)
  · exact blind_refuse _
  · dsimp only
    split
    · exact blind_stored _ _
    · exact blind_refuse _
  · dsimp only
    split
    · exact (blind_onArena _).bind fun _ => blind_stored _ _
    · exact blind_pure _
  · exact blind_refuse _
  · exact (blind_look _).bind fun words => blind_stored _ _

theorem blind_printAll (f : Failure) (parts : List Ref) : (StringObject.printAll f parts).Blind :=
  blind_mapM (fun _ => blind_find _ _) parts

theorem join_blind (parts : List Ref) : (Container.join parts).Blind := by
  match parts with
  | [] => exact blind_refuse _
  | [_] => exact blind_refuse _
  | first :: second :: rest =>
    refine (blind_look _).bind fun found => ?_
    rcases found with _ | (h | h | h)
    · exact blind_refuse _
    · exact (blind_mapM (fun _ => blind_find _ _) _).bind fun lists => blind_made _
    · exact (blind_printAll _ _).bind fun printed => blind_made _
    · exact blind_refuse _

theorem blind_needInteger (r : Ref) : (Container.needInteger r).Blind := by
  unfold Container.needInteger
  split
  · exact blind_pure _
  · exact blind_refuse _

/-- Ends that were left out are filled in from the length. -/
theorem copyFromTo_blind (source first : Ref) (last : Option Ref) :
    (Container.copyFromTo source first last).Blind := by
  have hlast : Blind (last.mapM Container.needInteger) := by
    cases last with
    | none => exact blind_pure none
    | some r => exact (blind_needInteger r).bind fun n => blind_pure (some n)
  refine (blind_needInteger first).bind fun first => hlast.bind fun last => ?_
  refine (blind_look _).bind fun found => ?_
  rcases found with _ | (h | h | h)
  · exact blind_refuse _
  · exact blind_made _
  · exact blind_made _
  · exact blind_refuse _

/-- A search starts where it was told to, or at the front. -/
theorem search_blind (needle haystack : Ref) (start : Option Ref) :
    (Primitive.search needle haystack start).Blind := by
  refine (blind_find _ _).bind fun small => (blind_find _ _).bind fun large => ?_
  exact (blind_look _).bind fun _ => (blind_look _).bind fun _ => blind_pure _

theorem joinItems_blind (list : Ref) (separator : Option Ref) :
    (Primitive.joinItems list separator).Blind := by
  refine (blind_find _ _).bind fun h => (blind_look _).bind fun items => ?_
  exact (blind_look _).bind fun between => (blind_printAll _ _).bind fun printed => blind_made _

theorem length_blind (container : Ref) : (Container.length container).Blind := by
  refine (blind_find _ _).bind fun target => ?_
  cases target <;> exact (blind_look _).bind fun _ => blind_pure _

theorem blind_needByte (value : Ref) : (ByteArrayObject.needByte value).Blind := by
  unfold ByteArrayObject.needByte
  split
  · exact blind_pure _
  · exact blind_refuse _

/-- Filling goes through all places. -/
theorem fill_blind (container value : Ref) : (Container.fill container value).Blind := by
  refine (blind_look _).bind fun found => ?_
  rcases found with _ | (h | h | h)
  · exact blind_refuse _
  · exact blind_stored _ _
  · exact blind_refuse _
  · exact (blind_needByte value).bind fun b => blind_stored _ _

/-! ## Places -/

/-- A place that is not picked at random needs no source. -/
theorem resolve_blind {place : Selector} {n : Nat} (hplace : place = .random → n = 0) :
    (place.resolve n).Blind := by
  have hcheck (i : Int) : Blind (Selector.checkPlace i n) := by
    unfold Selector.checkPlace
    split
    · exact blind_pure _
    · exact blind_refuse _
  cases place with
  | index i => exact hcheck i
  | last => exact hcheck n
  | all => exact blind_refuse _
  | random =>
    obtain rfl := hplace rfl
    exact blind_refuse _

/-- Storing refuses to pick its place, unlike reading. -/
theorem putItem_blind (container selector value : Ref) :
    (Container.put container selector value).Blind := by
  refine (blind_find _ _).bind fun target => (blind_find _ _).bind fun place => ?_
  cases target with
  | string h => exact blind_refuse _
  | list h =>
    refine (blind_look _).bind fun n => ?_
    cases place with
    | random => exact blind_refuse _
    | all => exact blind_stored _ _
    | _ => exact (resolve_blind (by rintro ⟨⟩)).bind fun i => blind_stored _ _
  | byteArray h =>
    refine (blind_needByte value).bind fun b => ?_
    cases place with
    | random => exact blind_refuse _
    | all => exact blind_stored _ _
    | _ =>
      exact (blind_look _).bind fun n =>
        (resolve_blind (by rintro ⟨⟩)).bind fun i => blind_stored _ _

end ObjectMemory
