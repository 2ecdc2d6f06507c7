import ObjectMemory.Proofs.Sequences

/-!
# A heap of sequences

A program that never looks behind the primitives sees a heap in which each list is a `Sequence`.
What a call does to this heap is said by a `Verdict`, which knows nothing of words, counts and
slots: `ListCall.verdict`.
-/

namespace ObjectMemory

/-! ## The heap -/

/-- The lists of a program. -/
abbrev Heap := Handle → Option Sequence

namespace Heap

/-- The list that a reference names. -/
def list? (heap : Heap) : Ref → Option (Handle × Sequence)
  | .obj h => (heap h).map fun s => (h, s)
  | _ => none

def set (heap : Heap) (h : Handle) (s : Sequence) : Heap := fun g =>
  if g = h then some s else heap g

end Heap

/-- A call of a primitive on lists, with its selector read. -/
inductive ListCall where
  /-- There are too few arguments. -/
  | incomplete
  | makeList (items : List Ref)
  | newList (capacity : Option Ref)
  | addLast (list item : Ref)
  | delete (list : Ref) (s : Option Selector)
  | getItem (list : Ref) (s : Option Selector)
  | putItem (list : Ref) (s : Option Selector) (value : Ref)
  | fill (list value : Ref)
  | length (list : Ref)
  | copyFromTo (list first : Ref) (last : Option Ref)
  | join (parts : List Ref)

/-- What a call comes to. -/
inductive Verdict where
  /-- It gives one of these references. -/
  | oneOf (rs : List Ref)
  /-- A list becomes another sequence. -/
  | change (h : Handle) (s : Sequence) (r : Ref)
  /-- There is a new list. -/
  | make (s : Sequence)
  | refuse (f : Failure)

namespace Verdict

/-- Goes on with what is there, or refuses. -/
def need {α : Type} (f : Failure) (found : Option α) (next : α → Verdict) : Verdict :=
  match found with
  | some x => next x
  | none => refuse f

/-- The item that a selector names. -/
def item (items : List Ref) : Selector → Verdict
  | .index i => if 1 ≤ i ∧ i ≤ items.length then oneOf [items.getD (i.toNat - 1) .nil]
    else refuse .indexOutOfRange
  | .last => need .indexOutOfRange items.getLast? fun r => oneOf [r]
  | .random => if items = [] then refuse .indexOutOfRange else oneOf items
  | .all => refuse .needsIntegerIndex

/-- The items with those that a selector names replaced. -/
def replaced (h : Handle) (s : Sequence) (value : Ref) : Selector → Verdict
  | .index i => if 1 ≤ i ∧ i ≤ s.items.length then
      change h ⟨s.items.set (i.toNat - 1) value.kept, s.capacity⟩ .false
    else refuse .indexOutOfRange
  | .last => if s.items = [] then refuse .indexOutOfRange
    else change h ⟨s.items.set (s.items.length - 1) value.kept, s.capacity⟩ .false
  | .all => change h ⟨List.replicate s.items.length value.kept, s.capacity⟩ .false
  | .random => refuse .needsIntegerIndex

/-- The items without those that a selector names. -/
def deleted (h : Handle) (s : Sequence) : Option Selector → Verdict
  | some (.index i) => if 1 ≤ i ∧ i ≤ s.items.length then
      change h ⟨s.items.eraseIdx (i.toNat - 1), s.capacity⟩ .false
    else refuse .indexOutOfRange
  | some .last => change h ⟨s.items.dropLast, s.capacity⟩ .false
  | some .all => change h ⟨[], s.capacity⟩ .false
  | some .random | none => refuse .needsInteger

end Verdict

namespace ListCall

open Verdict (oneOf change make refuse need)

/-- What a call comes to in a heap. -/
def verdict (heap : Heap) : ListCall → Verdict
  | incomplete => refuse .notEnoughArguments
  | makeList items => make ⟨items.map Ref.kept, items.length⟩
  | newList capacity =>
    match capacity with
    | some (.int n) => make ⟨[], max 2 n.toNat⟩
    | _ => make ⟨[], 2⟩
  | addLast list item =>
    need .needsList (heap.list? list) fun (h, s) =>
      let items := s.items ++ [item.kept]
      if s.items.length < s.capacity then change h ⟨items, s.capacity⟩ (.obj h)
      else make ⟨items, s.capacity + max 4 (min 100 (s.capacity / 3))⟩
  | delete list selector =>
    need .needsList (heap.list? list) fun (h, s) => Verdict.deleted h s selector
  | getItem list selector =>
    need .needsList (heap.list? list) fun (_, s) =>
      need .needsIntegerIndex selector fun place => Verdict.item s.items place
  | putItem list selector value =>
    need .needsList (heap.list? list) fun (h, s) =>
      need .needsIntegerIndex selector fun place => Verdict.replaced h s value place
  | fill list value =>
    need .needsList (heap.list? list) fun (h, s) =>
      change h ⟨List.replicate s.items.length value.kept, s.capacity⟩ .false
  | length list =>
    need .needsList (heap.list? list) fun (_, s) => oneOf [.int s.items.length]
  | copyFromTo list first last =>
    need .needsInteger first.int? fun first =>
      need .needsInteger (last.mapM Ref.int?) fun last =>
        need .needsIndexable (heap.list? list) fun (_, s) =>
          let items := slice s.items first last
          make ⟨items, items.length⟩
  | join parts =>
    need .needsIndexable (parts.head?.bind heap.list?) fun _ =>
      need .joinArgsNotSameType (parts.mapM heap.list?) fun lists =>
        let items := lists.flatMap fun part => part.2.items
        make ⟨items, items.length⟩

end ListCall

/-! ## Calls by name -/

/-- Does the reference name a string or a byte array? -/
def View.holdsBytes (v : View) (r : Ref) : Bool :=
  match v.container? r with
  | some (.string _) | some (.byteArray _) => true
  | _ => false

/-- The call on lists that a call of a primitive is. Calls on strings and byte arrays are none.
The view is asked for these and for the texts of selectors only. -/
def Primitive.listCall? (p : Primitive) (v : View) (args : List Ref) : Option ListCall :=
  let arg (i : Nat) : Ref := args.getD i .nil
  let unlessBytes (r : Ref) (call : ListCall) : Option ListCall :=
    if v.holdsBytes r then none else some call
  if args.length < p.arity then some .incomplete
  else
    match p with
    | .makeList => some (.makeList args)
    | .newList => some (.newList args[0]?)
    | .addLast => some (.addLast (arg 1) (arg 0))
    | .delete => some (.delete (arg 1) (v.selector? (arg 0)))
    | .getItem => unlessBytes (arg 1) (.getItem (arg 1) (v.selector? (arg 0)))
    | .putItem => unlessBytes (arg 1) (.putItem (arg 1) (v.selector? (arg 0)) (arg 2))
    | .fill => unlessBytes (arg 0) (.fill (arg 0) (arg 1))
    | .length => unlessBytes (arg 0) (.length (arg 0))
    | .copyFromTo => unlessBytes (arg 0) (.copyFromTo (arg 0) (arg 1) args[2]?)
    | .join => unlessBytes (arg 0) (.join args)
    | .findInString | .joinStrings | .freeMemory => none

/-- The call on lists that a call by name is. -/
def Primitive.listCallNamed? (v : View) (name : String) (args : List Ref) : Option ListCall :=
  (ofName? name).bind fun p => p.listCall? v args

end ObjectMemory
