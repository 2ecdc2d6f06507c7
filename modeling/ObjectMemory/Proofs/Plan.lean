import ObjectMemory.Proofs.Lists

/-!
# Plans

A primitive first looks at its arguments and at the objects they name, and only then does it do
something, and that is always one thing: it gives a value, it replaces the payload of one object,
or it makes one object. What it looks at it sees through a view, so its decision is a function of
the view. This function is its `Plan`, and what it does in the end an `Effect`.

A plan may draw numbers from the random source, and it may refuse the arguments. It never stops:
that a plan is carried out without any stop but the want of room is shown elsewhere.
-/

namespace ObjectMemory

/-- What a primitive does in the end. -/
inductive Effect where
  /-- It gives a value and leaves everything as it is. -/
  | give (r : Ref)
  /-- It replaces the payload of an object and gives a value. -/
  | rewrite (h : Handle) (words : List Word) (r : Ref)
  /-- It makes an object and gives its handle. -/
  | make (o : Origin) (c : Content)

/-- How a primitive comes to its result. -/
inductive Plan (α : Type) where
  | give (x : α)
  | refuse (f : Failure)
  /-- It goes on with a random pick from 1 to `n`. -/
  | draw (n : Nat) (next : Nat → Plan α)

namespace Plan

variable {α β : Type}

protected def bind : Plan α → (α → Plan β) → Plan β
  | give x, k => k x
  | refuse f, _ => refuse f
  | draw n next, k => draw n fun i => (next i).bind k

instance : Monad Plan where
  pure := give
  bind := Plan.bind

/-- The result of a plan with a random source, and the source after it. -/
def run : Plan α → Source → Except Failure α × Source
  | give x, s => (.ok x, s)
  | refuse f, s => (.error f, s)
  | draw n next, s => (next (s.pick n).1).run (s.pick n).2

/-- The second part goes on with the source that the first one left, unless that one refused. -/
theorem run_bind (p : Plan α) (k : α → Plan β) (s : Source) :
    (p >>= k).run s =
      match p.run s with
      | (.ok x, t) => (k x).run t
      | (.error f, t) => (.error f, t) := by
  induction p generalizing s with
  | give x => rfl
  | refuse f => rfl
  | draw n next ih => exact ih _ _

/-- Every value that the plan may give has the property. -/
def Ensures (P : α → Prop) : Plan α → Prop
  | give x => P x
  | refuse _ => True
  | draw _ next => ∀ i, (next i).Ensures P

theorem Ensures.of_run {P : α → Prop} {p : Plan α} (hp : p.Ensures P) {s t : Source} {x : α}
    (hrun : p.run s = (.ok x, t)) : P x := by
  induction p generalizing s with
  | give y =>
    cases hrun
    exact hp
  | refuse f => cases hrun
  | draw n next ih => exact ih _ (hp _) hrun

/-- A plan in two parts comes to such values if its second part does after each first value. -/
theorem ensures_bind {P : β → Prop} {p : Plan α} {k : α → Plan β} :
    (p >>= k).Ensures P ↔ p.Ensures fun x => (k x).Ensures P := by
  induction p with
  | give x => exact Iff.rfl
  | refuse f => exact Iff.rfl
  | draw n next ih =>
    constructor
    · intro h i
      exact (ih i).mp (h i)
    · intro h i
      exact (ih i).mpr (h i)

theorem ensures_of_forall {P : α → Prop} (h : ∀ x, P x) (p : Plan α) : p.Ensures P := by
  induction p with
  | give x => exact h x
  | refuse f => trivial
  | draw n next ih => exact ih

/-- What the second part comes to from any value, the plan comes to. -/
theorem Ensures.any {P : β → Prop} {k : α → Plan β} (h : ∀ x, (k x).Ensures P) (p : Plan α) :
    (p >>= k).Ensures P :=
  ensures_bind.mpr (ensures_of_forall h p)

theorem Ensures.and {P Q : α → Prop} {p : Plan α} (hp : p.Ensures P) (hq : p.Ensures Q) :
    p.Ensures fun x => P x ∧ Q x := by
  induction p with
  | give x => exact ⟨hp, hq⟩
  | refuse f => trivial
  | draw n next ih =>
    intro i
    exact ih i (hp i) (hq i)

/-! ## Decisions that many primitives share -/

/-- The value, or a refusal if there is none. -/
def need (f : Failure) : Option α → Plan α
  | some x => give x
  | none => refuse f

/-- What was found is known in the rest of the plan. -/
theorem Ensures.need {P : β → Prop} {f : Failure} {found : Option α} {k : α → Plan β}
    (h : ∀ x, found = some x → (k x).Ensures P) : (Plan.need f found >>= k).Ensures P := by
  cases found with
  | none => trivial
  | some x => exact h x rfl

/-- What was found may be read before or after it is needed. -/
theorem need_map_bind (f : Failure) (found : Option α) (g : α → β) {γ : Type}
    (next : β → Plan γ) :
    (need f (found.map g) >>= next) = (need f found >>= fun x => next (g x)) := by
  cases found <;> rfl

/-- The place among `n` items that a selector names. -/
def place (s : Selector) (n : Nat) : Plan Nat :=
  match s with
  | .index i => if 1 ≤ i ∧ i ≤ n then give i.toNat else refuse .indexOutOfRange
  | .last => if 0 < n then give n else refuse .indexOutOfRange
  | .random => if 0 < n then draw n give else refuse .indexOutOfRange
  | .all => refuse .needsIntegerIndex

/-- An index within the bounds is the place, and nothing is drawn. -/
theorem place_index {n i : Nat} (hi : 1 ≤ i ∧ i ≤ n) : place (.index i) n = give i := by
  rw [place, if_pos (by omega)]
  rfl

/-- **A place lies among the items**, whatever the random source. -/
theorem place_bounds {s : Selector} {n i : Nat} {t u : Source}
    (h : (place s n).run t = (.ok i, u)) : 1 ≤ i ∧ i ≤ n := by
  cases s with
  | index j =>
    simp only [place] at h
    split at h
    · cases h
      omega
    · cases h
  | last =>
    simp only [place] at h
    split at h
    · cases h
      omega
    · cases h
  | random =>
    simp only [place] at h
    split at h
    · next hn =>
      cases h
      exact t.pick_bounds hn
    · cases h
  | all => cases h

/-- The byte that a reference stands for. -/
def byte (value : Ref) : Plan UInt8 :=
  match ByteArrayObject.byteValue value with
  | .ok b => give b
  | .error f => refuse f

end Plan

/-! ## Lists -/

namespace Plan

def makeList (items : List Ref) : Plan Effect :=
  give (.make .fresh (.ofItems (items.map Ref.toWord)))

def newList (n : Nat) : Plan Effect :=
  give (.make .fresh ⟨.list, List.replicate (max n ListObject.minCapacity + 1) Content.blank⟩)

def addLast (v : View) (list item : Ref) : Plan Effect := do
  let h ← need .needsList (v.list? list)
  let c := v h
  if c.capacity ≤ c.count then
    give (.make (.largerList h) ⟨.list, Content.appended c.enlarged c.count item⟩)
  else give (.rewrite h (Content.appended c.words c.count item) (.obj h))

def delete (v : View) (list selector : Ref) : Plan Effect := do
  let h ← need .needsList (v.list? list)
  let c := v h
  match v.selector? selector with
  | some .all => give (.rewrite h (List.replicate c.words.length Content.blank) .false)
  | some .last =>
    if 0 < c.count then give (.rewrite h (Content.without c.words c.count c.count) .false)
    else give (.give .false)
  | some (.index i) =>
    if 1 ≤ i ∧ i ≤ c.count then
      give (.rewrite h (Content.without c.words i.toNat c.count) .false)
    else refuse .indexOutOfRange
  | some .random | none => refuse .needsInteger

/-! ## Containers -/

def getItem (v : View) (container selector : Ref) : Plan Effect := do
  let target ← need .needsList (v.container? container)
  let s ← need .needsIntegerIndex (v.selector? selector)
  match target with
  | .list h => do
    let i ← place s (v h).count
    give (.give ((v h).field i))
  | .string h => do
    let i ← place s (CodePoints.count (v h).text)
    give (.make .fresh (.ofText (CodePoints.slice (v h).text i i)))
  | .byteArray h => do
    let i ← place s (v h).bytes.length
    give (.give (.int ((v h).bytes.getD (i - 1) 0).toNat))

/-- A store into a list. -/
def putList (c : Content) (h : Handle) (s : Selector) (value : Ref) : Plan Effect :=
  match s with
  | .random => refuse .needsIntegerIndex
  | .all =>
    give (.rewrite h (splice c.words 1 (List.replicate c.count value.toWord)) .false)
  | s => do
    let i ← place s c.count
    give (.rewrite h (c.words.set i value.toWord) .false)

/-- A store into a byte array. -/
def putBytes (c : Content) (h : Handle) (s : Selector) (b : UInt8) : Plan Effect :=
  match s with
  | .random => refuse .needsIntegerIndex
  | .all => give (.rewrite h (List.replicate c.words.length (Word.ofBytes fun _ => b)) .false)
  | s => do
    let i ← place s c.bytes.length
    give (.rewrite h (Word.putByte c.words (i - 1) b) .false)

def putItem (v : View) (container selector value : Ref) : Plan Effect := do
  let target ← need .needsList (v.container? container)
  let s ← need .needsIntegerIndex (v.selector? selector)
  match target with
  | .list h => putList (v h) h s value
  | .byteArray h => do
    let b ← byte value
    putBytes (v h) h s b
  | .string _ => refuse .needsList

def fill (v : View) (container value : Ref) : Plan Effect :=
  match v.container? container with
  | some (.list h) =>
    let words := (v h).words
    give (.rewrite h (splice words 1 (List.replicate (words.length - 1) value.toWord)) .false)
  | some (.byteArray h) => do
    let b ← byte value
    give (.rewrite h (List.replicate (v h).words.length (Word.ofBytes fun _ => b)) .false)
  | _ => refuse .needsList

def length (v : View) (container : Ref) : Plan Effect := do
  match ← need .needsList (v.container? container) with
  | .list h => give (.give (Ref.ofCount (v h).count))
  | .string h => give (.give (Ref.ofCount (CodePoints.count (v h).text)))
  | .byteArray h => give (.give (Ref.ofCount (v h).bytes.length))

/-- The items from `first` to `last` as a new list. -/
def copyList (c : Content) (first : Int) (last : Option Int) : Effect :=
  let part := ListObject.sliceOf c.count first last
  .make .fresh (.ofItems ((c.words.drop part.1).take part.2))

/-- The code points from `first` to `last` as a new string. -/
def copyText (text : List UInt8) (first : Int) (last : Option Int) : Effect :=
  let part := ListObject.sliceOf (CodePoints.count text) first last
  .make .fresh (.ofText (if part.2 = 0 then [] else
    CodePoints.slice text part.1 (part.1 + part.2 - 1)))

def copyFromTo (v : View) (source first : Ref) (last : Option Ref) : Plan Effect := do
  let first ← need .needsInteger first.int?
  let last ← last.mapM fun r => need .needsInteger r.int?
  match v.container? source with
  | some (.list h) => give (copyList (v h) first last)
  | some (.string h) => give (copyText (v h).text first last)
  | _ => refuse .needsIndexable

def join (v : View) : List Ref → Plan Effect
  | first :: second :: rest =>
    let parts := first :: second :: rest
    match v.container? first with
    | some (.list _) => do
      let lists ← need .joinArgsNotSameType (parts.mapM v.list?)
      give (.make .fresh (.ofItems (lists.flatMap fun h => (v h).itemWords)))
    | some (.string _) => do
      let printed ← need .joinArgsNotSameType (parts.mapM v.printed?)
      give (.make .fresh (.ofText printed.flatten))
    | _ => refuse .needsIndexable
  | _ => refuse .notEnoughArguments

/-! ## Texts -/

def findInString (v : View) (needle haystack : Ref) (start : Option Ref) : Plan Effect := do
  let small ← need .needsString (v.text? needle)
  let large ← need .needsString (v.text? haystack)
  give (.give (.int (Search.find small large ((start.bind Ref.int?).getD 1))))

def joinStrings (v : View) (list : Ref) (separator : Option Ref) : Plan Effect := do
  let h ← need .needsList (v.list? list)
  let printed ← need .needsString ((v h).items.mapM v.printed?)
  give (.make .fresh (.ofText (((separator.bind v.text?).getD []).intercalate printed)))

/-! ## What plans come to -/

section Ensures

variable {v : View} {P : Effect → Prop} {container : Ref}

/-! ### Plans that make nothing -/

theorem putList_ensures {h : Handle} (hrewrite : ∀ words, P (.rewrite h words .false))
    (c : Content) (s : Selector) (value : Ref) : (putList c h s value).Ensures P := by
  cases s with
  | random => trivial
  | all => exact hrewrite _
  | _ =>
    refine Ensures.any (fun i => ?_) _
    exact hrewrite _

theorem putBytes_ensures {h : Handle} (hrewrite : ∀ words, P (.rewrite h words .false))
    (c : Content) (s : Selector) (b : UInt8) : (putBytes c h s b).Ensures P := by
  cases s with
  | random => trivial
  | all => exact hrewrite _
  | _ =>
    refine Ensures.any (fun i => ?_) _
    exact hrewrite _

/-- A removal rewrites a list, or there is nothing to remove and it gives `false`. -/
theorem delete_ensures
    (hrewrite : ∀ h words, container = .obj h → (v h).cls = .list → P (.rewrite h words .false))
    (hgive : P (.give .false)) (selector : Ref) : (delete v container selector).Ensures P := by
  refine Ensures.need fun h hlist => ?_
  obtain ⟨rfl, hcls⟩ := View.named?_eq_some.mp hlist
  cases v.selector? selector with
  | none => trivial
  | some s =>
    cases s with
    | all => exact hrewrite h _ rfl hcls
    | random => trivial
    | last =>
      dsimp only
      split
      · exact hrewrite h _ rfl hcls
      · exact hgive
    | index i =>
      dsimp only
      split
      · exact hrewrite h _ rfl hcls
      · trivial

/-- Storing an item rewrites a list or a byte array. -/
theorem putItem_ensures
    (hrewrite : ∀ h words, container = .obj h → (v h).cls ≠ .string → P (.rewrite h words .false))
    (selector value : Ref) : (putItem v container selector value).Ensures P := by
  refine Ensures.need fun found hfound => Ensures.need fun s _ => ?_
  obtain ⟨h, rfl, ⟨rfl, hcls⟩ | ⟨rfl, _⟩ | ⟨rfl, hcls⟩⟩ := View.container?_eq_some.mp hfound
  · refine putList_ensures (fun words => hrewrite h words rfl ?_) _ s value
    exact fun hstring => nomatch hcls.symm.trans hstring
  · trivial
  · refine Ensures.any (fun b => putBytes_ensures (fun words => hrewrite h words rfl ?_) _ s b) _
    exact fun hstring => nomatch hcls.symm.trans hstring

theorem fill_ensures
    (hrewrite : ∀ h words, container = .obj h → (v h).cls ≠ .string → P (.rewrite h words .false))
    (value : Ref) : (fill v container value).Ensures P := by
  unfold fill
  cases hfound : v.container? container with
  | none => trivial
  | some found =>
    obtain ⟨h, rfl, ⟨rfl, hcls⟩ | ⟨rfl, _⟩ | ⟨rfl, hcls⟩⟩ := View.container?_eq_some.mp hfound
    · exact hrewrite h _ rfl fun hstring => nomatch hcls.symm.trans hstring
    · trivial
    · refine Ensures.any (fun b => ?_) _
      exact hrewrite h _ rfl fun hstring => nomatch hcls.symm.trans hstring

theorem length_ensures (hgive : ∀ n, P (.give (.int n))) (container : Ref) :
    (length v container).Ensures P := by
  refine Ensures.any (fun found => ?_) _
  cases found <;> exact hgive _

theorem findInString_ensures (hgive : ∀ n, P (.give (.int n))) (needle haystack : Ref)
    (start : Option Ref) : (findInString v needle haystack start).Ensures P := by
  refine Ensures.any (fun small => Ensures.any (fun large => ?_) _) _
  exact hgive _

/-! ### Plans that make lists without spare slots, or strings -/

/-- An item is given as a value, and a character as a new string. -/
theorem getItem_ensures (hgive : ∀ r, P (.give r))
    (htext : ∀ text, P (.make .fresh (.ofText text))) (container selector : Ref) :
    (getItem v container selector).Ensures P := by
  refine Ensures.any (fun found => Ensures.any (fun s => ?_) _) _
  cases found with
  | list h =>
    refine Ensures.any (fun i => ?_) _
    exact hgive _
  | string h =>
    refine Ensures.any (fun i => ?_) _
    exact htext _
  | byteArray h =>
    refine Ensures.any (fun i => ?_) _
    exact hgive _

/-- A part is a new list or a new string. -/
theorem copyFromTo_ensures (hlist : ∀ words, P (.make .fresh (.ofItems words)))
    (htext : ∀ text, P (.make .fresh (.ofText text))) (source first : Ref) (last : Option Ref) :
    (copyFromTo v source first last).Ensures P := by
  refine Ensures.any (fun first => Ensures.any (fun last => ?_) _) _
  split
  · exact hlist _
  · exact htext _
  · trivial

/-- Joining makes a new list or a new string. -/
theorem join_ensures (hlist : ∀ words, P (.make .fresh (.ofItems words)))
    (htext : ∀ text, P (.make .fresh (.ofText text))) (parts : List Ref) :
    (join v parts).Ensures P := by
  unfold join
  split
  · split
    · refine Ensures.any (fun lists => ?_) _
      exact hlist _
    · refine Ensures.any (fun printed => ?_) _
      exact htext _
    · trivial
  · trivial

theorem joinStrings_ensures (htext : ∀ text, P (.make .fresh (.ofText text))) (list : Ref)
    (separator : Option Ref) : (joinStrings v list separator).Ensures P := by
  refine Ensures.any (fun h => Ensures.any (fun printed => ?_) _) _
  exact htext _

end Ensures

end Plan

/-- The plan of a primitive in an arena with `free` free words. -/
def Primitive.plan (p : Primitive) (v : View) (free : Nat) (args : List Ref) : Plan Effect :=
  if args.length < p.arity then .refuse .notEnoughArguments
  else
    let arg (i : Nat) : Ref := args.getD i .nil
    match p with
    | .makeList => Plan.makeList args
    | .newList => Plan.newList (capacityAsked args[0]?)
    | .addLast => Plan.addLast v (arg 1) (arg 0)
    | .delete => Plan.delete v (arg 1) (arg 0)
    | .join => Plan.join v args
    | .copyFromTo => Plan.copyFromTo v (arg 0) (arg 1) args[2]?
    | .findInString => Plan.findInString v (arg 0) (arg 1) args[2]?
    | .joinStrings => Plan.joinStrings v (arg 0) args[1]?
    | .freeMemory => .give (.give (Ref.ofCount free))
    | .getItem => Plan.getItem v (arg 1) (arg 0)
    | .putItem => Plan.putItem v (arg 1) (arg 0) (arg 2)
    | .fill => Plan.fill v (arg 0) (arg 1)
    | .length => Plan.length v (arg 0)

/-- The plan of the primitive with a given name. -/
def Primitive.planNamed (name : String) (v : View) (free : Nat) (args : List Ref) : Plan Effect :=
  match Primitive.ofName? name with
  | some p => p.plan v free args
  | none => .refuse .unknownPrimitive

/-- **What holds of every kind of effect holds of every plan.** -/
theorem Primitive.plan_ensures {P : Effect → Prop} (hgive : ∀ r, P (.give r))
    (hrewrite : ∀ h words r, P (.rewrite h words r))
    (hlist : ∀ o words, P (.make o ⟨.list, words⟩))
    (htext : ∀ text, P (.make .fresh (.ofText text))) (p : Primitive) (v : View) (free : Nat)
    (args : List Ref) : (p.plan v free args).Ensures P := by
  unfold plan
  split
  · trivial
  · cases p with
    | makeList => exact hlist _ _
    | newList => exact hlist _ _
    | addLast =>
      refine Plan.Ensures.any (fun h => ?_) _
      dsimp only
      split
      · exact hlist _ _
      · exact hrewrite _ _ _
    | delete => exact Plan.delete_ensures (fun h words _ _ => hrewrite h words _) (hgive _) _
    | join => exact Plan.join_ensures (fun _ => hlist _ _) htext args
    | copyFromTo => exact Plan.copyFromTo_ensures (fun _ => hlist _ _) htext _ _ _
    | findInString => exact Plan.findInString_ensures (fun _ => hgive _) _ _ _
    | joinStrings => exact Plan.joinStrings_ensures htext _ _
    | freeMemory => exact hgive _
    | getItem => exact Plan.getItem_ensures hgive htext _ _
    | putItem => exact Plan.putItem_ensures (fun h words _ _ => hrewrite h words _) _ _
    | fill => exact Plan.fill_ensures (fun h words _ _ => hrewrite h words _) _
    | length => exact Plan.length_ensures (fun _ => hgive _) _

/-- A call by a name that is none refuses its arguments. -/
theorem Primitive.planNamed_ensures {P : Effect → Prop} {v : View} {free : Nat} {args : List Ref}
    (hplan : ∀ p : Primitive, (p.plan v free args).Ensures P) (name : String) :
    (planNamed name v free args).Ensures P := by
  unfold planNamed
  cases ofName? name with
  | none => trivial
  | some p => exact hplan p

theorem Primitive.planNamed_name (p : Primitive) (v : View) (free : Nat) (args : List Ref) :
    planNamed p.name v free args = p.plan v free args := by
  rw [planNamed, ofName?_name]

end ObjectMemory
