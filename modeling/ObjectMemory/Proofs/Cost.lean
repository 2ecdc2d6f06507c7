import ObjectMemory.Proofs.Refusal
import ObjectMemory.Proofs.Sequences

/-!
# The cost of calls

An arena only ever fills up, so what a call takes up of it should be known before the call.
`Primitive.cost` is a price list: it says for each primitive, in words, what a call with given
arguments takes up, header included. Most calls cost nothing, and so does each one that is refused.

`calls_take_up_their_cost` says that the prices are exact. A call that has a price makes one
object, and stops the run just when the object would not leave a word of the arena free.
-/

namespace ObjectMemory

-- Sums of numbers start from the zero of the core library, also beside other instances.
attribute [local instance (2000)] Zero.ofOfNat0

/-! ## The price list -/

/-- A string takes up a header, its bytes and a zero byte after them, in whole words. Bytes from
the first zero byte on are dropped. -/
def textCost (text : List UInt8) : Nat :=
  (text.takeWhile (· ≠ 0)).length / 4 + 2

/-- An item that finds a slot costs nothing. Else the list moves to where it has more slots. -/
def addLastCost (v : View) (list : Ref) : Nat :=
  match v.list? list with
  | some h =>
    let capacity := (v h).capacity
    if (v h).count < capacity then 0 else capacity + max 4 (min 100 (capacity / 3)) + 2
  | none => 0

/-- The bytes of the code points from `first` to `last`, as far as there are any. -/
def sliceText (text : List UInt8) (first : Int) (last : Option Int) : List UInt8 :=
  let part := ListObject.sliceOf (CodePoints.count text) first last
  if part.2 = 0 then [] else CodePoints.slice text part.1 (part.1 + part.2 - 1)

/-- A part costs as much as an object of its own. -/
def copyFromToCost (v : View) (source first : Ref) (last : Option Ref) : Nat :=
  match first.int?, last.mapM Ref.int?, v.container? source with
  | some first, some last, some (.list h) => (slice (v h).items first last).length + 2
  | some first, some last, some (.string h) => textCost (sliceText (v h).text first last)
  | _, _, _ => 0

/-- Joined containers cost as much as one that holds what they all hold. -/
def joinCost (v : View) (parts : List Ref) : Nat :=
  match v.container? (parts.getD 0 .nil) with
  | some (.list _) =>
    match parts.mapM v.list? with
    | some lists => (lists.map fun h => (v h).items.length).sum + 2
    | none => 0
  | some (.string _) =>
    match parts.mapM v.printed? with
    | some printed => textCost printed.flatten
    | none => 0
  | _ => 0

def joinStringsCost (v : View) (list : Ref) (separator : Option Ref) : Nat :=
  match v.list? list with
  | some h =>
    match (v h).items.mapM v.printed? with
    | some printed => textCost (((separator.bind v.text?).getD []).intercalate printed)
    | none => 0
  | none => 0

/-- A code point of a string is a string of its own. The source decides which one it is if it is
picked at random, and then its length. -/
def getItemCost (v : View) (s : Source) (container selector : Ref) : Nat :=
  match v.container? container, v.selector? selector with
  | some (.string h), some place =>
    match (Plan.place place (CodePoints.count (v h).text)).run s with
    | (.ok i, _) => textCost (CodePoints.slice (v h).text i i)
    | (.error _, _) => 0
  | _, _ => 0

/-- The words that a call takes up. A call that is refused takes up none. -/
def Primitive.cost (p : Primitive) (v : View) (s : Source) (args : List Ref) : Nat :=
  if args.length < p.arity then 0
  else
    let arg (i : Nat) : Ref := args.getD i .nil
    match p with
    | .makeList => args.length + 2
    | .newList =>
      match args[0]? with
      | some (Ref.int n) => max 2 n.toNat + 2
      | _ => 4
    | .addLast => addLastCost v (arg 1)
    | .join => joinCost v args
    | .copyFromTo => copyFromToCost v (arg 0) (arg 1) args[2]?
    | .joinStrings => joinStringsCost v (arg 0) args[1]?
    | .getItem => getItemCost v s (arg 1) (arg 0)
    | .delete | .findInString | .freeMemory | .putItem | .fill | .length => 0

/-- The words that a call by name takes up. -/
def Primitive.costNamed (name : String) (v : View) (s : Source) (args : List Ref) : Nat :=
  match ofName? name with
  | some p => p.cost v s args
  | none => 0

/-! ## The prices of plans -/

/-- The words that an effect takes up. -/
def Effect.cost : Effect → Nat
  | .make _ c => 1 + c.words.length
  | _ => 0

theorem Effect.cost_text (o : Origin) (text : List UInt8) :
    (Effect.make o (.ofText text)).cost = textCost text := by
  rw [cost, Content.ofText, Word.length_packed, Content.wordsForBytes_succ, textCost]
  exact Nat.add_comm _ _

theorem Effect.cost_list (o : Origin) (words : List Word) :
    (Effect.make o (.ofItems words)).cost = words.length + 2 := by
  rw [cost, Content.ofItems, List.length_cons]
  omega

namespace Plan

variable {α : Type} {v : View} {s : Source}

/-- The words that a plan takes up. -/
def cost (p : Plan Effect) (s : Source) : Nat :=
  match p.run s with
  | (.ok e, _) => e.cost
  | (.error _, _) => 0

/-- A plan in two parts costs what the second part does, and nothing if the first one refuses. -/
theorem cost_bind (p : Plan α) (k : α → Plan Effect) (s : Source) :
    (p >>= k).cost s =
      match p.run s with
      | (.ok x, t) => (k x).cost t
      | (.error _, _) => 0 := by
  unfold cost
  rw [run_bind]
  cases p.run s with
  | mk result t => cases result <;> rfl

theorem cost_need (f : Failure) (found : Option α) (k : α → Plan Effect) (s : Source) :
    (need f found >>= k).cost s =
      match found with
      | some x => (k x).cost s
      | none => 0 := by
  cases found <;> rfl

/-- A plan that makes no object costs nothing. -/
theorem cost_eq_zero {p : Plan Effect} (hp : p.Ensures (·.cost = 0)) (s : Source) :
    p.cost s = 0 := by
  unfold cost
  cases hrun : p.run s with
  | mk result t =>
    cases result with
    | ok e => exact hp.of_run hrun
    | error f => rfl

/-! ### Primitives that have a price -/

/-- A list that is asked for by no number has room for two items. -/
theorem newList_cost (asked : Option Ref) (s : Source) :
    (newList (Primitive.capacityAsked asked)).cost s =
      match asked with
      | some (.int n) => max 2 n.toNat + 2
      | _ => 4 := by
  have hcost (n : Nat) : (newList n).cost s = max 2 n + 2 := by
    show 1 + (List.replicate _ _).length = _
    rw [List.length_replicate, ListObject.minCapacity]
    omega
  rw [hcost]
  cases asked with
  | none => rfl
  | some r =>
    cases r with
    | int n =>
      simp only [Primitive.capacityAsked, ListObject.minCapacity]
      split <;> omega
    | _ => rfl

theorem addLast_cost (list item : Ref) (s : Source) :
    (addLast v list item).cost s = addLastCost v list := by
  rw [addLast, cost_need, addLastCost]
  cases v.list? list with
  | none => rfl
  | some h =>
    dsimp only
    by_cases hfull : (v h).capacity ≤ (v h).count
    · rw [if_pos hfull, if_neg (Nat.not_lt.mpr hfull)]
      show 1 + (Content.appended _ _ _).length = _
      rw [Content.length_appended, ListObject.length_enlarged, ListObject.growth]
      omega
    · rw [if_neg hfull, if_pos (Nat.lt_of_not_le hfull)]
      rfl

theorem copyFromTo_cost (source first : Ref) (last : Option Ref) (s : Source) :
    (copyFromTo v source first last).cost s = copyFromToCost v source first last := by
  have hslice (c : Content) (first : Int) (last : Option Int) :
      (give (copyList c first last)).cost s = (slice c.items first last).length + 2 := by
    show (copyList c first last).cost = _
    rw [copyList, Effect.cost_list, ← Content.slice_items, List.length_map]
  have hlast : (last.mapM fun r => need .needsInteger r.int?) =
      need .needsInteger (last.mapM Ref.int?) := by
    cases last with
    | none => rfl
    | some r =>
      simp only [Option.mapM_some]
      cases r.int? <;> rfl
  rw [copyFromTo, cost_need, copyFromToCost]
  cases first.int? with
  | none => rfl
  | some first =>
    dsimp only
    rw [hlast, cost_need]
    cases last.mapM Ref.int? with
    | none => rfl
    | some last =>
      dsimp only
      cases v.container? source with
      | none => rfl
      | some target =>
        cases target with
        | list h => exact hslice (v h) first last
        | string h => exact Effect.cost_text .fresh _
        | byteArray h => rfl

theorem join_cost {parts : List Ref} (hlen : 2 ≤ parts.length) (s : Source) :
    (join v parts).cost s = joinCost v parts := by
  have hitems (lists : List Handle) :
      (give (.make .fresh (.ofItems (lists.flatMap fun h => (v h).itemWords)))).cost s =
        (lists.map fun h => (v h).items.length).sum + 2 := by
    show (Effect.make .fresh _).cost = _
    rw [Effect.cost_list, List.length_flatMap]
    simp only [Content.length_itemWords, Content.length_items]
  match parts, hlen with
  | first :: second :: rest, _ =>
    rw [join, joinCost, List.getD_cons_zero]
    cases v.container? first with
    | none => rfl
    | some target =>
      cases target with
      | list h =>
        dsimp only
        rw [cost_need]
        cases (first :: second :: rest).mapM v.list? with
        | none => rfl
        | some lists => exact hitems lists
      | string h =>
        dsimp only
        rw [cost_need]
        cases (first :: second :: rest).mapM v.printed? with
        | none => rfl
        | some printed => exact Effect.cost_text .fresh _
      | byteArray h => rfl

theorem joinStrings_cost (list : Ref) (separator : Option Ref) (s : Source) :
    (joinStrings v list separator).cost s = joinStringsCost v list separator := by
  rw [joinStrings, cost_need, joinStringsCost]
  cases v.list? list with
  | none => rfl
  | some h =>
    dsimp only
    rw [cost_need]
    cases (v h).items.mapM v.printed? with
    | none => rfl
    | some printed => exact Effect.cost_text .fresh _

theorem getItem_cost (container selector : Ref) (s : Source) :
    (getItem v container selector).cost s = getItemCost v s container selector := by
  rw [getItem, cost_need, getItemCost]
  cases v.container? container with
  | none => rfl
  | some target =>
    dsimp only
    rw [cost_need]
    cases v.selector? selector with
    | none => cases target <;> rfl
    | some place =>
      cases target with
      | string h =>
        dsimp only
        rw [cost_bind]
        cases (Plan.place place (CodePoints.count (v h).text)).run s with
        | mk result t =>
          cases result with
          | error f => rfl
          | ok i => exact Effect.cost_text .fresh _
      | list h =>
        refine cost_eq_zero (Ensures.any (fun i => ?_) _) s
        rfl
      | byteArray h =>
        refine cost_eq_zero (Ensures.any (fun i => ?_) _) s
        rfl

end Plan

/-- **The plan of a primitive has the price that the list says.** -/
theorem plan_cost (p : Primitive) (v : View) (free : Nat) (args : List Ref) (s : Source) :
    (p.plan v free args).cost s = p.cost v s args := by
  unfold Primitive.plan Primitive.cost
  by_cases hfew : args.length < p.arity
  · rw [if_pos hfew, if_pos hfew]
    rfl
  · rw [if_neg hfew, if_neg hfew]
    cases p with
    | makeList =>
      show (Effect.make .fresh _).cost = _
      rw [Effect.cost_list, List.length_map]
    | newList => exact Plan.newList_cost args[0]? s
    | addLast => exact Plan.addLast_cost _ _ s
    | join => exact Plan.join_cost (Nat.not_lt.mp hfew) s
    | copyFromTo => exact Plan.copyFromTo_cost _ _ _ s
    | joinStrings => exact Plan.joinStrings_cost _ _ s
    | getItem => exact Plan.getItem_cost _ _ s
    | delete =>
      refine Plan.cost_eq_zero ?_ s
      refine Plan.delete_ensures (fun h words _ _ => ?_) ?_ _
      · rfl
      · rfl
    | putItem =>
      refine Plan.cost_eq_zero ?_ s
      exact Plan.putItem_ensures (fun _ _ _ _ => rfl) _ _
    | fill =>
      refine Plan.cost_eq_zero ?_ s
      exact Plan.fill_ensures (fun _ _ _ _ => rfl) _
    | length =>
      refine Plan.cost_eq_zero ?_ s
      exact Plan.length_ensures (fun _ => rfl) _
    | findInString =>
      refine Plan.cost_eq_zero ?_ s
      exact Plan.findInString_ensures (fun _ => rfl) _ _ _
    | freeMemory => rfl

theorem planNamed_cost (name : String) (v : View) (free : Nat) (args : List Ref) (s : Source) :
    (Primitive.planNamed name v free args).cost s = Primitive.costNamed name v s args := by
  unfold Primitive.planNamed Primitive.costNamed
  cases Primitive.ofName? name with
  | none => rfl
  | some p => exact plan_cost p v free args s

/-! ## What is paid for -/

/-- The effect makes no object, or a list without spare slots, or a string. -/
def Effect.Exact : Effect → Prop
  | .make _ c => (∃ words, c = .ofItems words) ∨ ∃ text, c = .ofText text
  | _ => True

section Exact

variable {v : View}

theorem exact_list (words : List Word) : (Effect.make .fresh (.ofItems words)).Exact :=
  Or.inl ⟨words, rfl⟩

theorem exact_text (text : List UInt8) : (Effect.make .fresh (.ofText text)).Exact :=
  Or.inr ⟨text, rfl⟩

/-- Only two primitives make lists that have spare slots. -/
theorem plan_exact {p : Primitive} (hnew : p ≠ .newList) (hadd : p ≠ .addLast) (free : Nat)
    (args : List Ref) : (p.plan v free args).Ensures Effect.Exact := by
  unfold Primitive.plan
  split
  · trivial
  · cases p with
    | newList => exact absurd rfl hnew
    | addLast => exact absurd rfl hadd
    | makeList => exact exact_list _
    | join => exact Plan.join_ensures exact_list exact_text args
    | copyFromTo => exact Plan.copyFromTo_ensures exact_list exact_text _ _ _
    | getItem => exact Plan.getItem_ensures (fun _ => trivial) exact_text _ _
    | joinStrings => exact Plan.joinStrings_ensures exact_text _ _
    | delete => exact Plan.delete_ensures (fun _ _ _ _ => trivial) trivial _
    | putItem => exact Plan.putItem_ensures (fun _ _ _ _ => trivial) _ _
    | fill => exact Plan.fill_ensures (fun _ _ _ _ => trivial) _
    | length => exact Plan.length_ensures (fun _ => trivial) _
    | findInString => exact Plan.findInString_ensures (fun _ => trivial) _ _ _
    | freeMemory => trivial

theorem name_of_ofName? {name : String} {p : Primitive} (hname : Primitive.ofName? name = some p) :
    p.name = name := by
  have hfound := List.find?_some hname
  exact eq_of_beq hfound

theorem planNamed_exact {name : String} (hnew : name ≠ "newList") (hadd : name ≠ "addLast")
    (free : Nat) (args : List Ref) :
    (Primitive.planNamed name v free args).Ensures Effect.Exact := by
  unfold Primitive.planNamed
  cases hname : Primitive.ofName? name with
  | none => trivial
  | some p =>
    have hp := name_of_ofName? hname
    refine plan_exact ?_ ?_ free args
    · rintro rfl
      exact hnew hp.symm
    · rintro rfl
      exact hadd hp.symm

end Exact

/-- The object is a list or a string that takes up `w` words and has no word to spare: a list of
`w - 2` items, or a string whose bytes fill the words after the header. -/
def Arena.Worth (a : Arena) (h : Handle) (w : Nat) : Prop :=
  (∃ m, a.classOf h = .ok .list ∧ ListObject.count a h = .ok m ∧ w = m + 2) ∨
    ∃ bytes, a.classOf h = .ok .string ∧ a.stringBytes h = .ok bytes ∧ w = bytes.length / 4 + 2

/-- The new object takes up the words that its effect costs. -/
theorem Arena.Made.worth {a b : Arena} {o : Origin} {c : Content} (hm : a.Made o c b)
    (hsize : a.capacity ≤ maxArenaWords) (hexact : (Effect.make o c).Exact) :
    b.Worth ⟨a.used⟩ (Effect.make o c).cost := by
  have hh := hm.holds_new
  have hview := hm.view_new
  rcases hexact with ⟨words, rfl⟩ | ⟨text, rfl⟩
  · have hfits := hm.fits.1
    have hlen : (Content.ofItems words).words.length = words.length + 1 := rfl
    have hlist : (Content.ofItems words).sequence = ⟨words.map Ref.ofWord, words.length⟩ :=
      Content.sequence_ofItems (by omega)
    have hcount : (Content.ofItems words).count = words.length := by
      rw [← Content.length_items]
      exact (congrArg (·.items.length) hlist).trans (List.length_map _)
    refine Or.inl ⟨words.length, ?_, ?_, ?_⟩
    · rw [Arena.classOf_eq hh, hview]
      rfl
    · rw [ListObject.count_eq hh, hview]
      exact congrArg Except.ok hcount
    · exact Effect.cost_list o words
  · refine Or.inr ⟨text.takeWhile (· ≠ 0), ?_, ?_, ?_⟩
    · rw [Arena.classOf_eq hh, hview]
      rfl
    · rw [Arena.stringBytes_eq hh, hview]
      exact congrArg Except.ok (Content.text_ofText text)
    · exact Effect.cost_text o text

/-! ## Charged calls -/

/-- How a call ends in the context `c` if its price is `w`. -/
structure Charged (c : Context) (w : Nat) (outcome : EStateM.Result Refusal Context Ref) :
    Prop where
  /-- The price is paid, by one object if there is one. -/
  given : ∀ r d, outcome = .ok r d →
    d.arena.used = c.arena.used + w ∧
    d.arena.counters.allocations = c.arena.counters.allocations + if w = 0 then 0 else 1
  refused : ∀ f d, outcome = .error (.failure f) d → w = 0 ∧ d.arena = c.arena
  /-- The run is stopped for the price alone, and the report says what would be used. -/
  stopped : ∀ s d, outcome = .error (.stop s) d →
    0 < w ∧ s = .exhausted c.arena.onExhaustion (Size.reported c.arena.used w) c.arena.capacity
  full : 0 < w → ((∃ s d, outcome = .error (.stop s) d) ↔ c.arena.capacity ≤ c.arena.used + w)

section Charging

variable {c d : Context} {outcome : EStateM.Result Refusal Context Ref}

/-- A call that uses no words of its own cost nothing. -/
theorem charged_given {r : Ref} (hused : d.arena.used = c.arena.used)
    (hcounters : d.arena.counters = c.arena.counters) : Charged c 0 (.ok r d) := by
  refine ⟨?_, ?_, ?_, fun hcost => absurd hcost (Nat.lt_irrefl 0)⟩
  · rintro _ _ ⟨⟩
    exact ⟨hused, congrArg Counters.allocations hcounters⟩
  · rintro _ _ ⟨⟩
  · rintro _ _ ⟨⟩

/-- A refusal is free. -/
theorem charged_refused (f : Failure) (c : Context) (s : Source) :
    Charged c 0 (.error (.failure f) ⟨c.arena, s⟩) := by
  refine ⟨?_, ?_, ?_, fun hcost => absurd hcost (Nat.lt_irrefl 0)⟩
  · rintro _ _ ⟨⟩
  · rintro _ _ ⟨⟩
    exact ⟨rfl, rfl⟩
  · rintro _ _ ⟨⟩

/-- **An object is charged for**, in an arena that is no larger than an arena can be. -/
theorem charged_made {o : Origin} {content : Content} {s : Source}
    (hsize : c.arena.capacity ≤ maxArenaWords)
    (hp : (Effect.make o content).Performed c.arena s outcome) :
    Charged c (1 + content.words.length) outcome := by
  simp only [Effect.Performed] at hp
  split at hp
  · next hfits =>
    obtain ⟨b, rfl, hmade⟩ := hp
    refine ⟨?_, ?_, ?_, fun _ => ⟨?_, fun hfull => ?_⟩⟩
    · rintro _ _ ⟨⟩
      refine ⟨hmade.used, ?_⟩
      rw [if_neg (by omega), hmade.counters]
      cases o <;> rfl
    · rintro _ _ ⟨⟩
    · rintro _ _ ⟨⟩
    · rintro ⟨_, _, ⟨⟩⟩
    · exact absurd hfits.1 (Nat.not_lt.mpr hfull)
  · next hfull =>
    subst hp
    refine ⟨?_, ?_, ?_, fun _ => ⟨fun _ => ?_, fun _ => ⟨_, _, rfl⟩⟩⟩
    · rintro _ _ ⟨⟩
    · rintro _ _ ⟨⟩
    · rintro _ _ ⟨⟩
      exact ⟨by omega, rfl⟩
    · exact capacity_le_of_not_fits hsize hfull

/-- **A program that carries out a plan is charged for it.** -/
theorem Carries.charged {prog : PrimM Ref} {plan : Plan Effect}
    (hsize : c.arena.capacity ≤ maxArenaWords) (hcarries : Carries prog plan c) :
    Charged c (plan.cost c.source) (prog c) := by
  unfold Carries at hcarries
  unfold Plan.cost
  cases hrun : plan.run c.source with
  | mk result s =>
    rw [hrun] at hcarries
    cases result with
    | error f =>
      dsimp only
      rw [hcarries]
      exact charged_refused f c s
    | ok e =>
      dsimp only
      cases e with
      | give r =>
        have hend : prog c = .ok r ⟨c.arena, s⟩ := hcarries
        rw [hend]
        exact charged_given rfl rfl
      | rewrite h words r =>
        obtain ⟨b, hend, hst⟩ := hcarries
        rw [hend]
        exact charged_given hst.used hst.counters
      | make o content => exact charged_made hsize hcarries

/-- What a plan makes is worth the price, if it has no spare slots. -/
theorem Carries.worth {prog : PrimM Ref} {plan : Plan Effect} {r : Ref}
    (hsize : c.arena.capacity ≤ maxArenaWords) (hcarries : Carries prog plan c)
    (hexact : plan.Ensures Effect.Exact) (hcost : 0 < plan.cost c.source)
    (hok : prog c = .ok r d) :
    ∃ h, r = .obj h ∧ d.arena.Worth h (plan.cost c.source) := by
  unfold Carries at hcarries
  unfold Plan.cost at hcost ⊢
  cases hrun : plan.run c.source with
  | mk result s =>
    rw [hrun] at hcarries hcost
    cases result with
    | error f => exact absurd hcost (Nat.lt_irrefl 0)
    | ok e =>
      have he := hexact.of_run hrun
      cases e with
      | make o content =>
        dsimp only at hcarries
        rw [hok] at hcarries
        obtain ⟨rfl, b, rfl, hmade⟩ := hcarries.made
        exact ⟨_, rfl, hmade.worth hsize he⟩
      | _ => exact absurd hcost (Nat.lt_irrefl 0)

end Charging

/-- **Calls take up exactly what they cost.** Let the arena be closed for the objects `hs`, and
call any primitive with any arguments that name no other objects. The price list says before the
call how many words it takes up, `w`.

A call that succeeds takes up `w` words and makes one object if `w` is not 0, else none. A refusal
costs nothing. Where there is a price, the run stops for want of room if and only if the words in
use and `w` more come up to the capacity, and the report says so.

What a call with a price gives is a list with as many items as were paid for, or a string with as
many bytes. Only a list that is made empty, or made larger for one more item, has spare slots. -/
theorem calls_take_up_their_cost {c : Context} {hs : List Handle} (hc : c.arena.Closed hs)
    (name : String) {args : List Ref} (hargs : ∀ r ∈ args, r.Among hs) :
    let w := Primitive.costNamed name c.arena.view c.source args
    Charged c w (Primitive.invoke name args c) ∧
    ∀ r d, Primitive.invoke name args c = .ok r d → 0 < w →
      name ≠ "newList" → name ≠ "addLast" → ∃ h, r = .obj h ∧ d.arena.Worth h w := by
  have hsize := hc.tiled.size
  have hcarries := invoke_carries (hc.knowsArguments hargs) name
  have hcost := planNamed_cost name c.arena.view c.arena.freeWords args c.source
  dsimp only
  rw [← hcost]
  constructor
  · exact hcarries.charged hsize
  · intro r d hok hpos hnew hadd
    exact hcarries.worth hsize (planNamed_exact hnew hadd _ args) hpos hok

/-- A third item for a list with two slots costs 8 words, of which a small arena has too few. A
copy of one of the two items costs 3 words, and there it fits. -/
theorem third_item_without_room :
    ∃ c, Session c [⟨0⟩] ∧
      Charged c 8 (Primitive.invoke "addLast" [.nil, .obj ⟨0⟩] c) ∧
      (∃ d, Primitive.invoke "addLast" [.nil, .obj ⟨0⟩] c =
        .error (.stop (.exhausted .panic 12 12)) d) ∧
      ∃ r d, Primitive.invoke "copyFromTo" [.obj ⟨0⟩, .int 1, .int 1] c = .ok r d ∧
        ∃ h, r = .obj h ∧ d.arena.Worth h 3 := by
  have h0 := Session.start 12 .panic (Source.ofList [])
  have h1 := Session.step (.invoke "newList" []) h0 (fun r hr => nomatch hr) rfl
  have hitem : ∀ r ∈ [Ref.nil, .obj ⟨0⟩], r.Among [⟨0⟩] :=
    among_pair (among_of_obj? rfl _) (among_obj.mpr (by decide))
  have h2 := Session.step (.invoke "addLast" [.nil, .obj ⟨0⟩]) h1 hitem rfl
  have h3 := Session.step (.invoke "addLast" [.nil, .obj ⟨0⟩]) h2 hitem rfl
  have hpart : ∀ r ∈ [Ref.obj ⟨0⟩, .int 1, .int 1], r.Among [⟨0⟩] := by
    intro r hr
    rcases List.mem_cons.mp hr with rfl | hr
    · exact among_obj.mpr (by decide)
    · exact among_pair (among_of_obj? rfl _) (among_of_obj? rfl _) r hr
  refine ⟨_, h3, ?_, ⟨_, rfl⟩, _, _, rfl, ?_⟩
  · exact (calls_take_up_their_cost h3.closed "addLast" hitem).1
  · exact (calls_take_up_their_cost h3.closed "copyFromTo" hpart).2 _ _ rfl (by decide)
      (by decide) (by decide)

end ObjectMemory
