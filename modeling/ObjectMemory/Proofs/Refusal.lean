import ObjectMemory.Proofs.Session

/-!
# Refusals

A primitive may learn late that it has to refuse its arguments: at the last one of many, at an
item of a list, or only after a selector was read and a place picked for it. Nothing must have
been changed by then. Two facts see to this.

* No plan refuses anything once it has drawn a number (`plan_refusesFirst`), so a refusal finds
  the random source where it was.
* A call has an effect, and this is no refusal, or it leaves everything as it was
  (`invoke_endsIn`).

The second one asks nothing of the words that lists hold. Joining the items of a list follows
handles that may be forged, but it only looks at them before it makes its string.
-/

namespace ObjectMemory

open PrimM (refuse find onArena)

/-! ## Draws and refusals -/

namespace Plan

variable {α β : Type} {p : Plan α} {k : α → Plan β}

/-- The plan draws no number. -/
def Drawless : Plan α → Prop
  | give _ | refuse _ => True
  | draw _ _ => False

/-- The plan refuses nothing. -/
def Accepts : Plan α → Prop
  | give _ => True
  | refuse _ => False
  | draw _ next => ∀ i, (next i).Accepts

/-- The plan refuses nothing once it has drawn a number. -/
def RefusesFirst : Plan α → Prop
  | give _ | refuse _ => True
  | draw _ next => ∀ i, (next i).Accepts

theorem Accepts.run_ok (hp : p.Accepts) (s : Source) : ∃ x t, p.run s = (.ok x, t) := by
  induction p generalizing s with
  | give x => exact ⟨x, s, rfl⟩
  | refuse f => exact hp.elim
  | draw n next ih => exact ih _ (hp _) _

/-- A plan in two parts that refuse nothing refuses nothing. -/
theorem Accepts.bind (hp : p.Accepts) (hk : ∀ x, (k x).Accepts) : (p >>= k).Accepts := by
  induction p with
  | give x => exact hk x
  | refuse f => exact hp.elim
  | draw n next ih =>
    intro i
    exact ih i (hp i)

theorem Accepts.refusesFirst (hp : p.Accepts) : p.RefusesFirst := by
  cases p with
  | draw n next => exact hp
  | _ => trivial

/-- **A plan that refuses finds the source where it was.** -/
theorem RefusesFirst.source_eq (hp : p.RefusesFirst) {s t : Source} {f : Failure}
    (hrun : p.run s = (.error f, t)) : t = s := by
  cases p with
  | give x => cases hrun
  | refuse g =>
    cases hrun
    rfl
  | draw n next =>
    obtain ⟨x, u, hok⟩ := (hp (s.pick n).1).run_ok (s.pick n).2
    rw [run, hok] at hrun
    cases hrun

/-- What follows may draw, if it refuses nothing. -/
theorem RefusesFirst.bind (hp : p.RefusesFirst) (hk : ∀ x, (k x).Accepts) :
    (p >>= k).RefusesFirst := by
  cases p with
  | give x => exact (hk x).refusesFirst
  | refuse f => trivial
  | draw n next =>
    intro i
    exact (hp i).bind hk

/-- What comes first may refuse, if it draws nothing. -/
theorem Drawless.bind (hp : p.Drawless) (hk : ∀ x, (k x).RefusesFirst) :
    (p >>= k).RefusesFirst := by
  cases p with
  | give x => exact hk x
  | refuse f => trivial
  | draw n next => exact hp.elim

/-- What was needed is found, or it is refused, without any number. -/
theorem need_drawless (f : Failure) (found : Option α) : (need f found).Drawless := by
  cases found <;> trivial

theorem byte_drawless (value : Ref) : (byte value).Drawless := by
  unfold byte
  split <;> trivial

theorem needIntegers_drawless (last : Option Ref) :
    (last.mapM fun r => need .needsInteger r.int?).Drawless := by
  cases last with
  | none => trivial
  | some r =>
    rw [Option.mapM_some]
    cases r.int? <;> trivial

/-- An empty container is refused before a number is drawn for it. -/
theorem place_refusesFirst (s : Selector) (n : Nat) : (place s n).RefusesFirst := by
  cases s with
  | all => trivial
  | random =>
    simp only [place]
    split
    · intro i
      trivial
    · trivial
  | _ =>
    simp only [place]
    split <;> trivial

/-! ## Each primitive -/

variable (v : View)

theorem addLast_refusesFirst (list item : Ref) : (addLast v list item).RefusesFirst := by
  refine (need_drawless _ _).bind fun h => ?_
  dsimp only
  split <;> trivial

/-- A removal draws no number, whatever it comes to. -/
theorem delete_refusesFirst (list selector : Ref) : (delete v list selector).RefusesFirst := by
  refine (need_drawless _ _).bind fun h => ?_
  cases v.selector? selector with
  | none => trivial
  | some s =>
    cases s with
    | all => trivial
    | random => trivial
    | _ =>
      dsimp only
      split <;> trivial

/-- The container and the selector are checked before a place is picked. -/
theorem getItem_refusesFirst (container selector : Ref) :
    (getItem v container selector).RefusesFirst := by
  refine (need_drawless _ _).bind fun target => (need_drawless _ _).bind fun s => ?_
  -- a place may have been drawn by now, and nothing is refused after it
  cases target <;> exact (place_refusesFirst s _).bind fun i => trivial

theorem putList_refusesFirst (c : Content) (h : Handle) (s : Selector) (value : Ref) :
    (putList c h s value).RefusesFirst := by
  cases s with
  | random => trivial
  | all => trivial
  | _ => exact (place_refusesFirst _ _).bind fun i => trivial

/-- The byte was read already when the place is looked for. -/
theorem putBytes_refusesFirst (c : Content) (h : Handle) (s : Selector) (b : UInt8) :
    (putBytes c h s b).RefusesFirst := by
  cases s with
  | random => trivial
  | all => trivial
  | _ => exact (place_refusesFirst _ _).bind fun i => trivial

theorem putItem_refusesFirst (container selector value : Ref) :
    (putItem v container selector value).RefusesFirst := by
  refine (need_drawless _ _).bind fun target => (need_drawless _ _).bind fun s => ?_
  cases target with
  | list h => exact putList_refusesFirst _ h s value
  | byteArray h => exact (byte_drawless value).bind fun b => putBytes_refusesFirst _ h s b
  | string h => trivial

theorem fill_refusesFirst (container value : Ref) : (fill v container value).RefusesFirst := by
  unfold fill
  split
  · trivial
  · exact (byte_drawless value).bind fun b => trivial
  · trivial

theorem length_refusesFirst (container : Ref) : (length v container).RefusesFirst := by
  refine (need_drawless _ _).bind fun target => ?_
  cases target <;> trivial

/-- Neither end of a part is ever picked. -/
theorem copyFromTo_refusesFirst (source first : Ref) (last : Option Ref) :
    (copyFromTo v source first last).RefusesFirst := by
  refine (need_drawless _ _).bind fun first => (needIntegers_drawless last).bind fun last => ?_
  split <;> trivial

theorem join_refusesFirst (parts : List Ref) : (join v parts).RefusesFirst := by
  unfold join
  split
  · split
    · exact (need_drawless _ _).bind fun lists => trivial
    · exact (need_drawless _ _).bind fun printed => trivial
    · trivial
  · trivial

theorem findInString_refusesFirst (needle haystack : Ref) (start : Option Ref) :
    (findInString v needle haystack start).RefusesFirst :=
  (need_drawless _ _).bind fun _ => (need_drawless _ _).bind fun _ => trivial

theorem joinStrings_refusesFirst (list : Ref) (separator : Option Ref) :
    (joinStrings v list separator).RefusesFirst :=
  (need_drawless _ _).bind fun _ => (need_drawless _ _).bind fun _ => trivial

end Plan

/-- **No primitive refuses anything once it has drawn a number.** -/
theorem plan_refusesFirst (p : Primitive) (v : View) (free : Nat) (args : List Ref) :
    (p.plan v free args).RefusesFirst := by
  unfold Primitive.plan
  split
  · trivial
  · cases p with
    | makeList => trivial
    | newList => trivial
    | freeMemory => trivial
    | addLast => exact Plan.addLast_refusesFirst v _ _
    | delete => exact Plan.delete_refusesFirst v _ _
    | join => exact Plan.join_refusesFirst v _
    | copyFromTo => exact Plan.copyFromTo_refusesFirst v _ _ _
    | findInString => exact Plan.findInString_refusesFirst v _ _ _
    | joinStrings => exact Plan.joinStrings_refusesFirst v _ _
    | getItem => exact Plan.getItem_refusesFirst v _ _
    | putItem => exact Plan.putItem_refusesFirst v _ _ _
    | fill => exact Plan.fill_refusesFirst v _ _
    | length => exact Plan.length_refusesFirst v _

/-! ## Programs that only look -/

namespace PrimM

/-- The program changes nothing, whatever it comes to. -/
def Looks {α : Type} (prog : PrimM α) : Prop :=
  ∀ c, (∃ x, prog c = .ok x c) ∨ ∃ refusal, prog c = .error refusal c

variable {α β : Type}

theorem looks_pure (x : α) : Looks (pure x) := fun _ => Or.inl ⟨x, rfl⟩

theorem looks_refuse (f : Failure) : Looks (refuse f : PrimM α) := fun _ => Or.inr ⟨_, rfl⟩

theorem looks_look (read : Arena → Except Stop α) : Looks (look read) := by
  intro c
  unfold look
  cases read c.arena with
  | ok x => exact Or.inl ⟨x, rfl⟩
  | error s => exact Or.inr ⟨_, rfl⟩

/-- A program in two parts that look only looks. -/
theorem Looks.bind {prog : PrimM α} {next : α → PrimM β} (hp : Looks prog)
    (hnext : ∀ x, Looks (next x)) : Looks (prog >>= next) := by
  intro c
  rcases hp c with ⟨x, hrun⟩ | ⟨refusal, hrun⟩
  · rw [bind_of_ok hrun]
    exact hnext x c
  · exact Or.inr ⟨refusal, bind_of_error hrun⟩

theorem looks_find (f : Failure) (read : Arena → Except Stop (Option α)) :
    Looks (find f read) := by
  refine (looks_look read).bind fun found => ?_
  cases found with
  | none => exact looks_refuse f
  | some x => exact looks_pure x

/-- A walk through a row only looks if it does at each member. -/
theorem looks_mapM {prog : α → PrimM β} (hp : ∀ x, Looks (prog x)) (xs : List α) :
    Looks (xs.mapM prog) := by
  induction xs with
  | nil => exact looks_pure []
  | cons x rest ih =>
    rw [List.mapM_cons]
    exact (hp x).bind fun y => ih.bind fun ys => looks_pure _

end PrimM

/-! ## How a call ends -/

/-- The program has an effect that has the property, or leaves everything as it was. -/
def EndsIn (P : Effect → Prop) (prog : PrimM Ref) (c : Context) : Prop :=
  (∃ e s, P e ∧ e.Performed c.arena s (prog c)) ∨ ∃ refusal, prog c = .error refusal c

section Ends

variable {P : Effect → Prop} {c d : Context} {hs : List Handle} {prog : PrimM Ref}

/-- **A program that carries out a plan has an effect of the plan**, or changes nothing. -/
theorem Carries.endsIn {plan : Plan Effect} (hc : Carries prog plan c) (hf : plan.RefusesFirst)
    (hP : plan.Ensures P) : EndsIn P prog c := by
  unfold Carries at hc
  cases hrun : plan.run c.source with
  | mk result s =>
    rw [hrun] at hc
    cases result with
    | ok e => exact Or.inl ⟨e, s, hP.of_run hrun, hc⟩
    | error f =>
      have hsource : s = c.source := hf.source_eq hrun
      subst hsource
      exact Or.inr ⟨_, hc⟩

/-- What was only looked at first leaves the end of a program to the rest. -/
theorem PrimM.Looks.endsIn {α : Type} {look : PrimM α} {next : α → PrimM Ref}
    (hl : PrimM.Looks look) (hnext : ∀ x, EndsIn P (next x) c) : EndsIn P (look >>= next) c := by
  rcases hl c with ⟨x, hrun⟩ | ⟨refusal, hrun⟩
  · have hx := hnext x
    unfold EndsIn at hx ⊢
    rwa [bind_of_ok hrun]
  · exact Or.inr ⟨refusal, bind_of_error hrun⟩

/-- Joining strings looks at whatever the list holds, and then makes a string. -/
theorem joinItems_endsIn (htext : ∀ text, P (.make .fresh (.ofText text))) (list : Ref)
    (separator : Option Ref) (c : Context) :
    EndsIn P (Primitive.joinItems list separator) c := by
  refine (PrimM.looks_find _ _).endsIn fun h => (PrimM.looks_look _).endsIn fun items => ?_
  refine (PrimM.looks_look _).endsIn fun between => ?_
  refine (PrimM.looks_mapM (fun r => PrimM.looks_find _ _) _).endsIn fun printed => ?_
  exact Or.inl ⟨_, _, htext _, carries_effect.mp (carries_made (Arena.newString_makes _ c.arena))⟩

/-- Forged items are looked at, and what comes of that is a text, a refusal or a stop. -/
theorem runJoin_endsIn (htext : ∀ text, P (.make .fresh (.ofText text))) (args : List Ref)
    (c : Context) : EndsIn P (Primitive.joinStrings.run args) c := by
  unfold Primitive.run
  split
  · have hlooks : PrimM.Looks (Primitive.argument args 0) := by
      unfold Primitive.argument
      split
      · exact PrimM.looks_pure _
      · exact fun _ => Or.inr ⟨_, rfl⟩
    exact hlooks.endsIn fun list => joinItems_endsIn htext list _ c
  · exact Or.inr ⟨_, rfl⟩

/-- **A call has an effect of its plan, or leaves everything as it was.** Strings are joined by
what the items turn out to be, which may be another text than the plan has. -/
theorem invoke_endsIn (ht : c.arena.Tiled hs) {args : List Ref} (hargs : ∀ r ∈ args, r.Among hs)
    (name : String)
    (hplan : (Primitive.planNamed name c.arena.view c.arena.freeWords args).Ensures P)
    (htext : ∀ text, P (.make .fresh (.ofText text))) :
    EndsIn P (Primitive.invoke name args) c := by
  have hknows : ∀ r ∈ args, c.arena.Knows r := fun r hr => ht.knows (hargs r hr)
  unfold Primitive.planNamed at hplan
  unfold Primitive.invoke
  cases hname : Primitive.ofName? name with
  | none => exact Or.inr ⟨_, rfl⟩
  | some p =>
    rw [hname] at hplan
    by_cases hjoin : p = .joinStrings
    · subst hjoin
      exact runJoin_endsIn htext args c
    · have hcarries := run_carries hknows fun heq => absurd heq hjoin
      exact hcarries.endsIn (plan_refusesFirst p _ _ args) hplan

/-- An effect is no refusal. -/
theorem Effect.Performed.not_refused {e : Effect} {a : Arena} {s : Source} {f : Failure}
    (hp : e.Performed a s (.error (.failure f) d)) : False := by
  rcases hp.result with ⟨r, d, hok⟩ | ⟨n, _, hstop⟩
  · cases hok
  · cases hstop

/-- A value means that one of the effects was carried out. -/
theorem EndsIn.effect {r : Ref} (he : EndsIn P prog c) (hrun : prog c = .ok r d) :
    ∃ e s, P e ∧ e.Performed c.arena s (.ok r d) := by
  rcases he with he | ⟨refusal, hend⟩
  · rwa [hrun] at he
  · rw [hrun] at hend
    cases hend

/-- A refusal leaves the arena and the random source as they were. -/
theorem EndsIn.unchanged {f : Failure} (he : EndsIn P prog c)
    (hrun : prog c = .error (.failure f) d) : d = c := by
  rcases he with ⟨e, s, _, hp⟩ | ⟨refusal, hend⟩
  · rw [hrun] at hp
    exact hp.not_refused.elim
  · rw [hrun] at hend
    cases hend
    rfl

end Ends

/-! ## Refused calls -/

/-- **A refused call changes nothing.** Let the used words be tiled by the objects `hs`, as any run
leaves them (`Reached.accounted`, `Course.closed`), whatever these hold, and call any primitive,
known or not, with any row of arguments that names no other objects. If the arguments are refused,
then the context is the very same as before the call: all words of the arena, used or not, its
boundary, its counters, its action on exhaustion and its journal, and the random source with the
number of draws it has made. -/
theorem refused_call_changes_nothing {c d : Context} {hs : List Handle} (ht : c.arena.Tiled hs)
    (name : String) {args : List Ref} (hargs : ∀ r ∈ args, r.Among hs) {f : Failure}
    (hrun : Primitive.invoke name args c = .error (.failure f) d) : d = c := by
  have hany : (Primitive.planNamed name c.arena.view c.arena.freeWords args).Ensures
      fun _ => True := Plan.ensures_of_forall (fun _ => trivial) _
  exact (invoke_endsIn ht hargs name hany fun _ => trivial).unchanged hrun

/-- A place in an empty list is to be picked at random. The selector has been read by the time
there turns out to be no place. -/
theorem random_place_in_empty_list :
    ∃ c, Session c [⟨0⟩, ⟨3⟩] ∧
      ∃ d, Primitive.invoke "at" [.obj ⟨0⟩, .obj ⟨3⟩] c = .error (.failure .indexOutOfRange) d ∧
        d = c := by
  have h0 := Session.start 64 .panic (Source.ofList [7])
  have h1 := Session.step (.make (.string (Utf8.encode "random"))) h0 trivial rfl
  have h2 := Session.step (.invoke "newList" []) h1 (fun r hr => nomatch hr) rfl
  have hargs : ∀ r ∈ [Ref.obj ⟨0⟩, .obj ⟨3⟩], r.Among [⟨0⟩, ⟨3⟩] :=
    among_pair (among_obj.mpr (by decide)) (among_obj.mpr (by decide))
  exact ⟨_, h2, _, rfl, refused_call_changes_nothing h2.closed.tiled "at" hargs rfl⟩

end ObjectMemory
