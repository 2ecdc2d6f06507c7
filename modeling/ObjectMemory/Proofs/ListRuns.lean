import ObjectMemory.Proofs.Cost
import ObjectMemory.Proofs.Following
import ObjectMemory.Proofs.Kinds

/-!
# Runs of the primitives on lists

In any run of the primitives, over any number of lists and with calls on strings and byte arrays
in between, every answer is one that the verdict allows, and in the end every list of the arena
reads as the heap says: `list_primitives_refine_sequences`. A list that was left behind when it
grew is a list like any other.

A heap has room for everything and an arena has not, so a call may stop where a verdict does not.
But it does so for the words of the list that the verdict makes, and for no others.
-/

namespace ObjectMemory

/-! ## The heap after a step

Lists are shown as sequences, and what becomes of them is what becomes of any class of objects. -/

section Steps

variable {a b : Arena} {hs : List Handle} {h : Handle} {ws : List Word} {o : Origin}
  {content : Content}

theorem heap_stored (hc : a.Closed hs) (hh : h ∈ hs) (hcls : (a.view h).cls = .list)
    (hst : a.Stored h ws b) :
    b.view.heap hs = (a.view.heap hs).set h (Content.mk .list ws).sequence := by
  funext g
  exact shown_stored hc.tiled hh hcls hst g

theorem heap_stored_apart (hc : a.Closed hs) (hh : h ∈ hs) (hcls : (a.view h).cls ≠ .list)
    (hst : a.Stored h ws b) : b.view.heap hs = a.view.heap hs :=
  shown_wrote_apart hc.tiled hh hcls hst.toWroteIn

/-- There is no list yet where the next object will be. -/
theorem heap_used (hc : a.Closed hs) : a.view.heap hs ⟨a.used⟩ = none :=
  shown_used hc.tiled

theorem heap_made (hc : a.Closed hs) (hm : a.Made o ⟨.list, ws⟩ b) :
    b.view.heap (hs ++ [⟨a.used⟩]) =
      (a.view.heap hs).set ⟨a.used⟩ (Content.mk .list ws).sequence := by
  funext g
  exact shown_made hc.tiled hm rfl g

theorem heap_made_apart (hc : a.Closed hs) (hm : a.Made o content b)
    (hcls : content.cls.stored ≠ .list) :
    b.view.heap (hs ++ [⟨a.used⟩]) = a.view.heap hs :=
  shown_made_apart hc.tiled hm hcls

end Steps

/-! ## Runs -/

namespace Command

/-- A command that makes and changes no lists, unless it calls a primitive. -/
def Plain : Command → Prop
  | .make (.object ..) | .grow .. | .reset => False
  | .edit _ e =>
    match e with
    | .byte .. | .bytes .. | .allBytes _ => True
    | _ => False
  | _ => True

/-- The entry that a command adds to the log of calls on lists. -/
def logged (v : View) (answer : Answer) : Command → List (ListCall × Answer)
  | .invoke name args =>
    match Primitive.listCallNamed? v name args with
    | some call => [(call, answer)]
    | none => []
  | _ => []

end Command

/-- Lists are left to the primitives, and the calls on them are noted with their answers. -/
def Rules.lists : Rules (List (ListCall × Answer)) where
  admits cmd _ := cmd.Plain
  blank := []
  note cmd answer a _ log := log ++ cmd.logged a.view answer

/-- Primitives and commands on strings and byte arrays lead from an empty arena to the context `c`.
The handles `hs` were given, and `log` are the calls on lists with their answers. -/
def ListRun (c : Context) (hs : List Handle) (log : List (ListCall × Answer)) : Prop :=
  Course .lists c hs log

/-- The answer and the heap after it are what the verdict says. -/
def Verdict.Allows (heap : Heap) (answer : Answer) (next : Heap) : Verdict → Prop
  | oneOf rs => (∃ r ∈ rs, answer = .given r) ∧ next = heap
  | change h s r => answer = .given r ∧ next = heap.set h s
  | make s => ∃ h, heap h = none ∧ answer = .given (.obj h) ∧ next = heap.set h s
  | refuse f => answer = .refused f ∧ next = heap

/-- Verdicts lead from the heap without lists to the heap, with the answers of the log. -/
inductive HeapRun : (log : List (ListCall × Answer)) → (heap : Heap) → Prop
  | start : HeapRun [] fun _ => none
  | step {log : List (ListCall × Answer)} {heap next : Heap} {answer : Answer} (call : ListCall)
    (before : HeapRun log heap) (allowed : (call.verdict heap).Allows heap answer next) :
    HeapRun (log ++ [(call, answer)]) next

/-- The arena has a list at the handle if the heap has, and both read alike. -/
def Heap.ReadsAs (heap : Heap) (a : Arena) (h : Handle) : Prop :=
  match heap h with
  | some s => a.classOf h = .ok .list ∧ ListObject.items a h = .ok s.items ∧
      ListObject.capacity a h = .ok s.capacity
  | none => a.classOf h ≠ .ok .list

section Runs

variable {a b : Arena} {c d : Context} {hs : List Handle} {log : List (ListCall × Answer)}
  {answer : Answer}

theorem Arena.Closed.small (hc : a.Closed hs) : a.view.Small hs := by
  intro h hh
  have hholds := hc.tiled.holds hh
  have hafter := hholds.after_le
  have hused := hholds.used_le
  have hsize := hc.tiled.size
  rw [Store.after_eq] at hafter
  rw [Arena.length_view hholds]
  omega

/-- **What matches a verdict is allowed by it**, once it was done. -/
theorem Effect.Matches.allows {e : Effect} {verdict : Verdict} (hc : a.Closed hs)
    (hm : e.Matches a.view hs verdict) (hw : e.Within hs a.view) {s : Source} {r : Ref}
    (hp : e.Performed a s (.ok r d)) :
    verdict.Allows (a.view.heap hs) (.given r) (d.arena.view.heap (noted hs r)) := by
  cases verdict with
  | oneOf rs =>
    obtain ⟨x, hx, rfl⟩ := hm
    cases hp
    rw [noted_of_among hw]
    exact ⟨⟨_, hx, rfl⟩, rfl⟩
  | change h q x =>
    obtain ⟨hh, hcls, ⟨rfl, hseq⟩ | ⟨words, rfl, hseq⟩⟩ := hm
    · cases hp
      rw [noted_of_among hw]
      refine ⟨rfl, ?_⟩
      -- nothing is stored, and the sequence is the one that was there
      funext g
      by_cases hgh : g = h
      · subst hgh
        rw [Heap.set, if_pos rfl, View.heap, if_pos ⟨hh, hcls⟩, hseq]
      · rw [Heap.set, if_neg hgh]
    · obtain ⟨b, heq, hst⟩ := hp
      cases heq
      rw [noted_of_among hw.2.1]
      refine ⟨rfl, ?_⟩
      rw [heap_stored hc hh hcls hst, hseq]
  | make q =>
    obtain ⟨o, words, rfl, _, hseq⟩ := hm
    obtain ⟨rfl, b, rfl, hmade⟩ := hp.made
    rw [hc.tiled.noted_used]
    refine ⟨⟨a.used⟩, heap_used hc, rfl, ?_⟩
    rw [heap_made hc hmade, hseq hmade.fits.2]
  | refuse f => exact hm.elim

theorem Effect.Apart.heap_eq {e : Effect} (hc : a.Closed hs) (hapart : e.Apart a.view)
    (hw : e.Within hs a.view) {s : Source} {r : Ref} (hp : e.Performed a s (.ok r d)) :
    d.arena.view.heap (noted hs r) = a.view.heap hs := by
  cases e with
  | give x =>
    cases hp
    rw [noted_of_among hw]
  | rewrite h words x =>
    obtain ⟨b, heq, hst⟩ := hp
    cases heq
    rw [noted_of_among hw.2.1]
    exact heap_stored_apart hc hw.1 hapart hst
  | make o content =>
    obtain ⟨rfl, b, rfl, hmade⟩ := hp.made
    rw [hc.tiled.noted_used]
    exact heap_made_apart hc hmade hapart

/-- A call that was answered ended as its plan says. -/
theorem run_invoke_ok (hc : c.arena.Closed hs) {name : String} {args : List Ref}
    (hargs : ∀ r ∈ args, r.Among hs) (hrun : (Command.invoke name args).run c = .ok answer d) :
    ∃ s, (∃ f, (Primitive.planNamed name c.arena.view c.arena.freeWords args).run c.source =
          (.error f, s) ∧ answer = .refused f ∧ d.arena = c.arena) ∨
      ∃ e r, (Primitive.planNamed name c.arena.view c.arena.freeWords args).run c.source =
          (.ok e, s) ∧ answer = .given r ∧ e.Performed c.arena s (.ok r d) := by
  have hcarries := invoke_carries (hc.knowsArguments hargs) name
  unfold Carries at hcarries
  rw [run_invoke] at hrun
  cases hend : (Primitive.planNamed name c.arena.view c.arena.freeWords args).run c.source with
  | mk result s =>
    rw [hend] at hcarries
    refine ⟨s, ?_⟩
    cases result with
    | error f =>
      dsimp only at hcarries
      rw [hcarries] at hrun
      cases hrun
      exact Or.inl ⟨f, rfl, rfl, rfl⟩
    | ok e =>
      dsimp only at hcarries
      -- an effect without room would have ended the run
      rcases hcarries.result with ⟨r, d', hok⟩ | ⟨n, _, hstop⟩
      · rw [hok] at hrun hcarries
        cases hrun
        exact Or.inr ⟨e, r, rfl, rfl, hcarries⟩
      · rw [hstop] at hrun
        cases hrun

/-- **A call on lists is answered as its verdict says**, and so is the heap after it. -/
theorem invoke_allowed (hc : c.arena.Closed hs) {name : String} {args : List Ref}
    (hargs : ∀ r ∈ args, r.Among hs) (hrun : (Command.invoke name args).run c = .ok answer d)
    {call : ListCall} (hcall : Primitive.listCallNamed? c.arena.view name args = some call) :
    (call.verdict (c.arena.view.heap hs)).Allows (c.arena.view.heap hs) answer
      (d.arena.view.heap ((Command.invoke name args).handles hs answer)) := by
  have hfollows := planNamed_follows hc.nameable hc.small hargs c.arena.freeWords hcall
  have hwithin := planNamed_within hc hargs name
  obtain ⟨s, ⟨f, hend, rfl, hsame⟩ | ⟨e, r, hend, rfl, hperformed⟩⟩ := run_invoke_ok hc hargs hrun
  · have hverdict := hfollows.of_run c.source
    rw [hend] at hverdict
    dsimp only at hverdict
    rw [hverdict, hsame]
    exact ⟨rfl, rfl⟩
  · have hmatches := hfollows.of_run c.source
    rw [hend] at hmatches
    exact hmatches.allows hc (hwithin.of_run hend) hperformed

/-- **A call on lists is a step of the heap**, with the same answer. -/
theorem HeapRun.invoke (hheap : HeapRun log (c.arena.view.heap hs)) (hc : c.arena.Closed hs)
    {name : String} {args : List Ref} (hargs : ∀ r ∈ args, r.Among hs)
    (hrun : (Command.invoke name args).run c = .ok answer d) {call : ListCall}
    (hcall : Primitive.listCallNamed? c.arena.view name args = some call) :
    HeapRun (log ++ [(call, answer)])
      (d.arena.view.heap ((Command.invoke name args).handles hs answer)) :=
  .step call hheap (invoke_allowed hc hargs hrun hcall)

/-- A call that is none on lists leaves the heap as it is. -/
theorem heap_invoke_apart (hc : c.arena.Closed hs) {name : String} {args : List Ref}
    (hargs : ∀ r ∈ args, r.Among hs) (hrun : (Command.invoke name args).run c = .ok answer d)
    (hcall : Primitive.listCallNamed? c.arena.view name args = none) :
    d.arena.view.heap ((Command.invoke name args).handles hs answer) = c.arena.view.heap hs := by
  have hapart := planNamed_apart c.arena.freeWords hcall
  have hwithin := planNamed_within hc hargs name
  obtain ⟨s, ⟨f, _, rfl, hsame⟩ | ⟨e, r, hend, rfl, hperformed⟩⟩ := run_invoke_ok hc hargs hrun
  · rw [hsame]
    rfl
  · exact (hapart.of_run hend).heap_eq hc (hwithin.of_run hend) hperformed

/-- **The heap and the arena go through a run side by side.** -/
theorem ListRun.heap (hrun : ListRun c hs log) : HeapRun log (c.arena.view.heap hs) := by
  refine hrun.keeps (P := fun c hs log => HeapRun log (c.arena.view.heap hs)) ?_ ?_
  · intro words action source
    exact .start
  · intro c d hs log answer cmd hc ih plain honest run
    -- all commands but calls log nothing, and leave the lists alone
    have hquiet (hlog : cmd.logged c.arena.view answer = [])
        (hsame : d.arena.view.heap (cmd.handles hs answer) = c.arena.view.heap hs) :
        HeapRun (log ++ cmd.logged c.arena.view answer)
          (d.arena.view.heap (cmd.handles hs answer)) := by
      rw [hlog, hsame, List.append_nil]
      exact ih
    cases cmd with
    | make r =>
      obtain ⟨rfl, hmade⟩ := run_make_ok run
      refine hquiet rfl ?_
      dsimp only [Command.handles]
      rw [hc.tiled.noted_used]
      refine heap_made_apart hc hmade fun hlist => ?_
      cases r with
      | object => exact plain
      | _ => cases hlist
    | grow h payload fill => exact plain.elim
    | edit h e =>
      obtain ⟨hh, hon⟩ := honest
      have hholds := hc.tiled.holds hh
      obtain ⟨rfl, hst⟩ := run_edit_ok hholds hon.sources run
      refine hquiet rfl (heap_stored_apart hc hh (fun hlist => ?_) hst)
      -- only bytes are written, and a list is no place for them
      have hbytes := not_bytes_of_list hholds hlist
      cases e with
      | field => exact plain
      | word => exact plain
      | fields => exact plain
      | copy => exact plain
      | _ => exact hbytes hon
    | ask q =>
      obtain ⟨rfl, x, rfl⟩ := run_ask_ok run
      exact hquiet rfl rfl
    | invoke name args =>
      cases hcall : Primitive.listCallNamed? c.arena.view name args with
      | none =>
        refine hquiet ?_ (heap_invoke_apart hc honest run hcall)
        rw [Command.logged, hcall]
      | some call =>
        have hlog : (Command.invoke name args).logged c.arena.view answer = [(call, answer)] := by
          rw [Command.logged, hcall]
        show HeapRun (log ++ (Command.invoke name args).logged c.arena.view answer) _
        rw [hlog]
        exact ih.invoke hc honest run hcall
    | reset => exact plain.elim

end Runs

/-! ## Room for what is made -/

/-- The words of the list that a call with the verdict makes, with its header and count. -/
def Verdict.words : Verdict → Nat
  | make s => s.capacity + 2
  | _ => 0

/-- The words that a call takes up. A call on lists is decided by its verdict in the heap, and the
other ones have a price of their own. -/
def Heap.wordsFor (heap : Heap) (c : Context) (name : String) (args : List Ref) : Nat :=
  match Primitive.listCallNamed? c.arena.view name args with
  | some call => (call.verdict heap).words
  | none => Primitive.costNamed name c.arena.view c.source args

/-- The command is answered, unless it takes up `w` words which the arena has not free, with one
word more. Then it stops for them. -/
def Command.StopsOnlyFor (w : Nat) (c : Context) (cmd : Command) : Prop :=
  if w = 0 ∨ c.arena.used + w < c.arena.capacity then ∃ answer d, cmd.run c = .ok answer d
  else ∃ d, cmd.run c =
    .error (.exhausted c.arena.onExhaustion (Size.reported c.arena.used w) c.arena.capacity) d

section Room

variable {c : Context} {hs : List Handle} {log : List (ListCall × Answer)} {name : String}
  {args : List Ref}

theorem Charged.stopsOnlyFor {w : Nat} (hcharged : Charged c w (Primitive.invoke name args c)) :
    (Command.invoke name args).StopsOnlyFor w c := by
  unfold Command.StopsOnlyFor
  simp only [run_invoke]
  generalize Primitive.invoke name args c = outcome at hcharged
  split
  · next hroom =>
    cases outcome with
    | ok r d => exact ⟨_, _, rfl⟩
    | error e d =>
      cases e with
      | failure f => exact ⟨_, _, rfl⟩
      | stop s =>
        obtain ⟨hpos, -⟩ := hcharged.stopped s d rfl
        have hfull := (hcharged.full hpos).mp ⟨s, d, rfl⟩
        omega
  · next hnone =>
    obtain ⟨s, d, rfl⟩ := (hcharged.full (by omega)).mpr (by omega)
    obtain ⟨-, rfl⟩ := hcharged.stopped s d rfl
    exact ⟨d, rfl⟩

/-- What matches a verdict takes up the words of the list that there is to be. -/
theorem Effect.Matches.cost_eq {v : View} {e : Effect} {verdict : Verdict}
    (hm : e.Matches v hs verdict) : e.cost = verdict.words := by
  cases verdict with
  | oneOf rs =>
    obtain ⟨x, _, rfl⟩ := hm
    rfl
  | change h s r =>
    obtain ⟨_, _, ⟨rfl, _⟩ | ⟨words, rfl, _⟩⟩ := hm
    · rfl
    · rfl
  | make s =>
    obtain ⟨o, words, rfl, hlen, _⟩ := hm
    show 1 + words.length = s.capacity + 2
    omega
  | refuse f => exact hm.elim

theorem Plan.Follows.cost_eq {v : View} {plan : Plan Effect} {verdict : Verdict}
    (hp : plan.Follows v hs verdict) (s : Source) : plan.cost s = verdict.words := by
  have hend := hp.of_run s
  unfold Plan.cost
  cases hrun : plan.run s with
  | mk result t =>
    rw [hrun] at hend
    cases result with
    | ok e => exact hend.cost_eq
    | error f =>
      dsimp only at hend
      rw [hend]
      rfl

/-- **A call stops only for the words that it takes up**, by the heap that the arena shows. -/
theorem invoke_stopsOnlyFor (hc : c.arena.Closed hs) (name : String)
    (hargs : ∀ r ∈ args, r.Among hs) :
    (Command.invoke name args).StopsOnlyFor ((c.arena.view.heap hs).wordsFor c name args) c := by
  have hcharged := (invoke_carries (hc.knowsArguments hargs) name).charged hc.tiled.size
  have hwords : (Primitive.planNamed name c.arena.view c.arena.freeWords args).cost c.source =
      (c.arena.view.heap hs).wordsFor c name args := by
    unfold Heap.wordsFor
    cases hcall : Primitive.listCallNamed? c.arena.view name args with
    | none => exact planNamed_cost name c.arena.view c.arena.freeWords args c.source
    | some call =>
      exact (planNamed_follows hc.nameable hc.small hargs c.arena.freeWords hcall).cost_eq c.source
  rw [hwords] at hcharged
  exact hcharged.stopsOnlyFor

/-- **The primitives on lists refine a heap of sequences.** Take any run of the primitives from an
empty arena, on any number of lists and with calls on strings and byte arrays in between, in which
no object lacked room. A heap that knows sequences only goes through the same calls with the same
answers, and in the end each object that was given is a list if and only if the heap has one, with
the items and the capacity that the heap says.

The heap also knows which calls can be part of such a run. A further call on lists is answered,
unless it makes a list in the heap, and the words that this list has in an arena, with a header and
a count, are not free. Then the run stops, and its report is of these words. Any other call is
answered or stops in the same way by its price, which is none for most calls. -/
theorem list_primitives_refine_sequences (hrun : ListRun c hs log) :
    ∃ heap, HeapRun log heap ∧ (∀ h ∈ hs, heap.ReadsAs c.arena h) ∧
      ∀ name args, (∀ r ∈ args, r.Among hs) →
        (Command.invoke name args).StopsOnlyFor (heap.wordsFor c name args) c := by
  have hc := hrun.closed
  refine ⟨_, hrun.heap, fun h hh => ?_, fun name args hargs => invoke_stopsOnlyFor hc name hargs⟩
  have hholds := hc.tiled.holds hh
  unfold Heap.ReadsAs View.heap
  rw [Arena.classOf_eq hholds, ListObject.items_eq hholds, ListObject.capacity_eq hholds]
  by_cases hcls : (c.arena.view h).cls = .list
  · rw [if_pos ⟨hh, hcls⟩, hcls]
    exact ⟨rfl, rfl, rfl⟩
  · rw [if_neg fun hin => hcls hin.2]
    intro heq
    exact hcls (Except.ok.inj heq)

end Room

/-- What a heap has for a list is what is read of it. -/
theorem Heap.ReadsAs.eq_some {heap : Heap} {a : Arena} {h : Handle} {s : Sequence}
    (hreads : heap.ReadsAs a h) (hcls : a.classOf h = .ok .list)
    (hitems : ListObject.items a h = .ok s.items)
    (hcapacity : ListObject.capacity a h = .ok s.capacity) : heap h = some s := by
  unfold Heap.ReadsAs at hreads
  cases hshown : heap h with
  | none =>
    rw [hshown] at hreads
    exact absurd hcls hreads
  | some t =>
    rw [hshown] at hreads
    obtain ⟨_, hread, hroom⟩ := hreads
    rw [hitems] at hread
    rw [hcapacity] at hroom
    obtain ⟨items, capacity⟩ := t
    cases hread
    cases hroom
    rfl

/-- A full list of one item grows for a second one, and the list that it leaves behind is deleted
from. That one has a slot and no items then, and its larger copy has two items and five slots. There
is room for one more list of 51 slots, but not for one of 52. -/
theorem old_list_after_growth :
    ∃ (c : Context) (heap : Heap),
      let log := [(.makeList [.true], .given (.obj ⟨0⟩)),
        (.addLast (.obj ⟨0⟩) (.int 5), .given (.obj ⟨3⟩)),
        (.delete (.obj ⟨0⟩) (some (.index 1)), .given .false)]
      ListRun c [⟨0⟩, ⟨3⟩] log ∧ HeapRun log heap ∧
      heap ⟨0⟩ = some ⟨[], 1⟩ ∧ heap ⟨3⟩ = some ⟨[.true, .int 5], 5⟩ ∧
      (∀ h ∈ [⟨0⟩, ⟨3⟩], heap.ReadsAs c.arena h) ∧
      (∃ answer d, (Command.invoke "newList" [.int 51]).run c = .ok answer d) ∧
      ∃ d, (Command.invoke "newList" [.int 52]).run c = .error (.exhausted .panic 64 64) d := by
  have h0 : ListRun _ _ _ := Course.start 64 .panic (Source.ofList [])
  have h1 := Course.step (.invoke "makeList" [.true]) h0 trivial
    (fun r hr => by rw [List.mem_singleton.mp hr]; exact among_of_obj? rfl _) rfl
  have h2 := Course.step (.invoke "addLast" [.int 5, .obj ⟨0⟩]) h1 trivial
    (among_pair (among_of_obj? rfl _) (among_obj.mpr (by decide))) rfl
  have h3 := Course.step (.invoke "delete" [.int 1, .obj ⟨0⟩]) h2 trivial
    (among_pair (among_of_obj? rfl _) (among_obj.mpr (by decide))) rfl
  obtain ⟨heap, hheap, hreads, hcalls⟩ := list_primitives_refine_sequences h3
  have hasked (n : Int) : ∀ r ∈ [Ref.int n], r.Among [⟨0⟩, ⟨3⟩] :=
    among_cons (among_of_obj? rfl _) among_nil
  refine ⟨_, heap, h3, hheap, ?_, ?_, hreads, ?_, ?_⟩
  · exact (hreads ⟨0⟩ (by decide)).eq_some rfl rfl rfl
  · exact (hreads ⟨3⟩ (by decide)).eq_some rfl rfl rfl
  · exact hcalls "newList" [.int 51] (hasked 51)
  · exact hcalls "newList" [.int 52] (hasked 52)

end ObjectMemory
