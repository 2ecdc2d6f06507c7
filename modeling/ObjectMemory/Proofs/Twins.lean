import ObjectMemory.Proofs.Session

/-!
# Arenas that cannot be told apart

Resetting an arena moves its boundary back and leaves its words where they are. Whether a program
can find them again is a question about two runs: one in the arena that was emptied, and one in an
arena that was just made.

Two arenas are `Twins` if they agree on all that lies below the boundary and on what decides
whether an object fits. What lies above may differ. The relation is enough to read the same
(`Twins.read`), and whatever is stored or made in both in the same way leaves twins again
(`Twins.stored`, `Twins.made`), because every word of a new object is written when it is made.
So no run leads out of it: `reset_arena_behaves_like_new`.
-/

namespace ObjectMemory

open Arena (Holds)
open PrimM (onArena)

/-! ## Random sources -/

/-- The sources yield the same numbers from now on. -/
def Source.Alike (s t : Source) : Prop :=
  ∀ i, s.stream (s.drawn + i) = t.stream (t.drawn + i)

section Sources

variable {s t : Source} {α : Type}

/-- **Alike sources have the same picks**, and are alike after them. -/
theorem Source.Alike.pick (hst : s.Alike t) (n : Nat) :
    (s.pick n).1 = (t.pick n).1 ∧ (s.pick n).2.Alike (t.pick n).2 := by
  obtain ⟨k, hs, haccS, hbeforeS⟩ := s.pick_eq n
  obtain ⟨m, ht, haccT, hbeforeT⟩ := t.pick_eq n
  -- neither source settles before the other one
  have hplace : k = m := by
    rcases Nat.lt_trichotomy k m with hlt | heq | hgt
    · rw [hst k, hbeforeT k hlt] at haccS
      cases haccS
    · exact heq
    · rw [← hst m, hbeforeS m hgt] at haccT
      cases haccT
  subst hplace
  rw [hs, ht]
  refine ⟨congrArg (Source.share n) (hst k), fun i => ?_⟩
  have hi := hst (k + (1 + i))
  rw [← Nat.add_assoc, ← Nat.add_assoc, ← Nat.add_assoc, ← Nat.add_assoc] at hi
  exact hi

/-- **A plan comes to the same result** with sources that yield the same numbers. -/
theorem Plan.run_alike (p : Plan α) (hst : s.Alike t) :
    ∃ t', p.run t = ((p.run s).1, t') ∧ (p.run s).2.Alike t' := by
  induction p generalizing s t with
  | give x => exact ⟨t, rfl, hst⟩
  | refuse f => exact ⟨t, rfl, hst⟩
  | draw n next ih =>
    obtain ⟨hpick, hrest⟩ := hst.pick n
    obtain ⟨t', hrun, halike⟩ := ih (s.pick n).1 hrest
    refine ⟨t', ?_, halike⟩
    show (next (t.pick n).1).run _ = _
    rw [← hpick]
    exact hrun

end Sources

/-! ## Counts -/

namespace Counters

/-- What was counted in all, if first `old` was counted and then `new`. -/
def plus (old new : Counters) : Counters where
  peak := max old.peak new.peak
  allocations := old.allocations + new.allocations
  relocations := old.relocations + new.relocations
  relocatedWords := old.relocatedWords + new.relocatedWords
  resets := old.resets + new.resets

theorem plus_zero (c : Counters) : c.plus {} = c := by
  simp [plus]

theorem plus_countAllocation (old new : Counters) (used : Nat) :
    old.plus (new.countAllocation used) = (old.plus new).countAllocation used := by
  simp only [plus, countAllocation, Nat.max_assoc, Nat.add_assoc]

theorem plus_countRelocation (old new : Counters) (words : Nat) :
    old.plus (new.countRelocation words) = (old.plus new).countRelocation words := by
  simp only [plus, countRelocation, Nat.add_assoc]

theorem plus_countReset (old new : Counters) :
    old.plus new.countReset = (old.plus new).countReset := by
  simp only [plus, countReset, Nat.add_assoc]

end Counters

theorem Origin.plus_counted (o : Origin) (words : Nat) (old new : Counters) :
    old.plus (o.counted words new) = o.counted words (old.plus new) := by
  cases o with
  | fresh => rfl
  | copyOf h => exact Counters.plus_countRelocation old new words
  | largerList h => exact Counters.plus_countRelocation old new words

/-! ## Twins -/

namespace Arena

/-- The arenas differ in nothing that can be read, and the first one has counted `past` besides
what the second one has counted. -/
structure Twins (past : Counters) (a b : Arena) : Prop where
  capacity : a.capacity = b.capacity
  used : a.used = b.used
  action : a.onExhaustion = b.onExhaustion
  get : ∀ i < b.used, a.store.get i = b.store.get i
  counters : a.counters = past.plus b.counters

namespace Twins

variable {past : Counters} {a b a' b' : Arena} {h : Handle} {hs : List Handle} {ws : List Word}
  {o : Origin} {c : Content}

theorem holds (ht : Twins past a b) (hh : b.Holds h) : a.Holds h :=
  (hh.congr ht.used ht.capacity ht.get).1

theorem view (ht : Twins past a b) : a.view = b.view :=
  view_congr ht.used ht.capacity ht.get

theorem freeWords (ht : Twins past a b) : a.freeWords = b.freeWords := by
  rw [Arena.freeWords, Arena.freeWords, ht.capacity, ht.used]

theorem fits (ht : Twins past a b) (n : Nat) : a.Fits n ↔ b.Fits n := by
  unfold Fits
  rw [ht.capacity, ht.used]

theorem exhaustion (ht : Twins past a b) (n : Nat) : a.exhaustion n = b.exhaustion n := by
  rw [Arena.exhaustion, Arena.exhaustion, ht.action, ht.used, ht.capacity]

/-- Twins are tiled by the same handles, and their lists hold the same. -/
theorem closed (ht : Twins past a b) (hc : b.Closed hs) : a.Closed hs where
  tiled := by
    refine hc.tiled.transport ht.used ht.capacity fun h hh => ht.get _ ?_
    have hafter := (hc.tiled.holds hh).after_le
    exact Nat.lt_of_lt_of_le (b.store.lt_after h.index) hafter
  sound := by
    rw [ht.view]
    exact hc.sound

/-! ### Changes that keep twins -/

theorem refused (ht : Twins past a b) (n : Nat) : Twins past (a.refused n) (b.refused n) :=
  ⟨ht.capacity, ht.used, ht.action, ht.get, ht.counters⟩

/-- A word of an object is one of those that it shows. -/
theorem get_of_view (hv : a.view h = b.view h) (ha : a.Holds h) (hb : b.Holds h) {j : Nat}
    (hj : h.index < j ∧ j < b.store.after h.index) : a.store.get j = b.store.get j := by
  obtain ⟨hlo, hhi⟩ := hj
  rw [Store.after_eq] at hhi
  have hlen : a.store.wordsAt h.index = b.store.wordsAt h.index := by
    rw [← length_view ha, ← length_view hb, hv]
  have hplace : h.index + 1 + (j - (h.index + 1)) = j := by omega
  have hwa := getElem?_view_of_lt ha (i := j - (h.index + 1)) (by omega)
  have hwb := getElem?_view_of_lt hb (i := j - (h.index + 1)) (by omega)
  rw [hplace] at hwa hwb
  rw [hv, hwb] at hwa
  exact (Option.some.inj hwa).symm

/-- **Twins stay twins when the same is stored into both.** -/
theorem stored (ht : Twins past a b) (hh : b.Holds h) (ha : a.Stored h ws a')
    (hb : b.Stored h ws b') : Twins past a' b' where
  capacity := by rw [ha.capacity, hb.capacity, ht.capacity]
  used := by rw [ha.used, hb.used, ht.used]
  action := by rw [ha.action, hb.action, ht.action]
  get j hj := by
    have hha := ht.holds hh
    -- words of the object are those that were stored, all others are as they were
    by_cases hin : h.index < j ∧ j < b.store.after h.index
    · refine get_of_view (h := h) ?_ (ha.holds hha) (hb.holds hh) ?_
      · rw [ha.view_eq hha, hb.view_eq hh, ht.view]
      · rwa [hb.after]
    · have hsame : a.store.after h.index = b.store.after h.index := by
        refine Store.after_congr (ht.get _ ?_)
        exact Nat.lt_of_lt_of_le (b.store.lt_after h.index) hh.after_le
      rw [hb.used] at hj
      rw [hb.get j hin, ha.get j (hsame ▸ hin), ht.get j hj]
  counters := by rw [ha.counters, hb.counters, ht.counters]

/-- **Twins stay twins when the same object is made in both.** All of its words are new. -/
theorem made (ht : Twins past a b) (ha : a.Made o c a') (hb : b.Made o c b') :
    Twins past a' b' where
  capacity := by rw [ha.capacity, hb.capacity, ht.capacity]
  used := by rw [ha.used, hb.used, ht.used]
  action := by rw [ha.action, hb.action, ht.action]
  get j hj := by
    by_cases hbelow : j < b.used
    · rw [hb.get j (by omega), ha.get j (by rw [ht.used]; omega), ht.get j hbelow]
    · -- the words of the new object are its header and its content
      by_cases hheader : j = b.used
      · have hhead := ha.header
        rw [ht.used] at hhead
        rw [hheader, hhead, hb.header]
      · have hview : a'.view ⟨b.used⟩ = b'.view ⟨b.used⟩ := by
          rw [hb.view_new, ← ht.used, ha.view_new]
        refine get_of_view hview (ht.used ▸ ha.holds_new) hb.holds_new ⟨?_, ?_⟩
        · show b.used < j
          omega
        · rw [hb.after]
          exact hj
  counters := by
    rw [ha.counters, hb.counters, ht.counters, ht.used, Origin.plus_counted,
      Counters.plus_countAllocation]

theorem emptied (ht : Twins past a b) {a' b' : Arena} (ha : Arena.reset a = .ok () a')
    (hb : Arena.reset b = .ok () b') : Twins past a' b' := by
  cases ha
  cases hb
  refine ⟨ht.capacity, rfl, ht.action, fun i hi => absurd hi (Nat.not_lt_zero i), ?_⟩
  show a.counters.countReset = past.plus b.counters.countReset
  rw [ht.counters, Counters.plus_countReset]

/-! ### Readings -/

theorem contains (ht : Twins past a b) (h : Handle) : a.contains h = b.contains h := by
  simp only [Arena.contains, ht.used]

theorem header (ht : Twins past a b) (hh : b.Holds h) : a.header h = b.header h := by
  rw [header_of_holds hh, header_of_holds (ht.holds hh), ht.get]
  exact Nat.lt_of_lt_of_le (b.store.lt_after h.index) hh.after_le

theorem payloadWord (ht : Twins past a b) (hh : b.Holds h) : a.payloadWord h = b.payloadWord h := by
  funext i
  have ha := ht.holds hh
  have hlen : a.store.wordsAt h.index = b.store.wordsAt h.index := by
    rw [← length_view ha, ← length_view hh, ht.view]
  rw [payloadWord_of_holds hh, payloadWord_of_holds ha, hlen]
  split
  · next hi => rw [ht.get _ (hh.payload_lt hi)]
  · rfl

theorem knows (ht : Twins past a b) {r : Ref} (hk : b.Knows r) : a.Knows r :=
  fun h heq => ht.holds (hk h heq)

/-- **Every question about an object has the same answer in twins.** -/
theorem read (ht : Twins past a b) (hh : b.Holds h) (q : Question) : q.read h a = q.read h b := by
  have hheader := ht.header hh
  have hword := ht.payloadWord hh
  have hfield : a.field h = b.field h := by
    funext i
    rw [field, field, hword]
  have hbyte : a.byteAt h = b.byteAt h := by
    funext i
    rw [byteAt, byteAt, hword]
  have hbytes := stringBytes_eq (ht.holds hh)
  rw [ht.view, ← stringBytes_eq hh] at hbytes
  cases q with
  | header => simp only [Question.read, hheader]
  | cls => simp only [Question.read, Arena.classOf, hheader]
  | payloadWords => simp only [Question.read, Arena.payloadWords, hheader]
  | word i => simp only [Question.read, hword]
  | field i => simp only [Question.read, hfield]
  | byte i => simp only [Question.read, hbyte]
  | bytes offset n => simp only [Question.read, readBytes, hbyte]
  | byteCount => simp only [Question.read, byteArrayLength, Arena.payloadWords, hheader]
  | stringLength =>
    simp only [Question.read, Arena.stringLength, Arena.payloadWords, hheader, hword]
  | stringBytes => simp only [Question.read, hbytes]
  | stringText => simp only [Question.read, Arena.stringText, hbytes]
  | codePoints => simp only [Question.read, StringObject.length, hbytes]
  | itemCount =>
    simp only [Question.read, ListObject.count, Arena.payloadWords, hheader, hfield]
  | itemCapacity => simp only [Question.read, ListObject.capacity, Arena.payloadWords, hheader]
  | items =>
    simp only [Question.read, ListObject.items, ListObject.count, Arena.payloadWords, hheader,
      hfield]
  | dump => simp only [Question.read, Arena.dump, ht.contains, hheader, hword]

/-- **Every query has the same answer in twins**, if it is about known references. -/
theorem readQuery (ht : Twins past a b) {q : Query} (hk : ∀ r ∈ q.subjects, b.Knows r) :
    q.read a = q.read b := by
  cases q with
  | object h q => exact ht.read (hk (.obj h) List.mem_cons_self h rfl) q
  | isClass r c =>
    have hr := hk r List.mem_cons_self
    cases r with
    | obj h =>
      simp only [Query.read, Arena.isClass, classOfRef, Arena.classOf, ht.header (hr h rfl)]
    | _ => rfl
  | stringMatches r bytes =>
    have hr := hk r List.mem_cons_self
    simp only [Query.read, stringMatches_eq hr, stringMatches_eq (ht.knows hr), ht.view]
  | contains h => simp only [Query.read, ht.contains]
  | usedWords => simp only [Query.read, ht.used]
  | freeWords => simp only [Query.read, ht.freeWords]

end Twins

end Arena

/-! ## Runs in twins -/

/-- Both runs give the same value or end with the same stop, in related states. -/
inductive SameEnd {ε σ α : Type} (R : σ → σ → Prop) :
    EStateM.Result ε σ α → EStateM.Result ε σ α → Prop
  | ok (x : α) {c d : σ} (related : R c d) : SameEnd R (.ok x c) (.ok x d)
  | error (e : ε) {c d : σ} (related : R c d) : SameEnd R (.error e c) (.error e d)

theorem SameEnd.flip {ε σ α : Type} {R : σ → σ → Prop} {x y : EStateM.Result ε σ α}
    (h : SameEnd R x y) : SameEnd (fun c d => R d c) y x := by
  cases h with
  | ok value related => exact .ok value related
  | error e related => exact .error e related

/-- **A call that ends in the same way does so as a command.** -/
theorem run_invoke_same {R : Context → Context → Prop} {name : String} {args : List Ref}
    {c d : Context}
    (hsame : SameEnd R (Primitive.invoke name args c) (Primitive.invoke name args d)) :
    SameEnd R ((Command.invoke name args).run c) ((Command.invoke name args).run d) := by
  rw [run_invoke, run_invoke]
  generalize Primitive.invoke name args c = x at hsame
  generalize Primitive.invoke name args d = y at hsame
  cases hsame with
  | ok r related => exact .ok _ related
  | error e related =>
    cases e with
    | failure f => exact .ok _ related
    | stop s => exact .error _ related

/-- The arenas are twins and the sources alike. -/
structure Context.Twins (past : Counters) (c d : Context) : Prop where
  arena : c.arena.Twins past d.arena
  source : c.source.Alike d.source

section Runs

variable {past : Counters} {a b : Arena} {c d : Context} {hs : List Handle} {h : Handle}

open Arena (Twins)

theorem Arena.Makes.same {act : ArenaM Handle} {o : Origin} {content : Content}
    (ht : Twins past a b) (ha : Makes act o content a) (hb : Makes act o content b) :
    SameEnd (Twins past) (act a) (act b) := by
  unfold Makes at ha hb
  by_cases hfits : b.Fits content.words.length
  · rw [if_pos ((ht.fits _).mpr hfits)] at ha
    rw [if_pos hfits] at hb
    obtain ⟨a', hrunA, hmadeA⟩ := ha
    obtain ⟨b', hrunB, hmadeB⟩ := hb
    rw [hrunA, hrunB, ht.used]
    exact .ok _ (ht.made hmadeA hmadeB)
  · rw [if_neg fun hfitsA => hfits ((ht.fits _).mp hfitsA)] at ha
    rw [if_neg hfits] at hb
    rw [ha, hb, ht.exhaustion]
    exact .error _ (ht.refused _)

theorem Request.same (ht : Twins past a b) (r : Request) :
    SameEnd (Twins past) (r.make a) (r.make b) := by
  by_cases hsize : r.Sized
  · by_cases hcls : r.cls.Storable
    · exact Arena.Makes.same ht (Request.makes hcls hsize a) (Request.makes hcls hsize b)
    · cases r with
      | object cls payload fill =>
        cases cls with
        | other t =>
          -- no header can state the class, but room is looked for first
          have hr : ObjClass.isReservedTag t = true := by
            simpa [cls, ObjClass.Storable] using hcls
          show SameEnd _ (Arena.allocate _ _ _ a) (Arena.allocate _ _ _ b)
          rw [Arena.allocate_of_le _ _ hsize]
          by_cases hfits : b.Fits payload
          · rw [Arena.allot_of_reserved hr fill hfits,
              Arena.allot_of_reserved hr fill ((ht.fits _).mpr hfits)]
            exact .error _ ht
          · rw [Arena.allot_of_not_fits hfits,
              Arena.allot_of_not_fits fun hfitsA => hfits ((ht.fits _).mp hfitsA)]
            have hstop := ht.exhaustion payload
            unfold Arena.exhaustion at hstop
            rw [hstop]
            exact .error _ (ht.refused payload)
        | _ => exact absurd trivial hcls
      | _ => exact absurd trivial hcls
  · rw [make_of_not_sized hsize, make_of_not_sized hsize]
    exact .error _ ht

theorem Edit.same (ht : Twins past a b) (hh : b.Holds h) {e : Edit}
    (hs : ∀ g ∈ e.sources, b.Holds g) : SameEnd (Twins past) (e.apply h a) (e.apply h b) := by
  have ha := Edit.apply_ends (ht.holds hh) fun g hg => ht.holds (hs g hg)
  rw [ht.view] at ha
  obtain ⟨a', hstA, hrunA⟩ := ha
  obtain ⟨b', hstB, hrunB⟩ := Edit.apply_ends hh hs
  have htwins := ht.stored hh hstA hstB
  rw [hrunA, hrunB]
  split
  · exact .ok _ htwins
  · exact .error _ htwins

/-- **An effect comes to the same in twins.** -/
theorem Effect.Performed.same {e : Effect} {s t : Source} (ht : Twins past a b)
    (hst : s.Alike t) (hc : b.Closed hs) (hw : e.Within hs b.view)
    {x y : EStateM.Result Refusal Context Ref} (hx : e.Performed a s x) (hy : e.Performed b t y) :
    SameEnd (Context.Twins past) x y := by
  cases e with
  | give r =>
    cases hx
    cases hy
    exact .ok r ⟨ht, hst⟩
  | rewrite h words r =>
    obtain ⟨a', rfl, hstA⟩ := hx
    obtain ⟨b', rfl, hstB⟩ := hy
    exact .ok r ⟨ht.stored (hc.tiled.holds hw.1) hstA hstB, hst⟩
  | make o content =>
    simp only [Effect.Performed] at hx hy
    by_cases hfits : b.Fits content.words.length
    · rw [if_pos ((ht.fits _).mpr hfits)] at hx
      rw [if_pos hfits] at hy
      obtain ⟨a', rfl, hmadeA⟩ := hx
      obtain ⟨b', rfl, hmadeB⟩ := hy
      rw [ht.used]
      exact .ok _ ⟨ht.made hmadeA hmadeB, hst⟩
    · rw [if_neg fun hfitsA => hfits ((ht.fits _).mp hfitsA)] at hx
      rw [if_neg hfits] at hy
      rw [hx, hy, ht.exhaustion]
      exact .error _ ⟨ht.refused _, hst⟩

/-- **A primitive does the same in twins**, whatever it is called with. -/
theorem invoke_same (ht : Context.Twins past c d) (hc : d.arena.Closed hs) {args : List Ref}
    (hargs : ∀ r ∈ args, r.Among hs) (name : String) :
    SameEnd (Context.Twins past) (Primitive.invoke name args c) (Primitive.invoke name args d) := by
  have hx := invoke_carries ((ht.arena.closed hc).knowsArguments hargs) name
  have hy := invoke_carries (hc.knowsArguments hargs) name
  have hwithin := planNamed_within hc hargs name
  unfold Carries at hx hy
  rw [ht.arena.view, ht.arena.freeWords] at hx
  obtain ⟨t, hrun, halike⟩ := Plan.run_alike
    (Primitive.planNamed name d.arena.view d.arena.freeWords args) ht.source
  rw [hrun] at hy
  generalize hplan : (Primitive.planNamed name d.arena.view d.arena.freeWords args).run c.source
    = outcome at hx hy hrun halike
  obtain ⟨result, s⟩ := outcome
  cases result with
  | error f =>
    rw [hx, hy]
    exact .error _ ⟨ht.arena, halike⟩
  | ok e => exact hx.same ht.arena halike hc (hwithin.of_run hplan) hy

theorem run_same_of_onArena {α : Type} {cmd : Command} {act : ArenaM α} {k : α → Answer}
    (hact : cmd.act = do return k (← onArena act)) (hst : c.source.Alike d.source)
    (hsame : SameEnd (Twins past) (act c.arena) (act d.arena)) :
    SameEnd (Context.Twins past) (cmd.run c) (cmd.run d) := by
  rw [run_of_onArena act k hact, run_of_onArena act k hact]
  generalize act c.arena = x at hsame
  generalize act d.arena = y at hsame
  cases hsame with
  | ok x ht => exact .ok _ ⟨ht, hst⟩
  | error e ht => exact .error _ ⟨ht, hst⟩

/-- **An honest command does the same in twins.** -/
theorem Command.Honest.same {cmd : Command} (ht : Context.Twins past c d)
    (hc : d.arena.Closed hs) (hon : cmd.Honest hs d.arena) :
    SameEnd (Context.Twins past) (cmd.run c) (cmd.run d) := by
  cases cmd with
  | make r => exact run_same_of_onArena rfl ht.source (Request.same ht.arena r)
  | grow h payload fill =>
    have hh := hc.tiled.holds hon.1
    have hold := ht.arena.holds hh
    refine run_same_of_onArena rfl ht.source ?_
    rcases Nat.lt_or_ge Size.largest (1 + payload) with hover | hsize
    · rw [Arena.grow_of_lt hold hover, Arena.grow_of_lt hh hover]
      exact .error _ ht.arena
    · have hmakes := Arena.grow_makes hold hsize fill
      rw [ht.arena.view] at hmakes
      exact Arena.Makes.same ht.arena hmakes (Arena.grow_makes hh hsize fill)
  | edit h e =>
    exact run_same_of_onArena rfl ht.source
      (Edit.same ht.arena (hc.tiled.holds hon.1) hon.2.sources)
  | ask q =>
    rw [run_ask, run_ask, ht.arena.readQuery fun r hr => hc.tiled.knows (hon r hr)]
    split
    · exact .ok _ ht
    · exact .error _ ht
  | invoke name args => exact run_invoke_same (invoke_same ht hc hon name)
  | reset => exact .ok _ ⟨ht.arena.emptied rfl rfl, ht.source⟩

end Runs

/-! ## Rows of commands -/

/-- What a row of commands comes to: the answers in their order, the stop that ended the row, if
one did, and the context that is left. -/
structure Transcript where
  answers : List Answer
  stop : Option Stop
  final : Context

/-- Carries out commands one after the other, up to the first stop. -/
def runAll : List Command → Context → Transcript
  | [], c => ⟨[], none, c⟩
  | cmd :: rest, c =>
    match cmd.run c with
    | .ok answer d =>
      let later := runAll rest d
      ⟨answer :: later.answers, later.stop, later.final⟩
    | .error s d => ⟨[], some s, d⟩

/-- Commands that name only immediates, the handles `hs`, and handles that were given for an
earlier one of them. -/
def AllHonest (hs : List Handle) : List Command → Context → Prop
  | [], _ => True
  | cmd :: rest, c =>
    cmd.Honest hs c.arena ∧
      match cmd.run c with
      | .ok answer d => AllHonest (cmd.handles hs answer) rest d
      | .error _ _ => True

section Rows

variable {past : Counters} {cmd : Command} {cmds : List Command} {hs : List Handle}
  {c d : Context} {answer : Answer}

theorem allHonest_cons (hon : cmd.Honest hs c.arena) (hrun : cmd.run c = .ok answer d)
    (hrest : AllHonest (cmd.handles hs answer) cmds d) : AllHonest hs (cmd :: cmds) c := by
  refine ⟨hon, ?_⟩
  rw [hrun]
  exact hrest

theorem allHonest_single (hon : cmd.Honest hs c.arena) : AllHonest hs [cmd] c := by
  refine ⟨hon, ?_⟩
  split <;> trivial

theorem AllHonest.take (hon : AllHonest hs cmds c) (n : Nat) : AllHonest hs (cmds.take n) c := by
  induction cmds generalizing hs c n with
  | nil =>
    rw [List.take_nil]
    trivial
  | cons cmd rest ih =>
    cases n with
    | zero => trivial
    | succ n =>
      obtain ⟨hfirst, hrest⟩ := hon
      refine ⟨hfirst, ?_⟩
      cases hrun : cmd.run c with
      | ok answer d =>
        rw [hrun] at hrest
        exact ih hrest n
      | error s d => trivial

/-- **Rows of commands run in step.** Let each of them do the same in contexts that are related,
and leave them related, if it is honest and the second one is as it should be. Then the whole row
has the same answers in both and ends with the same stop, if it does. -/
theorem runAll_in_step (R : Context → Context → Prop) (Inv : List Handle → Context → Prop)
    (hstep : ∀ cmd ∈ cmds, ∀ hs c d, R c d → Inv hs d → cmd.Honest hs d.arena →
      SameEnd R (cmd.run c) (cmd.run d))
    (hkeep : ∀ cmd ∈ cmds, ∀ hs d answer e, Inv hs d → cmd.Honest hs d.arena →
      cmd.run d = .ok answer e → Inv (cmd.handles hs answer) e)
    (hcd : R c d) (hd : Inv hs d) (hon : AllHonest hs cmds d) :
    (runAll cmds c).answers = (runAll cmds d).answers ∧
      (runAll cmds c).stop = (runAll cmds d).stop ∧
      R (runAll cmds c).final (runAll cmds d).final := by
  induction cmds generalizing hs c d with
  | nil => exact ⟨rfl, rfl, hcd⟩
  | cons cmd rest ih =>
    obtain ⟨hfirst, hrest⟩ := hon
    -- one step keeps the relation, and the second context fit for the next one
    have hsame := hstep cmd List.mem_cons_self hs c d hcd hd hfirst
    have hnext := fun answer e => hkeep cmd List.mem_cons_self hs d answer e hd hfirst
    rw [runAll, runAll]
    generalize cmd.run c = x at hsame
    generalize cmd.run d = y at hsame hrest hnext
    cases hsame with
    | ok answer related =>
      obtain ⟨hanswers, hstop, hfinal⟩ :=
        ih (fun cmd hcmd => hstep cmd (List.mem_cons_of_mem _ hcmd))
          (fun cmd hcmd => hkeep cmd (List.mem_cons_of_mem _ hcmd)) related
          (hnext answer _ rfl) hrest
      exact ⟨congrArg (answer :: ·) hanswers, hstop, hfinal⟩
    | error s related => exact ⟨rfl, rfl, related⟩

/-- **Honest commands tell nothing about twins**, however many there are. -/
theorem runAll_same (ht : Context.Twins past c d) (hc : d.arena.Closed hs)
    (hon : AllHonest hs cmds d) :
    (runAll cmds c).answers = (runAll cmds d).answers ∧
      (runAll cmds c).stop = (runAll cmds d).stop ∧
      Context.Twins past (runAll cmds c).final (runAll cmds d).final := by
  refine runAll_in_step (Context.Twins past) (fun hs d => d.arena.Closed hs)
    (fun cmd _ hs c d ht hc hfirst => ?_) (fun cmd _ hs d answer e hc => ?_) ht hc hon
  · exact hfirst.same ht hc
  · exact hc.step

end Rows

/-- **An arena that was reset behaves like a new one.** Let an arena be reset, whatever words it
holds and whatever it has counted, and take a new one of its size. No arena is ever larger than
`maxArenaWords`. Then any row of commands that names only what it was given itself has the same
answers in both and ends with the same stop, if it does. The used words are the same in the end.
Only the counts tell the two apart, by what was counted up to the reset. -/
theorem reset_arena_behaves_like_new {a b : Arena} (hsize : a.capacity ≤ maxArenaWords)
    (hreset : Arena.reset a = .ok () b) {s t : Source} (hst : s.Alike t) {cmds : List Command}
    (hon : AllHonest [] cmds ⟨(Arena.ofSize a.capacity).withAction a.onExhaustion, t⟩) :
    let old := runAll cmds ⟨b, s⟩
    let new := runAll cmds ⟨(Arena.ofSize a.capacity).withAction a.onExhaustion, t⟩
    old.answers = new.answers ∧ old.stop = new.stop ∧
      old.final.arena.used = new.final.arena.used ∧
      (∀ i < new.final.arena.used, old.final.arena.store.get i = new.final.arena.store.get i) ∧
      old.final.arena.counters = b.counters.plus new.final.arena.counters := by
  have htwins : b.Twins b.counters ((Arena.ofSize a.capacity).withAction a.onExhaustion) := by
    cases hreset
    refine ⟨?_, rfl, rfl, fun i hi => absurd hi (Nat.not_lt_zero i), ?_⟩
    · exact (Nat.min_eq_left hsize).symm
    · exact (Counters.plus_zero _).symm
  have hboth : Context.Twins b.counters ⟨b, s⟩
      ⟨(Arena.ofSize a.capacity).withAction a.onExhaustion, t⟩ := ⟨htwins, hst⟩
  obtain ⟨hanswers, hstop, hfinal⟩ :=
    runAll_same hboth (closed_ofSize a.capacity a.onExhaustion) hon
  exact ⟨hanswers, hstop, hfinal.arena.used, hfinal.arena.get, hfinal.arena.counters⟩

/-- A byte is read from an array where another program left words of its own. -/
theorem byte_read_after_reset :
    ∃ a b, Arena.allocate .list 4 (.int 77) (Arena.ofSize 32) = .ok ⟨0⟩ a ∧
      Arena.reset a = .ok () b ∧
      let cmds := [.make (.byteArray 6), .edit ⟨0⟩ (.byte 1 65), .invoke "at" [.int 8, .obj ⟨0⟩]]
      let old := runAll cmds ⟨b, Source.ofList []⟩
      let new := runAll cmds ⟨Arena.ofSize 32, Source.ofList []⟩
      old.answers = new.answers ∧ old.stop = new.stop ∧
        old.final.arena.used = new.final.arena.used ∧
        (∀ i < new.final.arena.used, old.final.arena.store.get i = new.final.arena.store.get i) ∧
        old.final.arena.counters = b.counters.plus new.final.arena.counters := by
  refine ⟨_, _, rfl, rfl, reset_arena_behaves_like_new (by decide) rfl (fun _ => rfl) ?_⟩
  refine allHonest_cons trivial rfl (allHonest_cons ⟨List.mem_cons_self, Or.inr rfl⟩ rfl ?_)
  exact allHonest_single (among_pair (among_of_obj? rfl _) (among_obj.mpr List.mem_cons_self))

end ObjectMemory
