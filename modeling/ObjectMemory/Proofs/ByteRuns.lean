import ObjectMemory.Proofs.Filling

/-!
# Runs of the primitives on byte arrays

In any run, over any number of byte arrays and with all other primitives and commands in between,
every answer is one that the ruling allows, and in the end every byte array of the arena reads as
the rows of bytes say: `byteArray_primitives_refine_bytes`. Commands may stop on the way, and lists
may hold whatever words the program made up.
-/

namespace ObjectMemory

/-! ## Runs -/

namespace Command

/-- A command that makes and changes no byte arrays, unless it asks for a new one or calls a
primitive. -/
def SparesArrays (v : View) : Command → Prop
  | .make (.object cls ..) => cls ≠ .byteArray
  | .grow h .. | .edit h _ => (v h).cls ≠ .byteArray
  | .reset => False
  | _ => True

/-- What a command that was answered says about byte arrays. -/
def arrayEvents (v : View) (answer : Answer) : Command → List ArrayEvent
  | .make (.byteArray n) =>
    match answer with
    | .given (.obj h) => [.made n h]
    | _ => []
  | .invoke name args =>
    match Primitive.arrayCallNamed? v name args with
    | some call => [.called call answer]
    | none => []
  | _ => []

end Command

/-- Primitives and other commands lead from an empty arena to the context `c`. The objects `hs` were
issued, and `log` says which of them are byte arrays and what was called on these. A command may
stop. -/
inductive ArrayRun : (c : Context) → (hs : List Handle) → (log : List ArrayEvent) → Prop
  | start (words : Nat) (action : ExhaustionAction) (source : Source) :
    ArrayRun ⟨(Arena.ofSize words).withAction action, source⟩ [] []
  | answered {c d : Context} {hs : List Handle} {log : List ArrayEvent} {answer : Answer}
    (cmd : Command) (before : ArrayRun c hs log) (names : cmd.Names hs)
    (spares : cmd.SparesArrays c.arena.view) (run : cmd.run c = .ok answer d) :
    ArrayRun d (hs ++ c.arena.madeUntil d.arena) (log ++ cmd.arrayEvents c.arena.view answer)
  | stopped {c d : Context} {hs : List Handle} {log : List ArrayEvent} {s : Stop} (cmd : Command)
    (before : ArrayRun c hs log) (names : cmd.Names hs) (spares : cmd.SparesArrays c.arena.view)
    (run : cmd.run c = .error s d) : ArrayRun d hs log

section Steps

variable {a b : Arena} {c d : Context} {hs : List Handle} {h : Handle} {answer : Answer}
  {cmd : Command} {name : String} {args : List Ref} {call : ArrayCall}

theorem stored_ne_byteArray {cls : ObjClass} (hcls : cls ≠ .byteArray) :
    cls.stored ≠ .byteArray := by
  cases cls with
  | byteArray => exact absurd rfl hcls
  | _ => rintro ⟨⟩

/-! ### Calls on byte arrays -/

/-- **What obeys a ruling is allowed by it**, once it was done. It can always be done. -/
theorem Effect.Obeys.allows {e : Effect} {ruling : Ruling} (ht : a.Tiled hs)
    (he : e.Obeys a.view hs ruling) {s : Source} {outcome : EStateM.Result Refusal Context Ref}
    (hp : e.Performed a s outcome) :
    ∃ r d, outcome = .ok r d ∧ d.arena.Tiled hs ∧ d.arena.used = a.used ∧
      ruling.Allows (a.view.arrays hs) (.given r) (d.arena.view.arrays hs) := by
  cases ruling with
  | oneOf rs =>
    obtain ⟨r, hr, rfl⟩ := he
    exact ⟨r, _, hp, ht, rfl, ⟨r, hr, rfl⟩, rfl⟩
  | store h bytes =>
    obtain ⟨hh, hcls, words, rfl, rfl⟩ := he
    obtain ⟨b, heq, hst⟩ := hp
    refine ⟨_, _, heq, ht.wrote hh hst.toWroteIn, hst.used, rfl, ?_⟩
    funext g
    rw [Function.update_apply]
    exact shown_stored ht hh hcls hst g
  | refuse f => exact he.elim

/-- **A call on a byte array is answered as its ruling says**, whatever lists hold. There is always
room for it. -/
theorem invoke_ruled (ht : c.arena.Tiled hs) (hargs : ∀ r ∈ args, r.Among hs)
    (hcall : Primitive.arrayCallNamed? c.arena.view name args = some call) :
    ∃ answer d, (Command.invoke name args).run c = .ok answer d ∧ d.arena.Tiled hs ∧
      d.arena.used = c.arena.used ∧
      (call.ruling (c.arena.view.arrays hs)).Allows (c.arena.view.arrays hs) answer
        (d.arena.view.arrays hs) := by
  have hjoin : Primitive.ofName? name ≠ some .joinStrings := by
    intro hname
    rw [Primitive.arrayCallNamed?, hname] at hcall
    cases hcall
  have hcarries := invoke_carries_apart ht hargs hjoin
  have hobeys := planNamed_obeys ht.fitsHeaders hargs c.arena.freeWords hcall c.source
  unfold Carries at hcarries
  rw [run_invoke]
  cases hend : (Primitive.planNamed name c.arena.view c.arena.freeWords args).run c.source with
  | mk result s =>
    rw [hend] at hcarries hobeys
    cases result with
    | error f =>
      dsimp only at hcarries hobeys
      rw [hcarries, hobeys]
      exact ⟨_, _, rfl, ht, rfl, rfl, rfl⟩
    | ok e =>
      obtain ⟨r, d, hok, htiled, hused, hallows⟩ := Effect.Obeys.allows ht hobeys hcarries
      rw [hok]
      exact ⟨_, d, rfl, htiled, hused, hallows⟩

/-! ### Other commands -/

/-- A call that is none on a byte array spares them. -/
theorem invoke_spares (ht : c.arena.Tiled hs) (hargs : ∀ r ∈ args, r.Among hs)
    (hcall : Primitive.arrayCallNamed? c.arena.view name args = none)
    (hrun : (Command.invoke name args).run c = .ok answer d) :
    c.arena.Spares hs .byteArray d.arena := by
  have htargets := planNamed_targets name c.arena.view c.arena.freeWords args
  have havoids := planNamed_avoids c.arena.freeWords hcall
  have hends := invoke_endsIn ht hargs name (htargets.and havoids) fun text =>
    ⟨trivial, by rintro ⟨⟩⟩
  rw [run_invoke] at hrun
  split at hrun
  · next hok =>
    cases hrun
    obtain ⟨e, s, ⟨htarget, havoid⟩, hp⟩ := hends.effect hok
    exact havoid.spares ht (target_among hargs name) htarget hp
  · next hfail =>
    cases hrun
    rw [hends.unchanged hfail]
    exact .of_view ht rfl rfl
  · cases hrun

/-- **A command that is answered and says nothing about byte arrays spares them.** -/
theorem Command.run_spares (ht : c.arena.Tiled hs) (hnames : cmd.Names hs)
    (hspares : cmd.SparesArrays c.arena.view) (hrun : cmd.run c = .ok answer d)
    (hquiet : cmd.arrayEvents c.arena.view answer = []) :
    c.arena.Spares hs .byteArray d.arena := by
  cases cmd with
  | make r =>
    obtain ⟨rfl, hmade⟩ := run_make_ok hrun
    refine hmade.spares ht ?_
    cases r with
    | object cls payload fill => exact stored_ne_byteArray hspares
    | byteArray n => cases hquiet
    | _ => rintro ⟨⟩
  | grow h payload fill =>
    obtain ⟨g, hact, rfl⟩ := run_ok_of_onArena (k := fun h => .given (.obj h)) rfl hrun
    obtain ⟨rfl, hmade⟩ := Arena.grow_made (ht.holds hnames) hact
    exact hmade.spares ht (stored_ne_byteArray hspares)
  | edit h e =>
    have hsources : ∀ g ∈ e.sources, c.arena.Holds g := fun g hg => ht.holds (hnames.2 g hg)
    obtain ⟨rfl, hst⟩ := run_edit_ok (ht.holds hnames.1) hsources hrun
    exact hst.toWroteIn.spares ht hnames.1 hspares
  | ask q =>
    obtain ⟨rfl, _⟩ := run_ask_ok hrun
    exact .of_view ht rfl rfl
  | invoke name args =>
    refine invoke_spares ht hnames ?_ hrun
    cases hcall : Primitive.arrayCallNamed? c.arena.view name args with
    | none => rfl
    | some call =>
      rw [arrayEvents, hcall] at hquiet
      cases hquiet
  | reset => exact hspares.elim

/-- A command that stops spares byte arrays as well. -/
theorem Command.stop_spares {s : Stop} (ht : c.arena.Tiled hs) (hnames : cmd.Names hs)
    (hspares : cmd.SparesArrays c.arena.view) (hrun : cmd.run c = .error s d) :
    c.arena.Spares hs .byteArray d.arena := by
  have hbreaks := cmd.run_breaks ht hnames hrun
  generalize d.arena = b at hbreaks
  cases hbreaks with
  | full =>
    refine .of_view (ht.transport rfl rfl fun _ _ => rfl) rfl ?_
    exact Arena.view_congr rfl rfl fun _ _ => rfl
  | unchanged => exact .of_view ht rfl rfl
  | stored _ mem wrote =>
    cases cmd with
    | edit h e =>
      cases List.mem_singleton.mp mem
      exact wrote.spares ht hnames.1 hspares
    | _ => cases mem

/-- A new byte array is seen as blank bytes. -/
theorem arrays_made (ht : a.Tiled hs) {n : Nat}
    (hm : a.Made .fresh (Request.byteArray n).content b) :
    b.view.arrays (hs ++ [⟨a.used⟩]) =
      Function.update (a.view.arrays hs) ⟨a.used⟩ (some (blankBytes n)) := by
  funext g
  have hblank : (List.replicate (Arena.wordsForBytes n) Ref.nil.toWord).flatMap Word.bytes =
      blankBytes n := Word.flatMap_bytes_blank _
  rw [Function.update_apply, ← hblank]
  exact shown_made ht hm rfl g

end Steps

/-! ### All steps -/

section Runs

variable {c d : Context} {hs : List Handle} {log : List ArrayEvent} {answer : Answer}

/-- **The rows of bytes and the arena go through a run side by side.** -/
theorem ArrayRun.arrays (hrun : ArrayRun c hs log) :
    c.arena.Tiled hs ∧ ArraysRun log (c.arena.view.arrays hs) := by
  induction hrun with
  | start words action source => exact ⟨Arena.tiled_ofSize words action, .start⟩
  | @answered c d hs log answer cmd before names spares run ih =>
    obtain ⟨ht, harrays⟩ := ih
    have hquiet (hlog : cmd.arrayEvents c.arena.view answer = []) :
        d.arena.Tiled (hs ++ c.arena.madeUntil d.arena) ∧
          ArraysRun (log ++ cmd.arrayEvents c.arena.view answer)
            (d.arena.view.arrays (hs ++ c.arena.madeUntil d.arena)) := by
      have hspared := Command.run_spares ht names spares run hlog
      rw [hlog, List.append_nil, View.arrays, hspared.shown]
      exact ⟨hspared.tiled, harrays⟩
    cases cmd with
    | make r =>
      cases r with
      | byteArray n =>
        obtain ⟨rfl, hmade⟩ := run_make_ok run
        rw [hmade.madeUntil, arrays_made ht hmade]
        exact ⟨ht.gained hmade.toGained, harrays.made n (shown_used ht)⟩
      | _ => exact hquiet rfl
    | invoke name args =>
      cases hcall : Primitive.arrayCallNamed? c.arena.view name args with
      | none =>
        refine hquiet ?_
        rw [Command.arrayEvents, hcall]
      | some call =>
        obtain ⟨answer', d', hend, htiled, hused, hallows⟩ := invoke_ruled ht names hcall
        cases run.symm.trans hend
        rw [Arena.madeUntil_same hused, Command.arrayEvents, hcall]
        exact ⟨htiled, harrays.called call hallows⟩
    | reset => exact spares.elim
    | _ => exact hquiet rfl
  | @stopped c d hs log s cmd before names spares run ih =>
    obtain ⟨ht, harrays⟩ := ih
    have hspared := Command.stop_spares ht names spares run
    have hused := (cmd.run_breaks ht names run).used
    obtain ⟨htiled, hshown⟩ := hspared
    rw [Arena.madeUntil_same hused] at htiled hshown
    rw [View.arrays, hshown]
    exact ⟨htiled, harrays⟩

/-- The arena has a byte array at the handle if there is a row, and it holds these bytes. -/
def Arrays.ReadsAs (arrays : Arrays) (a : Arena) (h : Handle) : Prop :=
  match arrays h with
  | some bytes => a.classOf h = .ok .byteArray ∧ a.byteArrayLength h = .ok bytes.length ∧
      a.readBytes h 0 bytes.length = .ok bytes
  | none => a.classOf h ≠ .ok .byteArray

theorem readsAs_arrays {a : Arena} {h : Handle} (ht : a.Tiled hs) (hh : h ∈ hs) :
    (a.view.arrays hs).ReadsAs a h := by
  have hholds := ht.holds hh
  unfold Arrays.ReadsAs View.arrays View.shown
  rw [Arena.classOf_eq hholds]
  by_cases hcls : (a.view h).cls = .byteArray
  · have hread := Arena.readBytes_eq hholds (Nat.le_of_eq (Nat.zero_add (a.view h).bytes.length))
    rw [List.drop_zero, List.take_length] at hread
    rw [if_pos ⟨hh, hcls⟩, hcls]
    exact ⟨rfl, Arena.byteArrayLength_eq hholds, hread⟩
  · rw [if_neg fun hin => hcls hin.2]
    intro heq
    exact hcls (Except.ok.inj heq)

/-- **The primitives on byte arrays refine rows of bytes.** Take any run of the primitives from an
empty arena, on any number of byte arrays of any size, with all other primitives in between, and
with any commands that neither edit byte arrays nor empty the arena, also where they stop. A program
that knows rows of bytes only goes through the same calls with the same answers, and in the end each
object that was issued is a byte array if and only if there is a row for it, and it holds the bytes
of this row.

Every byte array still has the length that it was made with. Any further call on one is answered,
and if it is refused it changes nothing at all. To fill a byte array is the same as to store the
value at "all", and has the same effect as to store it at each place in turn. -/
theorem byteArray_primitives_refine_bytes (hrun : ArrayRun c hs log) :
    (∃ arrays, ArraysRun log arrays ∧ ∀ h ∈ hs, arrays.ReadsAs c.arena h) ∧
    (∀ n h, .made n h ∈ log → c.arena.byteArrayLength h = .ok (4 * ((n + 3) / 4))) ∧
    (∀ name args call, (∀ r ∈ args, r.Among hs) →
      Primitive.arrayCallNamed? c.arena.view name args = some call →
        ∃ answer d, (Command.invoke name args).run c = .ok answer d ∧
          ∀ f, answer = .refused f → d = c) ∧
    ∀ h ∈ hs, c.arena.classOf h = .ok .byteArray → FillsInTurn c h := by
  obtain ⟨ht, harrays⟩ := hrun.arrays
  refine ⟨⟨_, harrays, fun h hh => readsAs_arrays ht hh⟩, ?_, ?_, ?_⟩
  · intro n h hmade
    have hlength := harrays.length_of_made hmade
    obtain ⟨bytes, hbytes, hlen⟩ := Option.map_eq_some_iff.mp hlength
    have hin : h ∈ hs := by
      by_contra hout
      rw [View.arrays, View.shown, if_neg fun hboth => hout hboth.1] at hbytes
      cases hbytes
    have hreads := readsAs_arrays ht hin
    rw [Arrays.ReadsAs, hbytes] at hreads
    rw [hreads.2.1, hlen]
  · intro name args call hargs hcall
    obtain ⟨answer, d, hend, _⟩ := invoke_ruled ht hargs hcall
    refine ⟨answer, d, hend, ?_⟩
    rintro f rfl
    rw [run_invoke] at hend
    split at hend
    · cases hend
    · next hfail =>
      cases hend
      exact refused_call_changes_nothing ht name hargs hfail
    · cases hend
  · intro h hh hcls
    exact fills_in_turn ht hh ((Arena.classOf_eq_ok_iff (ht.holds hh)).mp hcls)

end Runs

/-- A byte is stored. A value that is none is refused, although there is no such place either, and
a larger array finds no room. -/
theorem bytes_after_refused_store :
    ∃ c, ArrayRun c [⟨0⟩, ⟨2⟩]
        [.made 3 ⟨2⟩, .called (.putItem ⟨2⟩ (some (.index 2)) (.int 255)) (.given .false),
          .called (.putItem ⟨2⟩ (some (.index 9)) (.int 256)) (.refused .byteArrayStore)] ∧
      (∃ arrays, ArraysRun
        [.made 3 ⟨2⟩, .called (.putItem ⟨2⟩ (some (.index 2)) (.int 255)) (.given .false),
          .called (.putItem ⟨2⟩ (some (.index 9)) (.int 256)) (.refused .byteArrayStore)] arrays ∧
        ∀ h ∈ [⟨0⟩, ⟨2⟩], arrays.ReadsAs c.arena h) ∧
      c.arena.byteArrayLength ⟨2⟩ = .ok 4 ∧
      (∃ answer d, (Command.invoke "at" [.int 2, .obj ⟨2⟩]).run c = .ok answer d ∧
        ∀ f, answer = .refused f → d = c) ∧
      FillsInTurn c ⟨2⟩ := by
  have hargs (i n : Int) : ∀ r ∈ [Ref.int i, .obj ⟨2⟩, .int n], r.Among [⟨0⟩, ⟨2⟩] :=
    among_cons (among_of_obj? rfl _) (among_pair (among_obj.mpr (by decide)) (among_of_obj? rfl _))
  have h0 := ArrayRun.start 8 .panic (Source.ofList [])
  have h1 := ArrayRun.answered (.make (.string (Utf8.encode "all"))) h0 trivial trivial rfl
  have h2 := ArrayRun.answered (.make (.byteArray 3)) h1 trivial trivial rfl
  have h3 := ArrayRun.answered (.invoke "atPut" [.int 2, .obj ⟨2⟩, .int 255]) h2 (hargs 2 255)
    trivial rfl
  have h4 := ArrayRun.answered (.invoke "atPut" [.int 9, .obj ⟨2⟩, .int 256]) h3 (hargs 9 256)
    trivial rfl
  have h5 := ArrayRun.stopped (.make (.byteArray 20)) h4 trivial trivial rfl
  obtain ⟨hrefines, hlengths, hcalls, hfills⟩ := byteArray_primitives_refine_bytes h5
  refine ⟨_, h5, hrefines, hlengths 3 ⟨2⟩ ?_, ?_, hfills ⟨2⟩ (by decide) rfl⟩
  · exact List.mem_cons_self
  · refine hcalls "at" [.int 2, .obj ⟨2⟩] (.getItem ⟨2⟩ (some (.index 2))) ?_ rfl
    exact among_pair (among_of_obj? rfl _) (among_obj.mpr (by decide))

end ObjectMemory
