import ObjectMemory.Proofs.Picks

/-!
# Draws from the random source

A seed promises that a program runs the same way each time. It does even more: since no command
but a pick touches the random source, commands may be added to a run, or left out of it, and the
places that are picked stay the same, as long as there are as many items to pick from
(`random_source_serves_picks_only`).
-/

namespace ObjectMemory

open PrimM

/-! ## Runs -/

/-- The command picks nothing at random. -/
def Command.PicksNothing (a : Arena) : Command → Prop
  | .invoke name args => ∀ n, ¬ a.Picks name args n
  | _ => True

/-- Commands that are answered lead from the context `c` to the context `d`. Some of them are
picks, and `picks` are the numbers of items that these picked from and the places they drew. -/
inductive Drawing (c : Context) : (d : Context) → (picks : List (Nat × Nat)) → Prop
  | start : Drawing c c []
  | other {d e : Context} {picks : List (Nat × Nat)} {answer : Answer} (cmd : Command)
    (before : Drawing c d picks) (none : cmd.PicksNothing d.arena)
    (run : cmd.run d = .ok answer e) : Drawing c e picks
  | pick {d e : Context} {picks : List (Nat × Nat)} {answer : Answer} {name : String}
    {args : List Ref} {n : Nat} (before : Drawing c d picks) (picked : d.arena.Picks name args n)
    (run : (Command.invoke name args).run d = .ok answer e) :
    Drawing c e (picks ++ [(n, (d.source.pick n).1)])

/-- The places that a source gives among so many items each, and what is left of it. -/
def Source.picks (s : Source) : List Nat → List Nat × Source
  | [] => ([], s)
  | n :: rest =>
    let later := (s.pick n).2.picks rest
    ((s.pick n).1 :: later.1, later.2)

theorem Source.picks_concat (s : Source) (sizes : List Nat) (n : Nat) :
    s.picks (sizes ++ [n]) =
      ((s.picks sizes).1 ++ [((s.picks sizes).2.pick n).1], ((s.picks sizes).2.pick n).2) := by
  induction sizes generalizing s with
  | nil => rfl
  | cons m rest ih => simp [Source.picks, ih]

section Runs

variable {c d e : Context} {picks : List (Nat × Nat)} {answer : Answer}

/-- A blind call that is answered leaves the source. -/
theorem source_of_blindOn {name : String} {args : List Ref}
    (hblind : (Primitive.invoke name args).BlindOn d.arena)
    (hrun : (Command.invoke name args).run d = .ok answer e) : e.source = d.source := by
  rw [run_invoke] at hrun
  rcases hblind with ⟨r, b, hend⟩ | ⟨refusal, b, hend⟩
  · have hd : Primitive.invoke name args d = .ok r ⟨b, d.source⟩ := hend d.source
    rw [hd] at hrun
    cases hrun
    rfl
  · have hd : Primitive.invoke name args d = .error refusal ⟨b, d.source⟩ := hend d.source
    rw [hd] at hrun
    cases refusal with
    | stop s => cases hrun
    | failure f =>
      cases hrun
      rfl

/-- **A command that picks nothing leaves the source.** -/
theorem Command.PicksNothing.source {cmd : Command} (hnone : cmd.PicksNothing d.arena)
    (hrun : cmd.run d = .ok answer e) : e.source = d.source := by
  have haction {α : Type} (act : ArenaM α) (k : α → Answer)
      (hact : cmd.act = do return k (← onArena act)) : e.source = d.source := by
    rw [run_of_onArena act k hact] at hrun
    split at hrun
    · cases hrun
      rfl
    · cases hrun
  cases cmd with
  | make r => exact haction r.make (fun h => .given (.obj h)) rfl
  | grow h payload fill => exact haction (Arena.grow h payload fill) (fun h => .given (.obj h)) rfl
  | edit h edit => exact haction (edit.apply h) (fun _ => .done) rfl
  | reset => exact haction Arena.reset (fun _ => .done) rfl
  | ask q => rw [(run_ask_ok hrun).1]
  | invoke name args => exact source_of_blindOn (invoke_blindOn hnone) hrun

/-- A pick leaves what the source has after one draw. -/
theorem source_of_picks {name : String} {args : List Ref} {n : Nat}
    (hp : d.arena.Picks name args n) (hrun : (Command.invoke name args).run d = .ok answer e) :
    e.source = (d.source.pick n).2 := by
  have hplace : (Command.invoke name (args.set 0 (.int (d.source.pick n).1))).run
      ⟨d.arena, (d.source.pick n).2⟩ = .ok answer e := by
    rw [run_invoke] at hrun ⊢
    rw [← invoke_picks hp]
    exact hrun
  exact source_of_blindOn (invoke_blindOn (not_picks_int _)) hplace

/-- **The places of a run are those that its source gives for the numbers of items**, and the run
leaves what these picks leave. -/
theorem Drawing.picks_eq (hd : Drawing c d picks) :
    c.source.picks (picks.map Prod.fst) = (picks.map Prod.snd, d.source) := by
  induction hd with
  | start => rfl
  | other cmd before hnone run ih => rw [ih, hnone.source run]
  | pick before hp run ih =>
    rw [List.map_append, List.map_singleton, Source.picks_concat, ih, source_of_picks hp run]
    simp

end Runs

/-- **The random source is touched only by a random pick.** A pick is a call of `at` with the
string "random" and with a list, a string or a byte array that has items.

Any other call, of whatever name and with whatever arguments, comes to the same on an arena with
every source: the same value or the same refusal or stop, and the same arena. It draws nothing.

A pick draws a place among the items, and then does what the call does that names this place. If
the arguments name issued objects, this is to give a value or to lack room for it, and the items
of a list or a byte array are given without a change to the arena.

So the places that a run picks depend on nothing but the source and the numbers of items. Two runs
that start with the same source pick the same places, whatever other commands either of them
carries out in between, refused ones among them, as long as they pick from as many items each
time. They are left with the same source as well. -/
theorem random_source_serves_picks_only :
    (∀ (a : Arena) name args, (∀ n, ¬ a.Picks name args n) → ∀ s t,
      (∃ r b, Primitive.invoke name args ⟨a, s⟩ = .ok r ⟨b, s⟩ ∧
        Primitive.invoke name args ⟨a, t⟩ = .ok r ⟨b, t⟩) ∨
      ∃ refusal b, Primitive.invoke name args ⟨a, s⟩ = .error refusal ⟨b, s⟩ ∧
        Primitive.invoke name args ⟨a, t⟩ = .error refusal ⟨b, t⟩) ∧
    (∀ (a : Arena) hs name args n, a.Tiled hs → (∀ r ∈ args, r.Among hs) →
      a.Picks name args n → ∀ s : Source,
        (1 ≤ (s.pick n).1 ∧ (s.pick n).1 ≤ n) ∧
        Primitive.invoke name args ⟨a, s⟩ =
          Primitive.invoke name (args.set 0 (.int (s.pick n).1)) ⟨a, (s.pick n).2⟩ ∧
        PickEnds a (s.pick n).2 (Primitive.invoke name args ⟨a, s⟩) ∧
        ∀ h, args[1]? = some (.obj h) → (a.classOf h = .ok .list ∨ a.classOf h = .ok .byteArray) →
          ∃ r, Primitive.invoke name args ⟨a, s⟩ = .ok r ⟨a, (s.pick n).2⟩) ∧
    ∀ c c' d d' picks picks', c.source = c'.source → Drawing c d picks → Drawing c' d' picks' →
      picks.map Prod.fst = picks'.map Prod.fst → picks = picks' ∧ d.source = d'.source := by
  refine ⟨?_, ?_, ?_⟩
  · intro a name args hnone s t
    rcases invoke_blindOn hnone with ⟨r, b, hrun⟩ | ⟨refusal, b, hrun⟩
    · exact Or.inl ⟨r, b, hrun s, hrun t⟩
    · exact Or.inr ⟨refusal, b, hrun s, hrun t⟩
  · intro a hs name args n ht hargs hp s
    obtain ⟨hends, hkept⟩ := picks_ends ht hargs hp s
    exact ⟨s.pick_bounds hp.pos, invoke_picks hp s, hends, hkept⟩
  · intro c c' d d' picks picks' hsource hd hd' hsizes
    have hplaces := hd.picks_eq
    rw [hsource, hsizes, hd'.picks_eq] at hplaces
    obtain ⟨hseconds, hleft⟩ := Prod.mk.inj hplaces
    refine ⟨?_, hleft.symm⟩
    -- the picks agree in both components
    have hunzip : picks.unzip = picks'.unzip := by
      rw [List.unzip_eq_map, List.unzip_eq_map, hsizes, hseconds]
    rw [← List.zip_unzip picks, ← List.zip_unzip picks', hunzip]

/-- A byte is picked, with and without two refused calls before it. -/
theorem pick_after_refused_calls :
    ∃ c d e picks, Session c [⟨0⟩, ⟨3⟩] ∧
      (∀ s t, (∃ r b, Primitive.invoke "delete" [.obj ⟨0⟩, .obj ⟨3⟩] ⟨c.arena, s⟩ = .ok r ⟨b, s⟩ ∧
          Primitive.invoke "delete" [.obj ⟨0⟩, .obj ⟨3⟩] ⟨c.arena, t⟩ = .ok r ⟨b, t⟩) ∨
        ∃ refusal b,
          Primitive.invoke "delete" [.obj ⟨0⟩, .obj ⟨3⟩] ⟨c.arena, s⟩ = .error refusal ⟨b, s⟩ ∧
          Primitive.invoke "delete" [.obj ⟨0⟩, .obj ⟨3⟩] ⟨c.arena, t⟩ = .error refusal ⟨b, t⟩) ∧
      (∃ r, Primitive.invoke "at" [.obj ⟨0⟩, .obj ⟨3⟩] c =
        .ok r ⟨c.arena, (c.source.pick 4).2⟩) ∧
      Drawing c d [(4, 3)] ∧ Drawing c e picks ∧ [(4, 3)] = picks ∧ d.source = e.source := by
  obtain ⟨hblind, hpick, hruns⟩ := random_source_serves_picks_only
  have h0 := Session.start 64 .panic (Source.ofList [9223372036854775808])
  have h1 := Session.step (.make (.string (Utf8.encode "random"))) h0 trivial rfl
  have h2 := Session.step (.make (.byteArray 3)) h1 trivial rfl
  have hargs : ∀ r ∈ [Ref.obj ⟨0⟩, .obj ⟨3⟩], r.Among [⟨0⟩, ⟨3⟩] :=
    among_pair (among_obj.mpr (by decide)) (among_obj.mpr (by decide))
  have hstart {c : Context} (_ : Session c [⟨0⟩, ⟨3⟩]) : Drawing c c [] := .start
  have hdelete {a : Arena} (n : Nat) : ¬ a.Picks "delete" [.obj ⟨0⟩, .obj ⟨3⟩] n :=
    fun hp => absurd hp.name (by decide)
  have hput {a : Arena} (n : Nat) : ¬ a.Picks "atPut" [.obj ⟨0⟩, .obj ⟨3⟩, .nil] n :=
    fun hp => absurd hp.name (by decide)
  have d1 := Drawing.pick (n := 4) (hstart h2)
    ⟨rfl, ⟨_, rfl, ⟨0⟩, rfl, rfl, rfl⟩, ⟨_, .byteArray ⟨3⟩, rfl, rfl, rfl⟩, by decide⟩
    (show (Command.invoke "at" [.obj ⟨0⟩, .obj ⟨3⟩]).run _ = .ok _ _ from rfl)
  have e1 := Drawing.other (.invoke "delete" [.obj ⟨0⟩, .obj ⟨3⟩]) (hstart h2) hdelete rfl
  have e2 := Drawing.other (.invoke "atPut" [.obj ⟨0⟩, .obj ⟨3⟩, .nil]) e1 hput rfl
  have e3 := Drawing.pick (n := 4) e2
    ⟨rfl, ⟨_, rfl, ⟨0⟩, rfl, rfl, rfl⟩, ⟨_, .byteArray ⟨3⟩, rfl, rfl, rfl⟩, by decide⟩
    (show (Command.invoke "at" [.obj ⟨0⟩, .obj ⟨3⟩]).run _ = .ok _ _ from rfl)
  refine ⟨_, _, _, _, h2, hblind _ _ _ hdelete, ?_, d1, e3, hruns _ _ _ _ _ _ rfl d1 e3 rfl⟩
  refine (hpick _ _ "at" _ 4 h2.closed.tiled hargs ?_ _).2.2.2 ⟨3⟩ rfl (Or.inr rfl)
  exact ⟨rfl, ⟨_, rfl, ⟨0⟩, rfl, rfl, rfl⟩, ⟨_, .byteArray ⟨3⟩, rfl, rfl, rfl⟩, by decide⟩

end ObjectMemory
