import ObjectMemory.Proofs.Heedless
import ObjectMemory.Proofs.History

/-!
# The failure slot

A dispatch loop calls primitives and looks at the slot beside the context. Six moves touch the
machine: a primitive is called or invoked, and a failure is recorded, taken, asked for or
forgotten. `Performs` says what each of them does, with one rule for each way in which it can end.

The slot is hidden from the results: a call that fails gives false, and so do calls that succeed. So
what the slot holds is said by the moves that were made (`Waits`). A failure waits if the latest
move that concerns the slot is a call that failed with it, or a move that recorded it.

Beside the slot a call is an invocation. It leaves one more event in the journal if it fails, and as
no primitive looks at the journal, the context of a whole run is the one that invocations alone
would leave (`Run.context`).

`call_is_invoke_beside_slot` puts all this together, and `dispatch` is the loop that relies on it.
-/

namespace ObjectMemory

/-- The context after a dispatch loop noted that a primitive refused its arguments. Only the journal
differs, by one event. -/
def Context.withFailure (c : Context) (name : String) (f : Failure) : Context :=
  ⟨c.arena.withFailure name f, c.source⟩

namespace Machine

/-! ## Moves -/

/-- What a program can do with a machine. -/
inductive Move where
  | call (name : String) (args : List Ref)
  | invoke (name : String) (args : List Ref)
  | setFailure (f : Failure)
  | takeFailure
  | hasFailure
  | clearFailure
  deriving DecidableEq, Repr

/-- What a move gives. -/
inductive Reply where
  | given (r : Ref)
  | refused (f : Failure)
  | taken (slot : Option Failure)
  | answered (full : Bool)
  | done
  deriving DecidableEq, Repr

/-- Makes a move. -/
def perform : Move → EStateM Stop Machine Reply
  | .call name args => do return .given (← call name args)
  | .invoke name args => fun ⟨context, slot⟩ =>
    match Primitive.invoke name args context with
    | .ok r after => .ok (.given r) ⟨after, slot⟩
    | .error (.failure f) after => .ok (.refused f) ⟨after, slot⟩
    | .error (.stop s) after => .error s ⟨after, slot⟩
  | .setFailure f => fun m => .ok .done (m.setFailure f)
  | .takeFailure => fun m => .ok (.taken m.takeFailure.1) m.takeFailure.2
  | .hasFailure => fun m => .ok (.answered m.hasFailure) m
  | .clearFailure => fun m => .ok .done m.clearFailure

section Calls

variable {c d : Context} {name : String} {args : List Ref} (slot : Option Failure)

theorem call_of_ok {r : Ref} (hok : Primitive.invoke name args c = .ok r d) :
    call name args ⟨c, slot⟩ = .ok r ⟨d, slot⟩ := by
  simp only [call, hok]

theorem call_of_failure {f : Failure}
    (hfail : Primitive.invoke name args c = .error (.failure f) d) :
    call name args ⟨c, slot⟩ = .ok .false ⟨d.withFailure name f, some f⟩ := by
  simp only [call, hfail]
  rfl

theorem call_of_stop {s : Stop} (hstop : Primitive.invoke name args c = .error (.stop s) d) :
    call name args ⟨c, slot⟩ = .error s ⟨d, slot⟩ := by
  simp only [call, hstop]

end Calls

/-- What each move does with a machine. -/
inductive Performs (m : Machine) : Move → Reply → Machine → Prop
  | called {name args r d} (run : Primitive.invoke name args m.context = .ok r d) :
    Performs m (.call name args) (.given r) ⟨d, m.failure⟩
  | failed {name args f d} (run : Primitive.invoke name args m.context = .error (.failure f) d) :
    Performs m (.call name args) (.given .false) ⟨d.withFailure name f, some f⟩
  | invoked {name args r d} (run : Primitive.invoke name args m.context = .ok r d) :
    Performs m (.invoke name args) (.given r) ⟨d, m.failure⟩
  | refused {name args f d} (run : Primitive.invoke name args m.context = .error (.failure f) d) :
    Performs m (.invoke name args) (.refused f) ⟨d, m.failure⟩
  | recorded (f : Failure) : Performs m (.setFailure f) .done ⟨m.context, some f⟩
  | taken : Performs m .takeFailure (.taken m.failure) ⟨m.context, none⟩
  | asked : Performs m .hasFailure (.answered m.failure.isSome) m
  | cleared : Performs m .clearFailure .done ⟨m.context, none⟩

/-- The move is a call or an invocation that ends the run. -/
def Breaks (m : Machine) (move : Move) (s : Stop) (d : Context) : Prop :=
  ∃ name args, (move = .call name args ∨ move = .invoke name args) ∧
    Primitive.invoke name args m.context = .error (.stop s) d

/-- **A move does what its rule says, or ends the run**, and then the slot is as it was. -/
theorem perform_cases (m : Machine) (move : Move) :
    (∃ reply after, perform move m = .ok reply after ∧ m.Performs move reply after) ∨
      ∃ s d, perform move m = .error s ⟨d, m.failure⟩ ∧ m.Breaks move s d := by
  obtain ⟨c, slot⟩ := m
  cases move with
  | call name args =>
    rcases hrun : Primitive.invoke name args c with ⟨r, d⟩ | ⟨f | s, d⟩
    · exact Or.inl ⟨_, _, bind_of_ok (call_of_ok slot hrun), .called hrun⟩
    · exact Or.inl ⟨_, _, bind_of_ok (call_of_failure slot hrun), .failed hrun⟩
    · exact Or.inr ⟨s, d, bind_of_error (call_of_stop slot hrun), name, args, Or.inl rfl, hrun⟩
  | invoke name args =>
    simp only [perform]
    rcases hrun : Primitive.invoke name args c with ⟨r, d⟩ | ⟨f | s, d⟩
    · exact Or.inl ⟨_, _, rfl, .invoked hrun⟩
    · exact Or.inl ⟨_, _, rfl, .refused hrun⟩
    · exact Or.inr ⟨s, d, rfl, name, args, Or.inr rfl, hrun⟩
  | setFailure f => exact Or.inl ⟨_, _, rfl, .recorded f⟩
  | takeFailure => exact Or.inl ⟨_, _, rfl, .taken⟩
  | hasFailure => exact Or.inl ⟨_, _, rfl, .asked⟩
  | clearFailure => exact Or.inl ⟨_, _, rfl, .cleared⟩

theorem performs_of_ok {m after : Machine} {move : Move} {reply : Reply}
    (hrun : perform move m = .ok reply after) : m.Performs move reply after := by
  rcases perform_cases m move with ⟨_, _, hok, hperforms⟩ | ⟨_, _, hstop, _⟩
  · rw [hrun] at hok
    cases hok
    exact hperforms
  · rw [hrun] at hstop
    cases hstop

/-! ## Turns -/

/-- A move that was made, between two contexts. -/
structure Turn where
  start : Context
  move : Move
  reply : Reply
  finish : Context

namespace Turn

/-- The move was a call that failed with `f`, or it recorded `f`. -/
def Records (t : Turn) (f : Failure) : Prop :=
  match t.move with
  | .call name args => ∃ d, Primitive.invoke name args t.start = .error (.failure f) d
  | .setFailure g => f = g
  | _ => False

/-- The move took or forgot what was in the slot. -/
def Empties (t : Turn) : Prop :=
  t.move = .takeFailure ∨ t.move = .clearFailure

/-- The move concerns the slot. -/
def Touches (t : Turn) : Prop :=
  t.Empties ∨ ∃ f, t.Records f

end Turn

/-- The failure `f` waits after the given turns: one of them recorded it, and no later one recorded
another or emptied the slot. -/
def Waits (turns : List Turn) (f : Failure) : Prop :=
  ∃ past t rest, turns = past ++ t :: rest ∧ t.Records f ∧ ∀ u ∈ rest, ¬ u.Touches

/-- A turn of a row is the last one, or a turn before it. -/
theorem turns_append_cases {turns past rest : List Turn} {t u : Turn}
    (hturns : turns ++ [t] = past ++ u :: rest) :
    (turns = past ∧ t = u ∧ rest = []) ∨
      ∃ more, rest = more ++ [t] ∧ turns = past ++ u :: more := by
  rcases List.eq_nil_or_concat rest with rfl | ⟨more, v, rfl⟩
  · have hends : turns = past ∧ t = u := by simpa using List.append_inj' hturns rfl
    exact Or.inl ⟨hends.1, hends.2, rfl⟩
  · rw [List.concat_eq_append, ← List.cons_append, ← List.append_assoc] at hturns
    have hends : turns = past ++ u :: more ∧ t = v := by simpa using List.append_inj' hturns rfl
    exact Or.inr ⟨more, by simp [hends.2], hends.1⟩

theorem not_waits_nil (f : Failure) : ¬ Waits [] f := by
  rintro ⟨past, t, rest, hturns, -⟩
  simp at hturns

/-- What waits after one more turn. -/
theorem waits_append {turns : List Turn} {t : Turn} {f : Failure} :
    Waits (turns ++ [t]) f ↔ t.Records f ∨ ¬ t.Touches ∧ Waits turns f := by
  constructor
  · rintro ⟨past, u, rest, hturns, hrecords, hrest⟩
    rcases turns_append_cases hturns with ⟨-, rfl, -⟩ | ⟨more, rfl, rfl⟩
    · exact Or.inl hrecords
    · refine Or.inr ⟨hrest t (by simp), past, u, more, rfl, hrecords, fun w hw => ?_⟩
      exact hrest w (by simp [hw])
  · rintro (hrecords | ⟨huntouched, past, u, rest, rfl, hrecords, hrest⟩)
    · exact ⟨turns, t, [], rfl, hrecords, fun u hu => nomatch hu⟩
    · refine ⟨past, u, rest ++ [t], by simp, hrecords, fun w hw => ?_⟩
      rcases List.mem_append.mp hw with hw | hw
      · exact hrest w hw
      · rw [List.mem_singleton.mp hw]
        exact huntouched

/-- **What one move leaves in the slot**: the failure that it recorded, or nothing if it emptied the
slot, or else what was there. -/
theorem Performs.slot {m after : Machine} {move : Move} {reply : Reply}
    (hp : m.Performs move reply after) (f : Failure) :
    after.failure = some f ↔
      (Turn.mk m.context move reply after.context).Records f ∨
      ¬ (Turn.mk m.context move reply after.context).Touches ∧ m.failure = some f := by
  unfold Turn.Touches Turn.Empties Turn.Records
  cases hp with
  | called run => simp [run]
  | failed run => simp [run, eq_comm]
  | recorded g => simp [eq_comm]
  | _ => simp

/-! ## Runs -/

/-- The turns lead from the context `c` with nothing in the slot to the machine `m`. -/
inductive Run (c : Context) : (turns : List Turn) → (m : Machine) → Prop
  | start : Run c [] ⟨c, none⟩
  | step {turns : List Turn} {m after : Machine} {reply : Reply} (move : Move)
    (before : Run c turns m) (run : perform move m = .ok reply after) :
    Run c (turns ++ [⟨m.context, move, reply, after.context⟩]) after

/-- **The slot holds the failure that waits.** -/
theorem Run.slot {c : Context} {turns : List Turn} {m : Machine} (hrun : Run c turns m)
    (f : Failure) : m.failure = some f ↔ Waits turns f := by
  induction hrun generalizing f with
  | start => simp [not_waits_nil]
  | step move before run ih => rw [waits_append, (performs_of_ok run).slot, ih]

/-- What a turn did to the context, and that it answered for the turns before it. -/
def Turn.Conforms (past : List Turn) (t : Turn) : Prop :=
  match t.move with
  | .call name args =>
    (∃ r, Primitive.invoke name args t.start = .ok r t.finish ∧ t.reply = .given r) ∨
      ∃ f d, Primitive.invoke name args t.start = .error (.failure f) d ∧
        t.finish = d.withFailure name f ∧ t.reply = .given .false
  | .invoke name args =>
    (∃ r, Primitive.invoke name args t.start = .ok r t.finish ∧ t.reply = .given r) ∨
      ∃ f, Primitive.invoke name args t.start = .error (.failure f) t.finish ∧
        t.reply = .refused f
  | .takeFailure =>
    t.finish = t.start ∧ ∃ slot, t.reply = .taken slot ∧ ∀ f, slot = some f ↔ Waits past f
  | .hasFailure =>
    t.finish = t.start ∧ ∃ full, t.reply = .answered full ∧ (full = true ↔ ∃ f, Waits past f)
  | .setFailure _ | .clearFailure => t.finish = t.start ∧ t.reply = .done

/-- One more move conforms to the turns before it. -/
theorem Run.conforms_next {c : Context} {turns : List Turn} {m after : Machine} {move : Move}
    {reply : Reply} (hrun : Run c turns m) (hp : m.Performs move reply after) :
    Turn.Conforms turns ⟨m.context, move, reply, after.context⟩ := by
  cases hp with
  | called run => exact Or.inl ⟨_, run, rfl⟩
  | failed run => exact Or.inr ⟨_, _, run, rfl, rfl⟩
  | invoked run => exact Or.inl ⟨_, run, rfl⟩
  | refused run => exact Or.inr ⟨_, run, rfl⟩
  | recorded f => exact ⟨rfl, rfl⟩
  | taken => exact ⟨rfl, _, rfl, hrun.slot⟩
  | asked =>
    refine ⟨rfl, _, rfl, ?_⟩
    simp only [← hrun.slot, Option.isSome_iff_exists]
  | cleared => exact ⟨rfl, rfl⟩

/-- **Every turn of a run conforms to the turns before it.** -/
theorem Run.conforms {c : Context} {turns : List Turn} {m : Machine} (hrun : Run c turns m)
    {past rest : List Turn} {t : Turn} (hturns : turns = past ++ t :: rest) : t.Conforms past := by
  induction hrun generalizing rest with
  | start => simp at hturns
  | step move before run ih =>
    rcases turns_append_cases hturns with ⟨rfl, rfl, -⟩ | ⟨more, -, hmore⟩
    · exact before.conforms_next (performs_of_ok run)
    · exact ih hmore

/-! ## The context of a run -/

/-- The context after a primitive was invoked, however that ended. -/
def contextAfter (name : String) (args : List Ref) (c : Context) : Context :=
  match Primitive.invoke name args c with
  | .ok _ d | .error _ d => d

/-- What a move does to the context if a call is an invocation. -/
def Move.onContext (c : Context) : Move → Context
  | .call name args | .invoke name args => contextAfter name args c
  | _ => c

/-- Another journal makes no difference but to the journal. -/
theorem Move.onContext_relogged (move : Move) (c : Context) (j : Array Event) :
    ∃ k, move.onContext (c.relogged j) = (move.onContext c).relogged k := by
  have hinvoked (name : String) (args : List Ref) :
      ∃ k, contextAfter name args (c.relogged j) = (contextAfter name args c).relogged k := by
    obtain ⟨k, hk⟩ := invoke_heedless name args c j
    refine ⟨k, ?_⟩
    unfold contextAfter
    rw [hk]
    cases Primitive.invoke name args c <;> rfl
  cases move with
  | call name args => exact hinvoked name args
  | invoke name args => exact hinvoked name args
  | _ => exact ⟨j, rfl⟩

/-- A move changes the context like an invocation, but for the journal. -/
theorem Performs.context {m after : Machine} {move : Move} {reply : Reply}
    (hp : m.Performs move reply after) :
    ∃ j, after.context = (move.onContext m.context).relogged j := by
  have hself (d : Context) : d = d.relogged d.arena.journal := rfl
  cases hp with
  | @failed name args f d run =>
    refine ⟨d.arena.journal.push (.primitiveFailed name f), ?_⟩
    simp only [Move.onContext, contextAfter, run]
    rfl
  | called run | invoked run | refused run =>
    simp only [Move.onContext, contextAfter, run]
    exact ⟨_, hself _⟩
  | _ => exact ⟨_, hself _⟩

/-- **Calls change the context as invocations do**, and the other moves not at all. Only the journal
tells the difference. -/
theorem Run.context {c : Context} {turns : List Turn} {m : Machine} (hrun : Run c turns m) :
    ∃ j, m.context = ((turns.map Turn.move).foldl Move.onContext c).relogged j := by
  induction hrun with
  | start => exact ⟨c.arena.journal, rfl⟩
  | step move before run ih =>
    obtain ⟨j, hbefore⟩ := ih
    obtain ⟨k, hafter⟩ := (performs_of_ok run).context
    rw [hbefore] at hafter
    -- the moves before have left another journal, which this move does not look at
    obtain ⟨l, hmove⟩ := move.onContext_relogged _ j
    rw [hmove] at hafter
    simp only [List.map_append, List.foldl_append]
    exact ⟨k, hafter⟩

/-! ## Loops -/

/-- Takes the failure that waits. -/
def take : EStateM Stop Machine (Option Failure) := fun m => .ok m.takeFailure.1 m.takeFailure.2

/-- A dispatch loop of `n` more calls. What is called next depends on the results so far. After each
call the loop looks at the slot, and gives up if there is a failure. -/
def dispatch (next : List Ref → String × List Ref) :
    (results : List Ref) → (n : Nat) → EStateM Stop Machine (List Ref × Option Failure)
  | results, 0 => return (results, none)
  | results, n + 1 => do
    let r ← call (next results).1 (next results).2
    match ← take with
    | some f => return (results, some f)
    | none => dispatch next (results ++ [r]) n

/-- Invoked one after the other, the primitives give the results, and `d` is the context then. -/
inductive Succeeds (next : List Ref → String × List Ref) (c : Context) :
    (results : List Ref) → (d : Context) → Prop
  | start : Succeeds next c [] c
  | step {results : List Ref} {r : Ref} {d e : Context} (before : Succeeds next c results d)
    (run : Primitive.invoke (next results).1 (next results).2 d = .ok r e) :
    Succeeds next c (results ++ [r]) e

/-- What a loop of `n` calls comes to, said by what the primitives do when they are invoked. -/
def Dispatched (next : List Ref → String × List Ref) (c : Context) (n : Nat)
    (outcome : EStateM.Result Stop Machine (List Ref × Option Failure)) : Prop :=
  ∃ results d, Succeeds next c results d ∧
    match outcome with
    | .ok (given, none) m => given = results ∧ results.length = n ∧ m = ⟨d, none⟩
    | .ok (given, some f) m => given = results ∧ results.length < n ∧
      ∃ e, Primitive.invoke (next results).1 (next results).2 d = .error (.failure f) e ∧
        m = ⟨e.withFailure (next results).1 f, none⟩
    | .error s m => results.length < n ∧
      ∃ e, Primitive.invoke (next results).1 (next results).2 d = .error (.stop s) e ∧
        m = ⟨e, none⟩

/-- **A loop gives up exactly at a call that fails.** It starts with nothing in the slot, after some
calls that succeeded. -/
theorem dispatched {next : List Ref → String × List Ref} {c d : Context} {results : List Ref}
    (hbefore : Succeeds next c results d) (n : Nat) :
    Dispatched next c (results.length + n) (dispatch next results n ⟨d, none⟩) := by
  induction n generalizing results d with
  | zero => exact ⟨results, d, hbefore, rfl, rfl, rfl⟩
  | succ n ih =>
    have hless : results.length < results.length + (n + 1) := by omega
    rw [dispatch]
    rcases hrun : Primitive.invoke (next results).1 (next results).2 d with ⟨r, e⟩ | ⟨f | s, e⟩
    · -- the slot is still empty, and the loop goes on
      have hrest := ih (.step hbefore hrun)
      rw [List.length_append, List.length_singleton, Nat.add_assoc, Nat.add_comm 1] at hrest
      rw [bind_of_ok (call_of_ok none hrun)]
      exact hrest
    · rw [bind_of_ok (call_of_failure none hrun)]
      exact ⟨results, d, hbefore, rfl, hless, e, hrun, rfl⟩
    · rw [bind_of_error (call_of_stop none hrun)]
      exact ⟨results, d, hbefore, hless, e, hrun, rfl⟩

/-! ## Calls and the slot -/

/-- **A call is an invocation, and the slot tells how it ended.** After any moves that start with
nothing in the slot:

* The slot holds the failure of the latest call that failed, or the latest that was recorded,
  unless it was taken or forgotten since. Calls that succeeded and invocations do not matter.
* Every call changed the context as the invocation does, and gave its reference or, after a failure,
  false. Taking gave the failure that waited, and asking whether one waited.
* So the context is what the same moves make of it with an invocation for each call, but for the
  journal.
* Any further move succeeds, but for calls and invocations of a primitive that ends the run. These
  leave the slot as it was.
* If no failure waits, a loop that takes the failure after each call gives up exactly at a call that
  fails, whatever references the calls before it gave. -/
theorem call_is_invoke_beside_slot {c : Context} {turns : List Turn} {m : Machine}
    (hrun : Run c turns m) :
    (∀ f, m.failure = some f ↔ Waits turns f) ∧
    (∀ past t rest, turns = past ++ t :: rest → t.Conforms past) ∧
    (∃ j, m.context = ((turns.map Turn.move).foldl Move.onContext c).relogged j) ∧
    (∀ move, (∃ reply after, perform move m = .ok reply after) ∨
      ∃ s d, perform move m = .error s ⟨d, m.failure⟩ ∧ m.Breaks move s d) ∧
    ((∀ f, ¬ Waits turns f) →
      ∀ next n, Dispatched next m.context n (dispatch next [] n m)) := by
  refine ⟨hrun.slot, fun past t rest => hrun.conforms, hrun.context, fun move => ?_,
    fun hnone next n => ?_⟩
  · rcases perform_cases m move with ⟨reply, after, hok, -⟩ | hbreaks
    · exact Or.inl ⟨reply, after, hok⟩
    · exact Or.inr hbreaks
  · obtain ⟨d, slot⟩ := m
    cases slot with
    | none =>
      have hloop : Dispatched next d (0 + n) (dispatch next [] n ⟨d, none⟩) := dispatched .start n
      rwa [Nat.zero_add] at hloop
    | some f => exact absurd ((hrun.slot f).mp rfl) (hnone f)

/-- A call that fails leaves its failure in the slot. The next call gives false as well, as its
proper result, and an invocation fails in another way. Neither touches the slot. -/
theorem failure_waits_behind_false :
    ∃ c turns m, Run c turns m ∧
      turns.map Turn.reply = [.given (.obj ⟨0⟩), .given .false, .given .false,
        .refused .unknownPrimitive] ∧
      Waits turns .needsList ∧ m.takeFailure.1 = some .needsList ∧
      ∀ t ∈ turns, ∃ past, t.Conforms past := by
  have h0 := Run.start (c := ⟨Arena.ofSize 16, Source.ofList []⟩)
  have h1 := h0.step (.call "newList" []) rfl
  have h2 := h1.step (.call "length" [.int 3]) rfl
  have h3 := h2.step (.call "fill" [.obj ⟨0⟩, .nil]) rfl
  have h4 := h3.step (.invoke "frobnicate" []) rfl
  obtain ⟨hslot, hconforms, -⟩ := call_is_invoke_beside_slot h4
  refine ⟨_, _, _, h4, rfl, (hslot _).mp rfl, rfl, fun t ht => ?_⟩
  obtain ⟨past, rest, hturns⟩ := List.append_of_mem ht
  exact ⟨past, hconforms past t rest hturns⟩

end Machine

end ObjectMemory
