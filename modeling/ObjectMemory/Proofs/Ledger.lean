import ObjectMemory.Proofs.History
import ObjectMemory.Proofs.LogLines

/-!
# The journal as a ledger

Events come from several places: from where an object is placed, from where a copy is filled, from
where a list is made larger, from where the arena is emptied or found to be full. All the same
each deed is recorded by its own events and by no others, and a command that does nothing to the
objects records nothing.

A log shows events as lines of text. So the bookkeeping of an arena can be done again by somebody
who reads the log and nothing else. A `Ledger` is that bookkeeping, `Ledger.ofLines` does it, and
`journal_determines_bookkeeping` says that it comes to the same. What the lines of a deed say is
`Deed.entries`, stated with the deed's own numbers and not with the events that carry them.
-/

namespace ObjectMemory

/-! ## What is recorded -/

/-- What is to be recorded of a deed that is done to the arena `a`. -/
def Deed.entries (a : Arena) : Deed → List Entry
  | issued .fresh o => [.allocated o.handle.index o.cls o.payload]
  | issued (.copyOf old) o =>
    [.allocated o.handle.index o.cls o.payload,
      .relocated old.index o.handle.index (a.view old).words.length o.payload]
  | issued (.largerList old) o =>
    [.allocated o.handle.index o.cls o.payload,
      .relocated old.index o.handle.index (a.view old).words.length o.payload,
      .listGrown (a.view old).capacity (o.payload - 1)]
  | emptied => [.reset a.used]

/-- The events of a deed that is done to the arena `a`. -/
def Deed.events (a : Arena) : Deed → List Event
  | issued origin o =>
    .allocated o.handle.index o.cls o.payload ::
      origin.recorded a.view o.handle.index o.payload
  | emptied => [.reset a.used]

theorem Deed.map_entry?_events (a : Arena) (deed : Deed) :
    (deed.events a).map Event.entry? = (deed.entries a).map some := by
  rcases deed with ⟨_ | h | h, o⟩ | _ <;> rfl

/-! ## Logs -/

/-- The filter that shows every event. -/
def Filter.everything : Filter :=
  ⟨[⟨[], some .trace⟩]⟩

/-- All lines that a log can show of an arena. -/
def Arena.log (a : Arena) : List String :=
  Filter.everything.lines a.journal.toList

theorem Arena.log_eq (a : Arena) : a.log = a.journal.toList.map Event.line := by
  have hadmits : ∀ e ∈ a.journal.toList, Filter.everything.admits e = true := by
    intro e _
    cases e <;> rfl
  rw [log, Filter.lines, List.filter_eq_self.mpr hadmits]

theorem Entry.map_ofLine?_line (events : List Event) :
    (events.map Event.line).map Entry.ofLine? = events.map Event.entry? := by
  rw [List.map_map]
  exact List.map_congr_left fun e _ => Entry.ofLine?_line e

/-! ## Ledgers -/

/-- The bookkeeping of an arena. -/
structure Ledger where
  used : Nat := 0
  peak : Nat := 0
  allocations : Nat := 0
  relocations : Nat := 0
  relocatedWords : Nat := 0
  resets : Nat := 0
  /-- Where the objects start that were issued since the last reset. -/
  starts : List Nat := []
  deriving DecidableEq, Repr

namespace Ledger

/-- The ledger after an entry. Each entry speaks for itself. -/
def enter (l : Ledger) : Entry → Ledger
  | .allocated start _ words =>
    let used := l.used + (1 + words)
    { l with
      used
      peak := max l.peak used
      allocations := l.allocations + 1
      starts := l.starts ++ [start] }
  | .relocated _ _ _ words =>
    { l with
      relocations := l.relocations + 1
      relocatedWords := l.relocatedWords + (1 + words) }
  | .reset _ => { l with used := 0, resets := l.resets + 1, starts := [] }
  | .listGrown .. | .full .. => l

/-- The ledger of a log, from the lines that can be read. -/
def ofLines (lines : List String) : Ledger :=
  (lines.filterMap Entry.ofLine?).foldl enter {}

/-- The ledger after some more events. -/
def enterEvents (l : Ledger) (events : List Event) : Ledger :=
  (events.filterMap Event.entry?).foldl enter l

theorem enterEvents_append (l : Ledger) (old new : List Event) :
    l.enterEvents (old ++ new) = (l.enterEvents old).enterEvents new := by
  rw [enterEvents, List.filterMap_append, List.foldl_append]
  rfl

theorem ofLines_log (a : Arena) : ofLines a.log = enterEvents {} a.journal.toList := by
  rw [ofLines, a.log_eq, List.filterMap_map]
  refine congrArg (List.foldl enter {}) (List.filterMap_congr fun e _ => ?_)
  exact Entry.ofLine?_line e

end Ledger

/-- The bookkeeping of an arena with the objects `hs`, as its statistics have it. -/
def Arena.ledger (a : Arena) (hs : List Handle) : Ledger :=
  let s := a.stats
  ⟨s.used, s.peak, s.allocations, s.relocations, s.relocatedWords, s.resets,
    hs.map Handle.index⟩

section Steps

variable {a b : Arena} {past : History} {hs : List Handle} {deeds : List Deed} {s : Stop}

/-- **A step records the events of its deeds**, and no others. -/
theorem Arena.Does.journal (hdoes : a.Does hs deeds b) :
    b.journal.toList = a.journal.toList ++ deeds.flatMap (Deed.events a) := by
  cases hdoes with
  | nothing => simp
  | stored mem wrote => simp [wrote.journal]
  | made hmade => simp [hmade.journal, Deed.events]
  | emptied hrun =>
    cases hrun
    simp [Deed.events]

/-- A stop that is no want of room is not recorded. -/
theorem Arena.Breaks.journal (hbreaks : a.Breaks hs s b) (hother : s.isFull = false) :
    b.journal = a.journal := by
  cases hbreaks with
  | full => cases hother
  | unchanged => rfl
  | stored _ mem wrote => exact wrote.journal

/-- A ledger is kept by the counts and the used words. -/
theorem Arena.ledger_congr (hused : b.used = a.used) (hcounters : b.counters = a.counters) :
    b.ledger hs = a.ledger hs := by
  simp [ledger, stats, hused, hcounters]

/-- **The events of a new object are entered as the arena counts it.** -/
theorem Arena.Made.ledger {origin : Origin} {c : Content} (hm : a.Made origin c b) :
    (a.ledger hs).enterEvents
        (Deed.events a (.issued origin ⟨⟨a.used⟩, c.cls, c.words.length⟩)) =
      b.ledger (hs ++ [⟨a.used⟩]) := by
  have hused := hm.used
  have hcounters := hm.counters
  cases origin <;>
    simp [Deed.events, Origin.recorded, Ledger.enterEvents, Event.entry?, Ledger.enter,
      Arena.ledger, stats, hused, hcounters, Origin.counted, Counters.countAllocation,
      Counters.countRelocation]

theorem Arena.Does.ledger (hdoes : a.Does past.handles deeds b) :
    (a.ledger past.handles).enterEvents (deeds.flatMap (Deed.events a)) =
      b.ledger (past.add deeds).handles := by
  cases hdoes with
  | nothing => simp [Ledger.enterEvents]
  | stored mem wrote => simp [Ledger.enterEvents, ledger_congr wrote.used wrote.counters]
  | made hmade =>
    rw [History.handles_issued, ← hmade.ledger]
    simp
  | emptied hrun =>
    cases hrun
    simp [Deed.events, Ledger.enterEvents, Event.entry?, Ledger.enter, Arena.ledger, stats,
      Counters.countReset]

end Steps

/-- **The ledger of the events is the bookkeeping of the arena**, after every run. -/
theorem Lifetime.ledger {c : Context} {past : History} {levels : List Nat}
    (hrun : Lifetime c past levels) :
    Ledger.enterEvents {} c.arena.journal.toList = c.arena.ledger past.handles := by
  refine (hrun.keeps
    (P := fun a past _ => Ledger.enterEvents {} a.journal.toList = a.ledger past.handles)
    ?_ ?_ ?_ ?_).2
  · intro words action
    unfold Arena.withAction Arena.ofSize
    dsimp only
    split <;> rfl
  · intro a b past levels deeds _ hledger hdoes
    rw [hdoes.journal, Ledger.enterEvents_append, hledger, hdoes.ledger]
  · intro a b past levels s hledger hbreaks
    cases hbreaks with
    | full =>
      show Ledger.enterEvents {} (a.journal.push _).toList = _
      rw [Array.toList_push, Ledger.enterEvents_append, hledger]
      rfl
    | unchanged => exact hledger
    | stored _ mem wrote =>
      rw [wrote.journal, hledger, Arena.ledger_congr wrote.used wrote.counters]
  · intro a past levels name f hledger
    have hjournal : (a.withFailure name f).journal.toList =
        a.journal.toList ++ [.primitiveFailed name f] := Array.toList_push
    rw [hjournal, Ledger.enterEvents_append, hledger]
    rfl

/-! ## The lines of a command -/

section Lines

variable {c d : Context} {cmd : Command} {answer : Answer} {hs : List Handle} {s : Stop}

/-- **A command writes the lines of its deeds.** -/
theorem Command.log_of_ok (ht : c.arena.Tiled hs) (hnames : cmd.Names hs)
    (hrun : cmd.run c = .ok answer d) :
    ∃ new, d.arena.log = c.arena.log ++ new ∧
      new.map Entry.ofLine? =
        ((cmd.deeds c.arena d.arena answer).flatMap (Deed.entries c.arena)).map some := by
  have hjournal := (cmd.run_does ht hnames hrun).journal
  refine ⟨((cmd.deeds c.arena d.arena answer).flatMap (Deed.events c.arena)).map Event.line,
    ?_, ?_⟩
  · rw [Arena.log_eq, Arena.log_eq, hjournal, List.map_append]
  · rw [Entry.map_ofLine?_line, List.map_flatMap, List.map_flatMap]
    simp only [Deed.map_entry?_events]

/-- A command whose arguments are refused writes nothing. -/
theorem Command.log_of_refused {f : Failure} (ht : c.arena.Tiled hs) (hnames : cmd.Names hs)
    (hrun : cmd.run c = .ok (.refused f) d) : d.arena.log = c.arena.log := by
  cases cmd with
  | invoke name args =>
    rw [run_invoke] at hrun
    split at hrun
    · cases hrun
    · next hend =>
      cases hrun
      rw [invoke_refused ht hnames hend]
    · cases hrun
  | make r =>
    obtain ⟨_, _, heq⟩ := run_ok_of_onArena (k := fun h => .given (.obj h)) rfl hrun
    cases heq
  | grow h payload fill =>
    obtain ⟨_, _, heq⟩ := run_ok_of_onArena (k := fun h => .given (.obj h)) rfl hrun
    cases heq
  | edit h e =>
    obtain ⟨_, _, heq⟩ := run_ok_of_onArena (k := fun _ => .done) rfl hrun
    cases heq
  | ask q =>
    obtain ⟨_, _, heq⟩ := run_ask_ok hrun
    cases heq
  | reset => cases hrun

/-- **A want of room is told in one line.** -/
theorem Arena.log_refused (a : Arena) (n : Nat) :
    ∃ line, (a.refused n).log = a.log ++ [line] ∧
      Entry.ofLine? line =
        some (.full (Size.reported a.used (1 + n)) a.used (1 + n) a.capacity) := by
  refine ⟨(Event.exhausted a.used (1 + n) a.capacity).line, ?_, Entry.ofLine?_line _⟩
  rw [log_eq, log_eq, refused, Array.toList_push, List.map_append, List.map_singleton]

end Lines

/-- **The log is a faithful journal of the arena.** Take any run of requests for objects, growths,
edits, questions, calls and resets on an arena of any size, with a log that shows every event. From
the text of its lines alone the bookkeeping can be done again: the used words, their peak, the
numbers of objects, of copies, of words in copies and of resets, and the list of the places where
the objects start that the walk by headers finds.

This is so because a further command adds the lines that say what it does to the objects, in order,
and nothing else. An object has one line with its place, class and size. A copy has right after it a
second one with both places and both sizes, and a larger list a third one with both capacities. A
reset has one line with the words that were used before. All other commands that are answered,
refusals among them, add nothing. A command that stops for want of room adds one error with the
words in use, the words asked for and the capacity. One that stops for something else adds
nothing. -/
theorem journal_determines_bookkeeping {c : Context} {past : History} {levels : List Nat}
    (hrun : Lifetime c past levels) :
    Ledger.ofLines c.arena.log = c.arena.ledger c.arena.walk.1 ∧
    (∀ cmd answer d, Command.Names past.handles cmd → cmd.run c = .ok answer d →
      (∃ new, d.arena.log = c.arena.log ++ new ∧
        new.map Entry.ofLine? =
          ((cmd.deeds c.arena d.arena answer).flatMap (Deed.entries c.arena)).map some) ∧
      ∀ f, answer = .refused f → d.arena.log = c.arena.log) ∧
    ∀ cmd s d, Command.Names past.handles cmd → cmd.run c = .error s d →
      if s.isFull then
        ∃ line n demand, d.arena.log = c.arena.log ++ [line] ∧
          s = .exhausted c.arena.onExhaustion demand c.arena.capacity ∧
          demand = Size.reported c.arena.used (1 + n) ∧
          Entry.ofLine? line = some (.full demand c.arena.used (1 + n) c.arena.capacity) ∧
          ∀ m ∈ cmd.asked?, m = n
      else d.arena.log = c.arena.log := by
  have ht := hrun.tiled
  refine ⟨?_, fun cmd answer d hnames hok => ⟨cmd.log_of_ok ht hnames hok, ?_⟩,
    fun cmd s d hnames hstop => ?_⟩
  · rw [Ledger.ofLines_log, ht.walk_eq]
    exact hrun.ledger
  · rintro f rfl
    exact cmd.log_of_refused ht hnames hok
  · cases hkind : s.isFull with
    | true =>
      obtain ⟨n, hs, hd, hasked⟩ := cmd.run_full ht hnames hstop hkind
      obtain ⟨line, hlog, hline⟩ := c.arena.log_refused n
      rw [if_pos rfl, hd]
      exact ⟨line, n, _, hlog, hs, rfl, hline, hasked⟩
    | false =>
      rw [if_neg Bool.false_ne_true, Arena.log, Arena.log,
        (cmd.run_breaks ht hnames hstop).journal hkind]

/-- A list of two slots grows for a third item, which is told in three lines. Then a byte array
finds no room, which is told in one. The ledger of all lines is that of the arena, and a reset adds
one more line. -/
theorem ledger_after_growth :
    ∃ c d past levels, Lifetime d past levels ∧
      (∃ r new, (Command.invoke "addLast" [.true, .obj ⟨0⟩]).run c = .ok (.given r) d ∧
        d.arena.log = c.arena.log ++ new ∧
        new.map Entry.ofLine? =
          [some (.allocated 4 .list 7), some (.relocated 0 4 3 7), some (.listGrown 2 6)]) ∧
      (∃ e line, (Command.make (.byteArray 20)).run d = .error (.exhausted .panic 18 16) e ∧
        e.arena.log = d.arena.log ++ [line] ∧
        Entry.ofLine? line = some (.full 18 12 6 16)) ∧
      Ledger.ofLines d.arena.log = ⟨12, 12, 2, 1, 8, 0, [0, 4]⟩ ∧
      d.arena.ledger d.arena.walk.1 = ⟨12, 12, 2, 1, 8, 0, [0, 4]⟩ ∧
      ∃ e new, Command.reset.run d = .ok .done e ∧ e.arena.log = d.arena.log ++ new ∧
        new.map Entry.ofLine? = [some (.reset 12)] := by
  have h0 := Lifetime.start 16 .panic (Source.ofList [])
  have h1 := Lifetime.answered (.invoke "newList" []) h0 among_nil rfl
  have h2 := Lifetime.answered (.invoke "addLast" [.int 5, .obj ⟨0⟩]) h1
    (among_pair (among_of_obj? rfl _) (among_obj.mpr (by decide))) rfl
  have h3 := Lifetime.answered (.invoke "addLast" [.nil, .obj ⟨0⟩]) h2
    (among_pair (among_of_obj? rfl _) (among_obj.mpr (by decide))) rfl
  have hnames : Command.Names [⟨0⟩] (.invoke "addLast" [.true, .obj ⟨0⟩]) :=
    among_pair (among_of_obj? rfl _) (among_obj.mpr (by decide))
  have h4 := Lifetime.answered (.invoke "addLast" [.true, .obj ⟨0⟩]) h3 hnames rfl
  obtain ⟨-, hgrows, -⟩ := journal_determines_bookkeeping h3
  obtain ⟨hledger, hresets, hstops⟩ := journal_determines_bookkeeping h4
  obtain ⟨⟨grown, hgrownlog, hgrownlines⟩, -⟩ := hgrows _ _ _ hnames rfl
  obtain ⟨⟨emptied, hemptiedlog, hemptiedlines⟩, -⟩ := hresets .reset .done _ trivial rfl
  obtain ⟨line, n, demand, hlog, hs, hdemand, hline, hasked⟩ :=
    hstops (.make (.byteArray 20)) _ _ trivial rfl
  cases hs
  obtain rfl := hasked _ rfl
  exact ⟨_, _, _, _, h4, ⟨_, grown, rfl, hgrownlog, hgrownlines⟩, ⟨_, line, rfl, hlog, hline⟩,
    (Ledger.ofLines_log _).trans rfl, hledger.symm.trans ((Ledger.ofLines_log _).trans rfl),
    _, emptied, rfl, hemptiedlog, hemptiedlines⟩

end ObjectMemory
