import ObjectMemory.Proofs.History

/-!
# Statistics sum up the history

The statistics of an arena are eight numbers that are brought up to date in three places: where an
object is placed, where a copy is filled, and where the arena is emptied. Growing an object passes
through two of them. `Stats.Sums` says what the numbers mean: each of them is a sum over the
history of the arena or the largest of its levels.

They mean this after every run (`statistics_sum_up_history`), also after one in which commands
were stopped. How the numbers compare with each other follows from their meaning.
-/

namespace ObjectMemory

-- Sums of numbers start from the zero of the core library, also beside other instances.
attribute [local instance (2000)] Zero.ofOfNat0

/-! ## Sums and peaks -/

/-- The words that objects take up together. -/
def totalWords (objects : List Issue) : Nat :=
  (objects.map Issue.words).sum

@[simp] theorem totalWords_append (xs ys : List Issue) :
    totalWords (xs ++ ys) = totalWords xs + totalWords ys := by
  simp [totalWords]

@[simp] theorem totalWords_singleton (o : Issue) : totalWords [o] = 1 + o.payload := by
  simp [totalWords, Issue.words]

theorem totalWords_le {xs ys : List Issue} (hsub : xs.Sublist ys) :
    totalWords xs ≤ totalWords ys := by
  unfold totalWords
  induction hsub with
  | slnil => exact Nat.le_refl 0
  | cons o _ ih =>
    simp only [List.map_cons, List.sum_cons]
    omega
  | cons_cons o _ ih =>
    simp only [List.map_cons, List.sum_cons]
    omega

/-- The largest of some numbers. -/
def IsPeak (peak : Nat) (levels : List Nat) : Prop :=
  peak ∈ levels ∧ ∀ level ∈ levels, level ≤ peak

theorem IsPeak.add {peak : Nat} {levels : List Nat} (hp : IsPeak peak levels) (level : Nat) :
    IsPeak (max peak level) (levels ++ [level]) := by
  obtain ⟨hmem, hle⟩ := hp
  constructor
  · rcases Nat.le_total peak level with h | h
    · simp [Nat.max_eq_right h]
    · simp [Nat.max_eq_left h, hmem]
  · intro l hl
    rcases List.mem_append.mp hl with hl | hl
    · exact Nat.le_trans (hle l hl) (Nat.le_max_left _ _)
    · rw [List.mem_singleton.mp hl]
      exact Nat.le_max_right _ _

/-- A level below the peak leaves it. -/
theorem IsPeak.stay {peak level : Nat} {levels : List Nat} (hp : IsPeak peak levels)
    (hle : level ≤ peak) : IsPeak peak (levels ++ [level]) := by
  have hadd := hp.add level
  rwa [Nat.max_eq_left hle] at hadd

/-! ## Arenas -/

/-- What an arena counts sums up what was done to its objects. -/
structure Arena.Summed (a : Arena) (past : History) (levels : List Nat) : Prop where
  used : a.used = totalWords past.live
  used_mem : a.used ∈ levels
  peak : IsPeak a.counters.peak levels
  allocations : a.counters.allocations = past.objects.length
  relocations : a.counters.relocations = past.copies.length
  relocatedWords : a.counters.relocatedWords = totalWords past.copies
  resets : a.counters.resets = past.resets
  /-- The arena only ever fills up until it is emptied. -/
  rising : past.resets = 0 → a.counters.peak = a.used

section Steps

variable {a b : Arena} {past : History} {levels : List Nat}

theorem summed_ofSize (words : Nat) (action : ExhaustionAction) :
    ((Arena.ofSize words).withAction action).Summed [] [0] := by
  refine ⟨rfl, by simp [Arena.withAction, Arena.ofSize], ?_, rfl, rfl, rfl, rfl, fun _ => rfl⟩
  constructor
  · simp [Arena.withAction, Arena.ofSize]
  · simp

theorem Arena.Summed.used_le_peak (hs : a.Summed past levels) : a.used ≤ a.counters.peak :=
  hs.peak.2 _ hs.used_mem

/-- Nothing changes the sums where nothing was used and nothing counted. -/
theorem Arena.Summed.same (hs : a.Summed past levels) (hused : b.used = a.used)
    (hcounters : b.counters = a.counters) : b.Summed past (levels ++ [b.used]) where
  used := hused.trans hs.used
  used_mem := by simp
  peak := by
    rw [hused, hcounters]
    exact hs.peak.stay hs.used_le_peak
  allocations := hcounters ▸ hs.allocations
  relocations := hcounters ▸ hs.relocations
  relocatedWords := hcounters ▸ hs.relocatedWords
  resets := hcounters ▸ hs.resets
  rising := by
    rw [hused, hcounters]
    exact hs.rising

/-- **A new object is counted once, and once more if it is a copy.** -/
theorem Arena.Summed.made (hs : a.Summed past levels) {origin : Origin} {c : Content}
    (hm : a.Made origin c b) :
    b.Summed (past.add [.issued origin ⟨⟨a.used⟩, c.cls, c.words.length⟩])
      (levels ++ [b.used]) := by
  have hused := hm.used
  have hpeak : b.counters.peak = max a.counters.peak b.used := by
    rw [hm.counters, hused]
    cases origin <;> rfl
  have hallocations : b.counters.allocations = a.counters.allocations + 1 := by
    rw [hm.counters]
    cases origin <;> rfl
  have hresets : b.counters.resets = a.counters.resets := by
    rw [hm.counters]
    cases origin <;> rfl
  refine ⟨?_, by simp, ?_, ?_, ?_, ?_, ?_, ?_⟩
  · simp [hused, hs.used]
  · rw [hpeak]
    exact hs.peak.add b.used
  · simp [hallocations, hs.allocations]
  · rw [hm.counters]
    cases origin <;> simp [Origin.counted, Deed.copy?, Counters.countAllocation,
      Counters.countRelocation, hs.relocations]
  · rw [hm.counters]
    cases origin <;> simp [Origin.counted, Deed.copy?, Counters.countAllocation,
      Counters.countRelocation, hs.relocatedWords]
  · simp [hresets, hs.resets]
  · intro hnone
    have hrising := hs.rising (by simpa using hnone)
    rw [hpeak, hrising, hused]
    omega

theorem Arena.Summed.emptied (hs : a.Summed past levels) (hrun : reset a = .ok () b) :
    b.Summed (past.add [.emptied]) (levels ++ [b.used]) := by
  cases hrun
  refine ⟨by simp [totalWords], by simp, ?_, ?_, ?_, ?_, ?_, ?_⟩
  · exact hs.peak.stay (Nat.zero_le _)
  · simp [Counters.countReset, hs.allocations]
  · simp [Counters.countReset, Deed.copy?, hs.relocations]
  · simp [Counters.countReset, Deed.copy?, hs.relocatedWords]
  · simp [Counters.countReset, hs.resets]
  · simp

theorem Arena.Summed.does {deeds : List Deed} (hs : a.Summed past levels)
    (hdoes : a.Does past.handles deeds b) : b.Summed (past.add deeds) (levels ++ [b.used]) := by
  cases hdoes with
  | nothing =>
    rw [History.add_nil]
    exact hs.same rfl rfl
  | stored mem wrote =>
    rw [History.add_nil]
    exact hs.same wrote.used wrote.counters
  | made hmade => exact hs.made hmade
  | emptied hrun => exact hs.emptied hrun

/-- A stop leaves the sums alone. -/
theorem Arena.Summed.breaks {s : Stop} (hs : a.Summed past levels)
    (hbreaks : a.Breaks past.handles s b) : b.Summed past (levels ++ [b.used]) := by
  cases hbreaks with
  | full => exact hs.same rfl rfl
  | unchanged => exact hs.same rfl rfl
  | stored _ mem wrote => exact hs.same wrote.used wrote.counters

end Steps

/-- **Every run keeps the sums.** -/
theorem Lifetime.summed {c : Context} {past : History} {levels : List Nat}
    (hrun : Lifetime c past levels) : c.arena.Summed past levels :=
  (hrun.keeps (P := Arena.Summed) summed_ofSize (fun _ hs hdoes => hs.does hdoes)
    (fun hs hbreaks => hs.breaks hbreaks) fun _ _ hs => hs.same rfl rfl).2

/-! ## Snapshots -/

/-- What the numbers of a snapshot mean, where `past` was done to the objects and `levels` are the
numbers of words that were used at the start and after each command. -/
structure Stats.Sums (s : Stats) (past : History) (levels : List Nat) : Prop where
  capacity : s.used + s.free = s.capacity
  room : s.used = 0 ∨ s.used < s.capacity
  /-- An object takes up its payload and a header. -/
  used : s.used = totalWords past.live
  peak : IsPeak s.peak levels
  allocations : s.allocations = past.objects.length
  relocations : s.relocations = past.copies.length
  relocatedWords : s.relocatedWords = totalWords past.copies
  resets : s.resets = past.resets

/-- **The statistics tell the truth about the whole history.** Take any run of requests for
objects, growths, edits, questions, calls and resets on an arena of any size, in which commands may
also be refused or stopped. Then the used and the free words are all words, and the used ones do
not fill the arena. They are the headers and payloads of the objects that were issued since the
last reset. The peak is the largest number of words that was ever used. The other numbers count the
objects that were ever issued, with copies, then the copies alone and their words, and the resets.

So there are no more relocations than allocations, and the used words never exceed the peak. As
long as the arena was not reset, they are the peak, and the copies are among them. -/
theorem statistics_sum_up_history {c : Context} {past : History} {levels : List Nat}
    (hrun : Lifetime c past levels) :
    let s := c.arena.stats
    s.Sums past levels ∧ s.relocations ≤ s.allocations ∧ s.used ≤ s.peak ∧
      (s.resets = 0 → s.peak = s.used ∧ s.relocatedWords ≤ s.used) := by
  have ht := hrun.tiled
  have hs := hrun.summed
  have hsums : c.arena.stats.Sums past levels := by
    refine ⟨?_, ht.room, hs.used, hs.peak, hs.allocations, hs.relocations, hs.relocatedWords,
      hs.resets⟩
    have hle := ht.used_le
    show c.arena.used + (c.arena.capacity - c.arena.used) = c.arena.capacity
    omega
  refine ⟨hsums, ?_, hs.used_le_peak, fun hnone => ?_⟩
  · rw [hsums.relocations, hsums.allocations]
    exact past.copies_sublist.length_le
  · have hresets : past.resets = 0 := hsums.resets.symm.trans hnone
    refine ⟨hs.rising hresets, ?_⟩
    rw [hsums.relocatedWords, hsums.used, History.live_of_no_reset hresets]
    exact totalWords_le past.copies_sublist

/-- A list grows, a byte array finds no room, and a string is made once the arena was reset. -/
theorem sums_after_growth_and_reset :
    ∃ c past, Lifetime c past [0, 4, 4, 4, 12, 12, 0, 2] ∧
      c.arena.stats = ⟨16, 2, 14, 12, 3, 1, 8, 1⟩ ∧
      c.arena.stats.Sums past [0, 4, 4, 4, 12, 12, 0, 2] := by
  have h0 := Lifetime.start 16 .panic (Source.ofList [])
  have h1 := Lifetime.answered (.invoke "newList" []) h0 among_nil rfl
  have h2 := Lifetime.answered (.invoke "addLast" [.int 5, .obj ⟨0⟩]) h1
    (among_pair (among_of_obj? rfl _) (among_obj.mpr (by decide))) rfl
  have h3 := Lifetime.answered (.invoke "addLast" [.nil, .obj ⟨0⟩]) h2
    (among_pair (among_of_obj? rfl _) (among_obj.mpr (by decide))) rfl
  have h4 := @Lifetime.dispatched _ _ _ _ none _ [.true, .obj ⟨0⟩] _ "addLast" h3
    (among_pair (among_of_obj? rfl _) (among_obj.mpr (by decide))) rfl
  have h5 := Lifetime.stopped (.make (.byteArray 20)) h4 trivial rfl
  have h6 := Lifetime.answered .reset h5 trivial rfl
  have h7 := Lifetime.answered (.make (.string [97])) h6 trivial rfl
  exact ⟨_, _, h7, rfl, (statistics_sum_up_history h7).1⟩

end ObjectMemory
