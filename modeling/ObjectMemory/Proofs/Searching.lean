import ObjectMemory.Proofs.Limits

/-!
# Searching again and again

A search gives the first place at which a row of bytes stands in another, from some place on. To
find them all, a program searches again, each time from the place after the one that was found.
What it comes across is `Search.places`.

No search passes over a place (`Search.find_cases`), so none is lost between one search and the
next. Places may overlap, and the empty row stands at every byte.
-/

namespace ObjectMemory

namespace Search

variable {needle haystack : List UInt8} {start : Int} {n p : Nat}

/-! ## Places -/

/-- The row `needle` is what stands in `haystack` from byte `p` on, counted from one. -/
def StandsAt (needle haystack : List UInt8) (p : Nat) : Prop :=
  1 ≤ p ∧ p ≤ haystack.length ∧ (haystack.drop (p - 1)).take needle.length = needle

instance (needle haystack : List UInt8) : DecidablePred (StandsAt needle haystack) :=
  fun p => inferInstanceAs (Decidable (1 ≤ p ∧ p ≤ haystack.length ∧ _ = _))

/-- Of the places from `start` on, `p` is the least one. -/
def IsFirst (needle haystack : List UInt8) (start : Int) (p : Nat) : Prop :=
  max start 1 ≤ p ∧ StandsAt needle haystack p ∧
    ∀ q : Nat, max start 1 ≤ q → StandsAt needle haystack q → p ≤ q

/-- From place `first` on, places are looked for behind the bytes before it. -/
theorem standsAt_iff {first : Nat} (hone : 1 ≤ first) (hp : first ≤ p) :
    StandsAt needle haystack p ↔
      p ≤ haystack.length ∧ needle <+: (haystack.drop (first - 1)).drop (p - first) := by
  have hplace : first - 1 + (p - first) = p - 1 := by omega
  rw [StandsAt, List.drop_drop, hplace, List.prefix_iff_eq_take, eq_comm (a := needle)]
  constructor
  · rintro ⟨_, hle, hfront⟩
    exact ⟨hle, hfront⟩
  · rintro ⟨hle, hfront⟩
    exact ⟨by omega, hle, hfront⟩

/-- **What is passed over holds no place**, and where the passing over ends there is one. -/
theorem skip?_cases (needle haystack : List UInt8) :
    (∃ n, skip? needle haystack = some n ∧ needle <+: haystack.drop n ∧
      ∀ m < n, ¬ needle <+: haystack.drop m) ∨
    skip? needle haystack = none ∧ ∀ m, ¬ needle <+: haystack.drop m := by
  induction haystack with
  | nil =>
    by_cases hempty : needle = []
    · left
      exact ⟨0, by simp [skip?, hempty]⟩
    · right
      simp [skip?, hempty]
  | cons b rest ih =>
    by_cases hfront : needle <+: b :: rest
    · left
      exact ⟨0, by simp [skip?, hfront]⟩
    · have hskip : skip? needle (b :: rest) = (skip? needle rest).map (· + 1) := by
        simp [skip?, hfront]
      rw [hskip]
      rcases ih with ⟨n, hn, hthere, hbefore⟩ | ⟨hnone, hnowhere⟩
      · left
        refine ⟨n + 1, by rw [hn]; rfl, hthere, fun m hm => ?_⟩
        cases m with
        | zero => exact hfront
        | succ m => exact hbefore m (Nat.lt_of_succ_lt_succ hm)
      · right
        refine ⟨by rw [hnone]; rfl, fun m => ?_⟩
        cases m with
        | zero => exact hfront
        | succ m => exact hnowhere m

/-- **A search gives the first place, or there is none.** -/
theorem find_cases (needle haystack : List UInt8) (start : Int) :
    (∃ p : Nat, find needle haystack start = p ∧ IsFirst needle haystack start p) ∨
    find needle haystack start = -1 ∧
      ∀ q : Nat, max start 1 ≤ q → ¬ StandsAt needle haystack q := by
  obtain ⟨first, hfirst⟩ : ∃ first : Nat, max start 1 = first :=
    ⟨(max start 1).toNat, by omega⟩
  have hone : 1 ≤ first := by omega
  simp only [find, IsFirst, hfirst, Int.toNat_natCast, Int.ofNat_le]
  by_cases hpast : haystack.length < first
  · right
    refine ⟨if_pos hpast, fun q hq hstands => ?_⟩
    have := hstands.2.1
    omega
  · rw [if_neg hpast]
    rcases skip?_cases needle (haystack.drop (first - 1)) with
      ⟨n, hn, hthere, hbefore⟩ | ⟨hnone, hnowhere⟩
    · left
      have hle : first + n ≤ haystack.length := by
        have hlen : (haystack.drop (first - 1)).length = haystack.length - (first - 1) :=
          List.length_drop
        rcases skip?_bounds hn with ⟨_, rfl⟩ | hlt <;> omega
      refine ⟨first + n, by rw [hn], Nat.le_add_right first n, ?_, fun q hq hstands => ?_⟩
      · rw [standsAt_iff hone (Nat.le_add_right first n), Nat.add_sub_cancel_left]
        exact ⟨hle, hthere⟩
      · rw [standsAt_iff hone hq] at hstands
        refine Nat.le_of_not_lt fun hless => ?_
        exact hbefore (q - first) (by omega) hstands.2
    · right
      refine ⟨by rw [hnone], fun q hq hstands => ?_⟩
      rw [standsAt_iff hone hq] at hstands
      exact hnowhere _ hstands.2

theorem IsFirst.unique {q : Nat} (hp : IsFirst needle haystack start p)
    (hq : IsFirst needle haystack start q) : p = q :=
  Nat.le_antisymm (hp.2.2 q hq.1 hq.2.1) (hq.2.2 p hp.1 hp.2.1)

theorem find_eq_iff : find needle haystack start = p ↔ IsFirst needle haystack start p := by
  rcases find_cases needle haystack start with ⟨q, hfound, hq⟩ | ⟨hnone, hnowhere⟩
  · rw [hfound]
    constructor
    · intro heq
      rwa [← Int.ofNat_inj.mp heq]
    · intro hp
      rw [hq.unique hp]
  · rw [hnone]
    constructor
    · intro heq
      omega
    · intro hp
      exact absurd hp.2.1 (hnowhere p hp.1)

theorem find_eq_neg_one_iff :
    find needle haystack start = -1 ↔
      ∀ q : Nat, max start 1 ≤ q → ¬ StandsAt needle haystack q := by
  rcases find_cases needle haystack start with ⟨p, hfound, hp⟩ | ⟨hnone, hnowhere⟩
  · rw [hfound]
    constructor
    · intro heq
      omega
    · intro hnowhere
      exact absurd hp.2.1 (hnowhere p hp.1)
  · exact ⟨fun _ => hnowhere, fun _ => hnone⟩

/-! ## All places -/

theorem find_of_ne (hne : find needle haystack start ≠ -1) :
    start ≤ find needle haystack start ∧ find needle haystack start ≤ haystack.length := by
  rcases find_cases needle haystack start with ⟨p, hfound, hp⟩ | ⟨hnone, _⟩
  · have hlo := hp.1
    have hhi := hp.2.1.2.1
    omega
  · exact absurd hnone hne

/-- The places that are found if each search starts right behind the place found before. It comes
to an end, since every search starts further on. -/
def places (needle haystack : List UInt8) (start : Int) : List Int :=
  if find needle haystack start = -1 then []
  else find needle haystack start ::
    places needle haystack (find needle haystack start + 1)
termination_by (haystack.length + 1 - start).toNat
decreasing_by
  have := find_of_ne ‹_›
  omega

/-- **All places from one on are found**, the least one first. -/
theorem places_eq (needle haystack : List UInt8) {first : Nat} (hone : 1 ≤ first) :
    places needle haystack first =
      ((List.range' first (haystack.length + 1 - first)).filter
        fun p => StandsAt needle haystack p).map (fun p : Nat => (p : Int)) := by
  generalize hsize : haystack.length + 1 - first = size
  induction size using Nat.strongRecOn generalizing first with
  | ind size ih =>
    have hmax : max (first : Int) 1 = first := by omega
    rw [places]
    rcases find_cases needle haystack first with ⟨p, hfound, hp⟩ | ⟨hnone, hnowhere⟩
    · obtain ⟨hlo, hstands, hleast⟩ := hp
      rw [hmax] at hlo hleast
      have hhi := hstands.2.1
      rw [hfound, if_neg (by omega)]
      -- nothing stands before `p`, and the next search finds what stands after it
      have hsplit : List.range' first size =
          List.range' first (p - first) ++ p :: List.range' (p + 1) (haystack.length - p) := by
        have hp : first + (p - first) = p := by omega
        have hn : (p - first) + (haystack.length - p + 1) = size := by omega
        rw [← List.range'_succ, ← hn, ← List.range'_append_1, hp]
      have hbefore : (List.range' first (p - first)).filter
          (fun q => StandsAt needle haystack q) = [] := by
        rw [List.filter_eq_nil_iff]
        intro q hq hstands
        have hbounds := List.mem_range'_1.mp hq
        have := hleast q (by omega) (of_decide_eq_true hstands)
        omega
      have hrest := @ih (haystack.length - p) (by omega) (p + 1) (by omega) (by omega)
      rw [hsplit, List.filter_append, hbefore, List.nil_append,
        List.filter_cons_of_pos (by simpa using hstands), List.map_cons, ← hrest]
      rfl
    · rw [if_pos hnone, eq_comm, List.map_eq_nil_iff, List.filter_eq_nil_iff]
      intro q hq hstands
      have hbounds := List.mem_range'_1.mp hq
      exact hnowhere q (by omega) (of_decide_eq_true hstands)

theorem pairwise_places (needle haystack : List UInt8) {first : Nat} (hone : 1 ≤ first) :
    (places needle haystack first).Pairwise (· < ·) := by
  rw [places_eq needle haystack hone, List.pairwise_map]
  refine (List.pairwise_lt_range' 1).filter _ |>.imp fun hlt => ?_
  exact Int.ofNat_lt.mpr hlt

end Search

/-- **A search gives the least place, and searching on gives them all.** Whatever the start, a
place is found just if it is the least one from there on, and -1 is found just if there is none.

A program that starts at 1, and goes on right behind each place it finds, is told -1 in the end.
By then it has seen every place in its order, those that overlap others among them. So it sees
every byte if it looks for nothing. Places in a row of fewer than 2^31 - 1 bytes, and the starts
behind them, are numbers of 32 bits.

What a program is told when it searches strings is what the search gives for their bytes. -/
theorem searches_lose_no_place (needle haystack : List UInt8) :
    (∀ start : Int,
      (∀ p : Nat, 1 ≤ p →
        (Search.find needle haystack start = p ↔
          Search.IsFirst needle haystack start p)) ∧
      (Search.find needle haystack start = -1 ↔
        ∀ p : Nat, max start 1 ≤ p → ¬ Search.StandsAt needle haystack p)) ∧
    Search.places needle haystack 1 =
      ((List.range' 1 haystack.length).filter
        fun p => Search.StandsAt needle haystack p).map (fun p : Nat => (p : Int)) ∧
    (Search.places needle haystack 1).Pairwise (· < ·) ∧
    Search.places [] haystack 1 = (List.range' 1 haystack.length).map (fun p : Nat => (p : Int)) ∧
    (haystack.length < 2147483647 → ∀ p ∈ Search.places needle haystack 1, p + 1 < 2147483648) ∧
    ∀ c hs, Session c hs → ∀ small ∈ hs, ∀ large ∈ hs,
      c.arena.classOf small = .ok .string → c.arena.classOf large = .ok .string →
      c.arena.stringBytes small = .ok needle → c.arena.stringBytes large = .ok haystack →
      ∀ start : Int, Primitive.Tells "findInString" [.obj small, .obj large, .int start] c
        (Search.find needle haystack start) := by
  have hall (needle : List UInt8) : Search.places needle haystack 1 =
      ((List.range' 1 haystack.length).filter
        fun p => Search.StandsAt needle haystack p).map (fun p : Nat => (p : Int)) :=
    Search.places_eq needle haystack (Nat.le_refl 1)
  refine ⟨fun start => ⟨fun p _ => Search.find_eq_iff, Search.find_eq_neg_one_iff⟩,
    hall needle, Search.pairwise_places needle haystack (Nat.le_refl 1), ?_, ?_, ?_⟩
  · -- nothing stands at every byte
    have hevery : ∀ p ∈ List.range' 1 haystack.length,
        decide (Search.StandsAt [] haystack p) = true := by
      intro p hp
      have hbounds := List.mem_range'_1.mp hp
      exact decide_eq_true ⟨hbounds.1, by omega, rfl⟩
    rw [hall, List.filter_eq_self.mpr hevery]
  · intro hsmall p hp
    rw [hall] at hp
    obtain ⟨q, hq, rfl⟩ := List.mem_map.mp hp
    have hbounds := List.mem_range'_1.mp (List.mem_filter.mp hq).1
    omega
  · intro c hs hses small hsmall large hlarge hclsS hclsL hneedle hhaystack start
    have hstart : ∀ r ∈ [Ref.int start], r.Among hs := by
      intro r hr
      rw [List.mem_singleton.mp hr]
      exact among_of_obj? rfl hs
    obtain ⟨_, _, hs', hl, htells⟩ :=
      tells_findInString hses.closed hsmall hlarge hclsS hclsL hstart
    cases hneedle.symm.trans hs'
    cases hhaystack.symm.trans hl
    exact htells

/-- Places that overlap, and a search from the second of three bytes on. -/
theorem overlapping_places :
    Search.places [97, 97] [97, 97, 97] 1 = [1, 2] ∧
      ∃ c, Session c [⟨0⟩, ⟨2⟩] ∧
        Primitive.Tells "findInString" [.obj ⟨0⟩, .obj ⟨2⟩, .int 2] c 2 := by
  obtain ⟨-, hplaces, -, -, -, htold⟩ := searches_lose_no_place [97, 97] [97, 97, 97]
  have h0 := Session.start 64 .panic (Source.ofList [])
  have h1 := Session.step (.make (.string [97, 97])) h0 trivial rfl
  have h2 := Session.step (.make (.string [97, 97, 97])) h1 trivial rfl
  refine ⟨by rw [hplaces]; decide, _, h2, ?_⟩
  exact htold _ _ h2 ⟨0⟩ (by decide) ⟨2⟩ (by decide) rfl rfl rfl rfl 2

end ObjectMemory
