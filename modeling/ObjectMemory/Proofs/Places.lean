import ObjectMemory.Proofs.Limits
import ObjectMemory.Proofs.Picks

/-!
# Places

Lists, strings and byte arrays count their items in three ways: by the count that a list states, as
far as it has slots, by the code points that a scan finds, and by the payload words. They find an
item at its place in three other ways. All the same, the places that have an item are those from 1
to the length, whatever the object holds: `places_go_up_to_length`.

What a container does about a place is in two steps. The place is compared with the number of items
(`item_of_size`), and an item that there is, is given (`item_gives`).
-/

namespace ObjectMemory

open PrimM

/-! ## What is given -/

/-- The call that comes to the outcome gives a new string of the bytes before the first zero one, or
there is no room for it. -/
def GivesString (bytes : List UInt8) (c : Context)
    (outcome : EStateM.Result Refusal Context Ref) : Prop :=
  let words := (bytes.takeWhile (· ≠ 0)).length / 4 + 1
  if c.arena.used + (1 + words) < c.arena.capacity then
    ∃ b, outcome = .ok (.obj ⟨c.arena.used⟩) ⟨b, c.source⟩ ∧
      b.classOf ⟨c.arena.used⟩ = .ok .string ∧
      b.stringBytes ⟨c.arena.used⟩ = .ok (bytes.takeWhile (· ≠ 0))
  else outcome = .error (.stop (c.arena.exhaustion words)) ⟨c.arena.refused words, c.source⟩

/-- The call that comes to the outcome gives item `i` of a container. A list and a byte array give
what is stored there and change nothing. A string gives a new string. -/
def Container.GivesItem (i : Nat) (c : Context) (outcome : EStateM.Result Refusal Context Ref) :
    Container → Prop
  | .list h => ∃ r, c.arena.field h i = .ok r ∧ outcome = .ok r c
  | .string h => ∃ text, c.arena.stringBytes h = .ok text ∧
      GivesString (CodePoints.slice text i i) c outcome
  | .byteArray h => ∃ b, c.arena.byteAt h (i - 1) = .ok b ∧ outcome = .ok (.int b.toNat) c

theorem GivesString.not_failure {bytes : List UInt8} {c d : Context}
    {outcome : EStateM.Result Refusal Context Ref} {f : Failure}
    (hg : GivesString bytes c outcome) : outcome ≠ .error (.failure f) d := by
  rintro rfl
  unfold GivesString at hg
  dsimp only at hg
  split at hg
  · obtain ⟨b, heq, _⟩ := hg
    cases heq
  · cases hg

theorem Container.GivesItem.not_failure {k : Container} {i : Nat} {c d : Context}
    {outcome : EStateM.Result Refusal Context Ref} {f : Failure}
    (hg : k.GivesItem i c outcome) : outcome ≠ .error (.failure f) d := by
  cases k with
  | list h =>
    obtain ⟨r, _, rfl⟩ := hg
    exact nofun
  | string h =>
    obtain ⟨text, _, htext⟩ := hg
    exact htext.not_failure
  | byteArray h =>
    obtain ⟨b, _, rfl⟩ := hg
    exact nofun

/-! ## The number of items and the items -/

section Items

variable {a : Arena} {s : Source} {c : Context} {hs : List Handle} {h : Handle} {k : Container}
  {n i : Nat}

/-- The container of an object that the arena holds is of the object's class. -/
theorem ofClass?_of_classify (hh : a.Holds h)
    (hk : Container.classify a (.obj h) = .ok (some k)) :
    Container.ofClass? h (a.view h).cls = some k := by
  rw [Container.classify, Arena.classOf_eq hh] at hk
  exact Except.ok.inj hk

/-- **The length of a container is told as it is**, whatever the container holds. -/
theorem tells_size (ht : c.arena.Tiled hs) (hh : h ∈ hs)
    (hk : Container.classify c.arena (.obj h) = .ok (some k)) :
    ∃ n : Nat, k.size c.arena = .ok n ∧ Primitive.Tells "length" [.obj h] c n := by
  have hholds := ht.holds hh
  have hfits := ht.fitsHeaders
  have hclass := ofClass?_of_classify hholds hk
  have hview : c.arena.view.container? (.obj h) = some k := hclass
  rcases handle_of_ofClass? hclass with rfl | rfl | rfl
  · refine ⟨_, ListObject.count_eq hholds,
      tells_of_length ht hh among_nil (hfits.count_le hh) ?_⟩
    rw [Plan.length, hview]
    rfl
  · refine ⟨_, StringObject.length_eq hholds,
      tells_of_length ht hh among_nil (hfits.codePoints_le hh) ?_⟩
    rw [Plan.length, hview]
    rfl
  · refine ⟨_, Arena.byteArrayLength_eq hholds,
      tells_of_length ht hh among_nil (hfits.bytes_le hh) ?_⟩
    rw [Plan.length, hview]
    rfl

/-- A text is given as a string that is made for it. -/
theorem Effect.Performed.givesString (ht : c.arena.Tiled hs) {bytes : List UInt8}
    {outcome : EStateM.Result Refusal Context Ref}
    (hp : (Effect.make .fresh (.ofText bytes)).Performed c.arena c.source outcome) :
    GivesString bytes c outcome := by
  have hfits := ht.fits_iff ((bytes.takeWhile (· ≠ 0)).length / 4 + 1)
  simp only [Effect.Performed, Content.length_words_ofText] at hp
  unfold GivesString
  dsimp only
  by_cases hroom : c.arena.used + (1 + ((bytes.takeWhile (· ≠ 0)).length / 4 + 1)) <
      c.arena.capacity
  · rw [if_pos (hfits.mpr hroom)] at hp
    rw [if_pos hroom]
    obtain ⟨b, hrun, hmade⟩ := hp
    have hview : b.view ⟨c.arena.used⟩ = .ofText bytes := hmade.view_new
    refine ⟨b, hrun, ?_, ?_⟩
    · rw [Arena.classOf_eq hmade.holds_new, hview]
      rfl
    · rw [Arena.stringBytes_eq hmade.holds_new, hview, Content.text_ofText]
  · rw [if_neg fun hfit => hroom (hfits.mp hfit)] at hp
    rwa [if_neg hroom]

/-- **A place among the items has an item.** -/
theorem item_gives (ht : c.arena.Tiled hs) (hh : h ∈ hs)
    (hk : Container.classify c.arena (.obj h) = .ok (some k)) (hsize : k.size c.arena = .ok n)
    (hi : 1 ≤ i ∧ i ≤ n) : k.GivesItem i c (k.item (.index i) c) := by
  have hholds := ht.holds hh
  rcases handle_of_ofClass? (ofClass?_of_classify hholds hk) with rfl | rfl | rfl
  · have hcount : (c.arena.view h).count = n :=
      Except.ok.inj ((ListObject.count_eq hholds).symm.trans hsize)
    have hle := (c.arena.view h).count_le
    unfold Content.capacity at hle
    have hget := listGet_carries hholds (.index i)
    rw [hcount, Plan.place_index (by omega)] at hget
    exact ⟨_, Arena.field_eq hholds (by omega), carries_effect.mp hget⟩
  · have hcount : CodePoints.count (c.arena.view h).text = n :=
      Except.ok.inj ((StringObject.length_eq hholds).symm.trans hsize)
    have hget := stringGet_carries hholds (.index i)
    rw [hcount, Plan.place_index (by omega)] at hget
    exact ⟨_, Arena.stringBytes_eq hholds, (carries_effect.mp hget).givesString ht⟩
  · have hlength : (c.arena.view h).bytes.length = n :=
      Except.ok.inj ((Arena.byteArrayLength_eq hholds).symm.trans hsize)
    have hget := byteArrayGet_carries hholds (.index i)
    rw [hlength, Plan.place_index (by omega)] at hget
    exact ⟨_, Arena.byteAt_eq hholds (by omega), carries_effect.mp hget⟩

/-! ## Places that have no item -/

/-- **A place that is none of the items' is refused**, and nothing is changed. -/
theorem item_outOfRange (hsize : k.size a = .ok n) {i : Int} (hi : i < 1 ∨ n < i) :
    k.item (.index i) ⟨a, s⟩ = .error (.failure .indexOutOfRange) ⟨a, s⟩ := by
  obtain ⟨give, _, hitem⟩ := item_of_size hsize
  have hresolve : (Selector.index i).resolve n = refuse .indexOutOfRange := by
    rw [Selector.resolve, Selector.checkPlace, if_neg (by omega)]
  rw [hitem, hresolve]
  rfl

/-- **The last item is the one at the place that is the length**, if there is one. -/
theorem item_last (hsize : k.size a = .ok n) :
    k.item .last ⟨a, s⟩ = k.item (.index n) ⟨a, s⟩ := by
  obtain ⟨give, _, hitem⟩ := item_of_size hsize
  rw [hitem, hitem]
  rfl

/-- No place is picked from none. -/
theorem item_random_of_empty (hsize : k.size a = .ok 0) :
    k.item .random ⟨a, s⟩ = .error (.failure .indexOutOfRange) ⟨a, s⟩ := by
  obtain ⟨give, _, hitem⟩ := item_of_size hsize
  have hresolve : Selector.random.resolve 0 = refuse .indexOutOfRange := by
    rw [Selector.resolve, if_neg (Nat.lt_irrefl 0)]
  rw [hitem, hresolve]
  rfl

/-! ## Calls -/

theorem invoke_item (hk : Container.classify a (.obj h) = .ok (some k)) {selector : Ref}
    {place : Selector} (hplace : Selector.parse a selector = .ok (some place)) (s : Source) :
    Primitive.invoke "at" [selector, .obj h] ⟨a, s⟩ = k.item place ⟨a, s⟩ := by
  rw [invoke_at rfl rfl]
  exact getItem_eq hk hplace s

theorem parse_last {g : Handle} (hcls : a.classOf g = .ok .string)
    (hbytes : a.stringBytes g = .ok (Utf8.encode "last")) :
    Selector.parse a (.obj g) = .ok (some .last) := by
  have hlast := stringMatches_of_stringBytes hcls hbytes (Utf8.encode "last")
  simp only [Selector.parse, hlast]
  rfl

end Items

/-- **The places of items are those from 1 to the length.** Let the used words be tiled by the
objects `hs`, as any run leaves them (`Reached.accounted`, `Course.closed`), whatever these hold:
lists without a payload or with a count that is no number or too large, strings that are cut short
or hold bytes of no character. Let `k` be one of them that is a list, a string or a byte array.

Its length is a number `n`. A place from 1 to `n` has an item, which is given, and any other one is
refused as out of range. To ask for the last item is to ask for the one at place `n`, also if there
is none. And to ask for any item is, for every random source, to ask for the one at some place from
1 to `n` with what is left of the source, and is refused in the same way if there is none. -/
theorem places_go_up_to_length {c : Context} {hs : List Handle} (ht : c.arena.Tiled hs)
    {h : Handle} (hh : h ∈ hs) {k : Container}
    (hk : Container.classify c.arena (.obj h) = .ok (some k)) :
    ∃ n : Nat, Primitive.Tells "length" [.obj h] c n ∧
      (∀ i : Int, Primitive.invoke "at" [.int i, .obj h] c =
        .error (.failure .indexOutOfRange) c ↔ i < 1 ∨ n < i) ∧
      (∀ i : Nat, 1 ≤ i → i ≤ n →
        k.GivesItem i c (Primitive.invoke "at" [.int i, .obj h] c)) ∧
      (∀ g, c.arena.classOf g = .ok .string → c.arena.stringBytes g = .ok (Utf8.encode "last") →
        Primitive.invoke "at" [.obj g, .obj h] c = Primitive.invoke "at" [.int n, .obj h] c) ∧
      ∀ g, c.arena.classOf g = .ok .string →
        c.arena.stringBytes g = .ok (Utf8.encode "random") → ∀ s : Source,
        (n = 0 → Primitive.invoke "at" [.obj g, .obj h] ⟨c.arena, s⟩ =
          .error (.failure .indexOutOfRange) ⟨c.arena, s⟩) ∧
        (0 < n → ∃ (i : Nat) (rest : Source), 1 ≤ i ∧ i ≤ n ∧
          Primitive.invoke "at" [.obj g, .obj h] ⟨c.arena, s⟩ =
            Primitive.invoke "at" [.int i, .obj h] ⟨c.arena, rest⟩) := by
  obtain ⟨n, hsize, htells⟩ := tells_size ht hh hk
  have hindex (i : Int) (s : Source) : Primitive.invoke "at" [.int i, .obj h] ⟨c.arena, s⟩ =
      k.item (.index i) ⟨c.arena, s⟩ := invoke_item hk rfl s
  have hgives (i : Nat) (hlo : 1 ≤ i) (hhi : i ≤ n) :
      k.GivesItem i c (Primitive.invoke "at" [.int i, .obj h] c) :=
    (hindex i c.source).symm ▸ item_gives ht hh hk hsize ⟨hlo, hhi⟩
  refine ⟨n, htells, fun i => ⟨fun hfail => ?_, fun hi => ?_⟩, hgives, ?_, ?_⟩
  · -- a place among the items would have been given
    refine Decidable.byContradiction fun hin => ?_
    obtain ⟨m, rfl⟩ := Int.eq_ofNat_of_zero_le (a := i) (by omega)
    exact (hgives m (by omega) (by omega)).not_failure hfail
  · exact (hindex i c.source).trans (item_outOfRange hsize hi)
  · intro g hcls hbytes
    exact ((invoke_item hk (parse_last hcls hbytes) c.source).trans (item_last hsize)).trans
      (hindex n c.source).symm
  · intro g hcls hbytes s
    have hspells : c.arena.SpellsRandom (.obj g) := ⟨g, rfl, hcls, hbytes⟩
    refine ⟨fun hzero => ?_, fun hpos => ?_⟩
    · rw [invoke_item hk (parse_random.mpr hspells) s]
      exact item_random_of_empty (hzero ▸ hsize)
    · obtain ⟨hlo, hhi⟩ := s.pick_bounds hpos
      refine ⟨(s.pick n).1, (s.pick n).2, hlo, hhi, ?_⟩
      rw [hindex, invoke_item hk (parse_random.mpr hspells) s]
      exact item_random hsize hpos s

/-- A list with one slot states five items, and another list has no payload. The last item of the
first one is the one in its slot, and the other has no item at any place. -/
theorem places_in_damaged_lists :
    ∃ c, Session c [⟨0⟩, ⟨3⟩, ⟨4⟩] ∧
      (∃ n : Nat, Primitive.Tells "length" [.obj ⟨0⟩] c n ∧
        Primitive.invoke "at" [.obj ⟨4⟩, .obj ⟨0⟩] c =
          Primitive.invoke "at" [.int n, .obj ⟨0⟩] c) ∧
      ∃ n : Nat, Primitive.Tells "length" [.obj ⟨3⟩] c n ∧
        ∀ i : Int, Primitive.invoke "at" [.int i, .obj ⟨3⟩] c =
          .error (.failure .indexOutOfRange) c ↔ i < 1 ∨ n < i := by
  have h0 := Session.start 64 .panic (Source.ofList [])
  have h1 := Session.step (.make (.object .list 2 (.int 5))) h0 (among_of_obj? rfl _) rfl
  have h2 := Session.step (.make (.object .list 0 .nil)) h1 (among_of_obj? rfl _) rfl
  have h3 := Session.step (.make (.string (Utf8.encode "last"))) h2 trivial rfl
  have ht := h3.closed.tiled
  have hfirst := places_go_up_to_length (h := ⟨0⟩) (k := .list ⟨0⟩) ht (by decide) rfl
  have hsecond := places_go_up_to_length (h := ⟨3⟩) (k := .list ⟨3⟩) ht (by decide) rfl
  obtain ⟨n, htells, _, _, hlast, _⟩ := hfirst
  obtain ⟨m, hempty, hplaces, _⟩ := hsecond
  exact ⟨_, h3, ⟨n, htells, hlast ⟨4⟩ rfl rfl⟩, m, hempty, hplaces⟩

end ObjectMemory
