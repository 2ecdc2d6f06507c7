import ObjectMemory.Arena.Lemmas

/-!
# Tilings

An arena keeps no list of its objects. They can be found all the same: the header at index 0
says where the second object starts, the header there where the third one does, and so on. This
module says when such a walk visits exactly a given row of objects.

## The relation

`Store.Tiles hs i past` says that the objects `hs` lie side by side from index `i` up to `past`.
It reads nothing but the headers, so it survives every change that leaves the headers alone
(`Tiles.transport`). In a tiling objects are apart (`Tiles.apart`), so a change within the
payload of one of them is such a change (`Tiles.ne_of_within`).

`Store.walk` is the walk itself. `Tiles.walk_eq` says that it finds a tiling.
-/

namespace ObjectMemory

namespace Store

/-! ## Walking by headers -/

/-- The number of payload words that the word at `i` states, read as a header. -/
def wordsAt (s : Store) (i : Nat) : Nat :=
  (Header.mk (s.get i)).payloadWords

/-- The index after the object that starts at `i`. -/
def after (s : Store) (i : Nat) : Nat :=
  i + 1 + s.wordsAt i

/-- The objects from index `i` up to `past`, each found through the one before, and the index
after the last. -/
def walk (s : Store) (past i : Nat) : List Handle × Nat :=
  if i < past then
    let found := s.walk past (s.after i)
    (⟨i⟩ :: found.1, found.2)
  else ([], i)
termination_by past - i
decreasing_by unfold after; omega

/-- The objects `hs` lie side by side from index `i` up to `past`. -/
def Tiles (s : Store) : (hs : List Handle) → (i past : Nat) → Prop
  | [], i, past => i = past
  | h :: rest, i, past => h.index = i ∧ s.Tiles rest (s.after i) past

theorem lt_after (s : Store) (i : Nat) : i < s.after i := by
  unfold after
  omega

theorem after_eq (s : Store) (i : Nat) : s.after i = i + 1 + s.wordsAt i := rfl

theorem after_congr {s t : Store} {i : Nat} (h : t.get i = s.get i) : t.after i = s.after i := by
  simp only [after, wordsAt, h]

variable {s t : Store} {hs : List Handle} {i past : Nat}

theorem Tiles.le (ht : s.Tiles hs i past) : i ≤ past := by
  induction hs generalizing i with
  | nil => exact Nat.le_of_eq ht
  | cons h rest ih =>
    obtain ⟨rfl, hrest⟩ := ht
    exact Nat.le_of_lt (Nat.lt_of_lt_of_le (s.lt_after h.index) (ih hrest))

/-- **The walk through a tiling visits its objects in order** and ends where the tiling ends. -/
theorem Tiles.walk_eq (ht : s.Tiles hs i past) : s.walk past i = (hs, past) := by
  induction hs generalizing i with
  | nil =>
    cases ht
    rw [walk, if_neg (Nat.lt_irrefl _)]
  | cons h rest ih =>
    obtain ⟨rfl, hrest⟩ := ht
    have hlt : h.index < past := Nat.lt_of_lt_of_le (s.lt_after h.index) hrest.le
    rw [walk, if_pos hlt, ih hrest]

/-! ## Objects of a tiling -/

/-- A tiling is continued by an object that starts where it ends. -/
theorem tiles_concat {h : Handle} :
    s.Tiles (hs ++ [h]) i past ↔ s.Tiles hs i h.index ∧ past = s.after h.index := by
  induction hs generalizing i with
  | nil =>
    constructor
    · rintro ⟨rfl, rfl⟩
      exact ⟨rfl, rfl⟩
    · rintro ⟨rfl, rfl⟩
      exact ⟨rfl, rfl⟩
  | cons g rest ih =>
    show g.index = i ∧ s.Tiles (rest ++ [h]) (s.after i) past ↔
      (g.index = i ∧ s.Tiles rest (s.after i) h.index) ∧ past = s.after h.index
    rw [ih, and_assoc]

/-- Every object of a tiling lies within it. -/
theorem Tiles.bounds (ht : s.Tiles hs i past) {h : Handle} (hh : h ∈ hs) :
    i ≤ h.index ∧ s.after h.index ≤ past := by
  induction hs generalizing i with
  | nil => simp at hh
  | cons g rest ih =>
    obtain ⟨rfl, hrest⟩ := ht
    rcases List.mem_cons.mp hh with rfl | hh
    · exact ⟨Nat.le_refl _, hrest.le⟩
    · have hb := ih hrest hh
      have := s.lt_after g.index
      exact ⟨by omega, hb.2⟩

/-- Every index of a tiling lies in one of its objects. -/
theorem Tiles.covers (ht : s.Tiles hs i past) {j : Nat} (hlo : i ≤ j) (hhi : j < past) :
    ∃ h ∈ hs, h.index ≤ j ∧ j < s.after h.index := by
  induction hs generalizing i with
  | nil =>
    cases ht
    omega
  | cons g rest ih =>
    obtain ⟨rfl, hrest⟩ := ht
    by_cases hin : j < s.after g.index
    · exact ⟨g, List.mem_cons_self, hlo, hin⟩
    · obtain ⟨h, hh, hj⟩ := ih hrest (Nat.not_lt.mp hin)
      exact ⟨h, List.mem_cons_of_mem g hh, hj⟩

/-- **The objects of a tiling do not overlap**: each ends before the next one starts. -/
theorem Tiles.ordered (ht : s.Tiles hs i past) :
    hs.Pairwise fun g h => s.after g.index ≤ h.index := by
  induction hs generalizing i with
  | nil => exact List.Pairwise.nil
  | cons g rest ih =>
    obtain ⟨rfl, hrest⟩ := ht
    exact List.Pairwise.cons (fun h hh => (hrest.bounds hh).1) (ih hrest)

theorem Tiles.apart (ht : s.Tiles hs i past) {g h : Handle} (hg : g ∈ hs) (hh : h ∈ hs)
    (hne : g ≠ h) : s.after g.index ≤ h.index ∨ s.after h.index ≤ g.index := by
  let R (g h : Handle) : Prop :=
    g ≠ h → s.after g.index ≤ h.index ∨ s.after h.index ≤ g.index
  have hforth : hs.Pairwise R := ht.ordered.imp fun hle _ => Or.inl hle
  have hback : hs.Pairwise (flip R) := ht.ordered.imp fun hle _ => Or.inr hle
  have hself : ∀ g ∈ hs, R g g := fun g _ hgg => absurd rfl hgg
  exact hforth.forall_of_forall_of_flip hself hback hg hh hne

/-- **A header is never part of another object's payload.** -/
theorem Tiles.ne_of_within (ht : s.Tiles hs i past) {g h : Handle} (hg : g ∈ hs) (hh : h ∈ hs)
    {j : Nat} (hlo : h.index < j) (hhi : j < s.after h.index) : g.index ≠ j := by
  rintro rfl
  by_cases hgh : g = h
  · subst hgh
    omega
  · have := s.lt_after g.index
    rcases ht.apart hg hh hgh with h1 | h1 <;> omega

/-! ## Other stores -/

/-- **A tiling depends on its headers only.** -/
theorem Tiles.transport (ht : s.Tiles hs i past)
    (hsame : ∀ h ∈ hs, t.get h.index = s.get h.index) : t.Tiles hs i past := by
  induction hs generalizing i with
  | nil => exact ht
  | cons g rest ih =>
    obtain ⟨rfl, hrest⟩ := ht
    have hafter := after_congr (hsame g List.mem_cons_self)
    exact ⟨rfl, hafter ▸ ih hrest fun h hh => hsame h (List.mem_cons_of_mem _ hh)⟩

end Store

namespace Arena

/-- The objects in the used words, each found through the one before, and the index after the
last. -/
def walk (a : Arena) : List Handle × Nat :=
  a.store.walk a.used 0

/-- The used words are exactly the objects `hs`, and the arena has the size of one. -/
structure Tiled (a : Arena) (hs : List Handle) : Prop where
  tiles : a.store.Tiles hs 0 a.used
  /-- An arena is never quite full. -/
  room : a.used = 0 ∨ a.used < a.capacity
  size : a.capacity ≤ maxArenaWords

/-- The object lies within the used words, and these lie within the arena. -/
structure Holds (a : Arena) (h : Handle) : Prop where
  after_le : a.store.after h.index ≤ a.used
  used_le : a.used ≤ a.capacity

variable {a b : Arena} {hs : List Handle} {h : Handle}

theorem Tiled.walk_eq (ht : a.Tiled hs) : a.walk = (hs, a.used) :=
  ht.tiles.walk_eq

/-- An arena is tiled in one way only. -/
theorem Tiled.unique {gs : List Handle} (h1 : a.Tiled hs) (h2 : a.Tiled gs) : hs = gs := by
  have heq := h1.walk_eq.symm.trans h2.walk_eq
  exact congrArg Prod.fst heq

theorem Tiled.used_le (ht : a.Tiled hs) : a.used ≤ a.capacity := by
  rcases ht.room with h0 | h0 <;> omega

theorem Tiled.holds (ht : a.Tiled hs) (hh : h ∈ hs) : a.Holds h :=
  ⟨(ht.tiles.bounds hh).2, ht.used_le⟩

/-- **An arena of the same size and headers is tiled alike.** -/
theorem Tiled.transport (ht : a.Tiled hs) (hused : b.used = a.used)
    (hcap : b.capacity = a.capacity)
    (hsame : ∀ h ∈ hs, b.store.get h.index = a.store.get h.index) : b.Tiled hs where
  tiles := by
    rw [hused]
    exact ht.tiles.transport hsame
  room := by
    rw [hused, hcap]
    exact ht.room
  size := hcap ▸ ht.size

/-- A new arena has no objects. -/
theorem tiled_ofSize (words : Nat) (action : ExhaustionAction) :
    ((ofSize words).withAction action).Tiled [] where
  tiles := rfl
  room := Or.inl rfl
  size := Nat.min_le_right _ _

end Arena

end ObjectMemory
