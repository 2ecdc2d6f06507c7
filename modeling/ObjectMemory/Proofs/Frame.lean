import ObjectMemory.Proofs.Access

/-!
# What an action leaves alone

There are two ways to change the words of an arena. An action that stores words touches nothing
but the payload of one object (`WroteIn`), and one that makes an object touches nothing but the
words of that object, which lie beyond all others (`Gained`). Either way the arena is tiled
afterwards if it was before: by the same objects (`Tiled.wrote`), or by these and the new one
(`Tiled.gained`).

Both relations compose. Stores into an object that was just made belong to making it
(`Gained.wrote`).
-/

namespace ObjectMemory.Arena

variable {a b d : Arena} {g h : Handle} {hs : List Handle} {c : ObjClass} {n : Nat}

/-- The action, run on `a`, leaves `b`, whether it gives a value or stops. -/
def Leaves {α : Type} (act : ArenaM α) (a b : Arena) : Prop :=
  (∃ x, act a = .ok x b) ∨ ∃ s, act a = .error s b

theorem leaves_of_ok {α : Type} {act : ArenaM α} {x : α} (hrun : act a = .ok x b)
    (hl : Leaves act a d) : d = b := by
  rcases hl with ⟨y, hy⟩ | ⟨s, hs⟩
  · rw [hrun] at hy
    cases hy
    rfl
  · rw [hrun] at hs
    cases hs

theorem leaves_of_error {α : Type} {act : ArenaM α} {s : Stop} (hrun : act a = .error s b)
    (hl : Leaves act a d) : d = b := by
  rcases hl with ⟨y, hy⟩ | ⟨s', hs⟩
  · rw [hrun] at hy
    cases hy
  · rw [hrun] at hs
    cases hs
    rfl

/-! ## Stores into an object -/

/-- Nothing differs but payload words of the object `h`. -/
structure WroteIn (a : Arena) (h : Handle) (b : Arena) : Prop where
  used : b.used = a.used
  capacity : b.capacity = a.capacity
  action : b.onExhaustion = a.onExhaustion
  counters : b.counters = a.counters
  journal : b.journal = a.journal
  get : ∀ j, ¬ (h.index < j ∧ j < a.store.after h.index) → b.store.get j = a.store.get j

theorem WroteIn.refl (a : Arena) (h : Handle) : a.WroteIn h a :=
  ⟨rfl, rfl, rfl, rfl, rfl, fun _ _ => rfl⟩

/-- A header is no payload word of its own object. -/
theorem WroteIn.header (hw : a.WroteIn h b) : b.store.get h.index = a.store.get h.index :=
  hw.get h.index (by omega)

theorem WroteIn.after (hw : a.WroteIn h b) : b.store.after h.index = a.store.after h.index :=
  Store.after_congr hw.header

theorem WroteIn.trans (hab : a.WroteIn h b) (hbd : b.WroteIn h d) : a.WroteIn h d where
  used := hbd.used.trans hab.used
  capacity := hbd.capacity.trans hab.capacity
  action := hbd.action.trans hab.action
  counters := hbd.counters.trans hab.counters
  journal := hbd.journal.trans hab.journal
  get j hj := (hbd.get j (by rw [hab.after]; exact hj)).trans (hab.get j hj)

/-- The object is held as before, since neither its header nor the boundary moved. -/
theorem WroteIn.holds (hw : a.WroteIn h b) (hh : a.Holds h) : b.Holds h where
  after_le := by rw [hw.after, hw.used]; exact hh.after_le
  used_le := by rw [hw.used, hw.capacity]; exact hh.used_le

/-- A header lies in no payload, so stores into an object leave all headers alone. -/
theorem Tiled.wrote_header (ht : a.Tiled hs) (hh : h ∈ hs) (hg : g ∈ hs) (hw : a.WroteIn h b) :
    b.store.get g.index = a.store.get g.index := by
  refine hw.get g.index ?_
  rintro ⟨hlo, hhi⟩
  exact ht.tiles.ne_of_within hg hh hlo hhi rfl

/-- **An arena that is tiled stays so when words are stored into one of its objects.** -/
theorem Tiled.wrote (ht : a.Tiled hs) (hh : h ∈ hs) (hw : a.WroteIn h b) : b.Tiled hs :=
  ht.transport hw.used hw.capacity fun _ hg => ht.wrote_header hh hg hw

/-- **Another object of a tiling keeps all of its words.** -/
theorem Tiled.wrote_other (ht : a.Tiled hs) (hh : h ∈ hs) (hg : g ∈ hs) (hne : g ≠ h)
    (hw : a.WroteIn h b) {j : Nat} (hlo : g.index ≤ j) (hhi : j < a.store.after g.index) :
    b.store.get j = a.store.get j := by
  refine hw.get j ?_
  rintro ⟨h1, h2⟩
  rcases ht.tiles.apart hg hh hne with h3 | h3 <;> omega

theorem setPayloadWord_wrote (hh : a.Holds h) {i : Nat} {w : Word}
    (hl : Leaves (setPayloadWord h i w) a b) : a.WroteIn h b := by
  have hrun := setPayloadWord_of_holds hh i w
  split at hrun
  · next hi =>
    rw [leaves_of_ok hrun hl]
    refine ⟨rfl, rfl, rfl, rfl, rfl, fun j hj => Store.get_set_other _ w ?_⟩
    rintro rfl
    have := a.store.after_eq h.index
    omega
  · rw [leaves_of_error hrun hl]
    exact WroteIn.refl a h

theorem fillFields_wrote (hh : a.Holds h) {first past : Nat} {value : Ref}
    (hl : Leaves (fillFields h first past value) a b) : a.WroteIn h b := by
  have hrun := fillFields_of_holds hh first past value
  split at hrun
  · rw [leaves_of_ok hrun hl]
    exact WroteIn.refl a h
  · split at hrun
    · next hne hle =>
      rw [leaves_of_ok hrun hl]
      refine ⟨rfl, rfl, rfl, rfl, rfl, fun j hj => ?_⟩
      have := a.store.after_eq h.index
      show (Store.fill _ _ _ _).get j = _
      rw [Store.get_fill, if_neg (by omega)]
    · rw [leaves_of_error hrun hl]
      exact WroteIn.refl a h

/-- What moves words writes into the target, wherever they come from. -/
theorem copyFields_wrote (hg : a.Holds g) (hh : a.Holds h) {sourceStart targetStart n : Nat}
    (hl : Leaves (copyFields g sourceStart h targetStart n) a b) : a.WroteIn h b := by
  have hrun := copyFields_of_holds hg hh sourceStart targetStart n
  split at hrun
  · rw [leaves_of_ok hrun hl]
    exact WroteIn.refl a h
  · split at hrun
    · next hstop =>
      -- nothing stops the copy, so the range that is written lies in the object
      have hle := (moveStop_eq_none a.store _ _ _ _ _).mp hstop
      rw [leaves_of_ok hrun hl]
      refine ⟨rfl, rfl, rfl, rfl, rfl, fun j hj => ?_⟩
      have := a.store.after_eq h.index
      show (Store.move _ _ _ _).get j = _
      rw [Store.get_move, if_neg (by omega)]
    · rw [leaves_of_error hrun hl]
      exact WroteIn.refl a h

theorem setByte_wrote (hh : a.Holds h) {i : Nat} {byte : UInt8}
    (hl : Leaves (setByte h i byte) a b) : a.WroteIn h b := by
  have hrun := setByte_of_holds hh i byte
  split at hrun
  · next hi =>
    rw [leaves_of_ok hrun hl]
    refine ⟨rfl, rfl, rfl, rfl, rfl, fun j hj => Store.get_set_other _ _ ?_⟩
    rintro rfl
    have := a.store.after_eq h.index
    omega
  · rw [leaves_of_error hrun hl]
    exact WroteIn.refl a h

/-- A run of bytes is written byte by byte, and also one that is cut short by a stop touches
nothing else. -/
theorem writeBytes_wrote (hh : a.Holds h) {offset : Nat} {bytes : List UInt8}
    (hl : Leaves (writeBytes h offset bytes) a b) : a.WroteIn h b := by
  induction bytes generalizing a offset with
  | nil =>
    rw [leaves_of_ok (show writeBytes h offset [] a = .ok () a from rfl) hl]
    exact WroteIn.refl a h
  | cons byte rest ih =>
    cases hfirst : setByte h offset byte a with
    | ok x d =>
      have hw : a.WroteIn h d := setByte_wrote hh (Or.inl ⟨x, hfirst⟩)
      have hrest : writeBytes h offset (byte :: rest) a = writeBytes h (offset + 1) rest d :=
        bind_of_ok hfirst
      rw [Leaves, hrest] at hl
      exact hw.trans (ih (hw.holds hh) hl)
    | error s d =>
      have hstop : writeBytes h offset (byte :: rest) a = .error s d := bind_of_error hfirst
      rw [leaves_of_error hstop hl]
      exact setByte_wrote hh (Or.inr ⟨s, hfirst⟩)

/-- All bytes are those of the payload words, also if the run is cut short. -/
theorem fillBytes_wrote (hh : a.Holds h) {byte : UInt8}
    (hl : Leaves (fillBytes h byte) a b) : a.WroteIn h b := by
  rw [leaves_of_ok (fillBytes_of_holds hh byte) hl]
  refine ⟨rfl, rfl, rfl, rfl, rfl, fun j hj => ?_⟩
  have := a.store.after_eq h.index
  show (Store.fill _ _ _ _).get j = _
  rw [Store.get_fill, if_neg (by omega)]

/-! ## New objects -/

/-- Nothing differs but a new object of class `c` with `n` payload words at the boundary. -/
structure Gained (a : Arena) (c : ObjClass) (n : Nat) (b : Arena) : Prop where
  fits : a.Fits n
  storable : c.Storable
  used : b.used = a.used + (1 + n)
  capacity : b.capacity = a.capacity
  action : b.onExhaustion = a.onExhaustion
  header : b.store.get a.used = (Header.ofParts c n).word
  get : ∀ j, ¬ (a.used ≤ j ∧ j < a.used + (1 + n)) → b.store.get j = a.store.get j

theorem Gained.wordsAt (hg : a.Gained c n b) : b.store.wordsAt a.used = n := by
  rw [Store.wordsAt, hg.header]
  exact Header.payloadWords_ofParts hg.fits.2

/-- The new object reaches up to the new boundary. -/
theorem Gained.after (hg : a.Gained c n b) : b.store.after a.used = b.used := by
  rw [Store.after, hg.wordsAt, hg.used]
  omega

theorem Gained.holds_new (hg : a.Gained c n b) : b.Holds ⟨a.used⟩ where
  after_le := Nat.le_of_eq hg.after
  used_le := by
    have := hg.fits.1
    rw [hg.used, hg.capacity]
    omega

theorem Gained.after_old (hg : a.Gained c n b) {i : Nat} (hi : i < a.used) :
    b.store.after i = a.store.after i :=
  Store.after_congr (hg.get i (by omega))

/-- Objects below the boundary are held as before. -/
theorem Gained.holds (hg : a.Gained c n b) (hh : a.Holds h) : b.Holds h where
  after_le := by
    have := hh.after_le
    rw [hg.after_old (Nat.lt_of_lt_of_le (a.store.lt_after h.index) hh.after_le), hg.used]
    omega
  used_le := hg.holds_new.used_le

/-- Stores into the new object are part of making it. -/
theorem Gained.wrote (hg : a.Gained c n b) (hw : b.WroteIn ⟨a.used⟩ d) : a.Gained c n d where
  fits := hg.fits
  storable := hg.storable
  used := hw.used.trans hg.used
  capacity := hw.capacity.trans hg.capacity
  action := hw.action.trans hg.action
  header := hw.header.trans hg.header
  get j hj := by
    have hafter : b.store.after (⟨a.used⟩ : Handle).index = a.used + (1 + n) :=
      hg.after.trans hg.used
    exact (hw.get j (by rw [hafter]; show ¬ (a.used < j ∧ _); omega)).trans (hg.get j hj)

/-- **An arena that is tiled and gains an object is tiled by the old objects and the new one.** -/
theorem Tiled.gained (ht : a.Tiled hs) (hg : a.Gained c n b) : b.Tiled (hs ++ [⟨a.used⟩]) where
  tiles := by
    refine Store.tiles_concat.mpr ⟨ht.tiles.transport fun h hh => hg.get h.index ?_, hg.after.symm⟩
    have h1 := (ht.tiles.bounds hh).2
    have h2 := a.store.lt_after h.index
    omega
  room := by
    have := hg.fits.1
    rw [hg.used, hg.capacity]
    omega
  size := hg.capacity ▸ ht.size

theorem gained_issued (hfits : a.Fits n) (hc : c.Storable) (fill : Word) :
    a.Gained c n (a.issued c n fill) where
  fits := hfits
  storable := hc
  used := rfl
  capacity := rfl
  action := rfl
  header := by
    show (a.place _ _ _).store.get a.used = _
    rw [get_place, if_pos rfl]
  get j hj := by
    show (a.place _ _ _).store.get j = _
    rw [get_place, if_neg (by omega), if_neg (by omega)]

theorem gained_relocated (hfits : a.Fits n) (fill : Word) :
    a.Gained (Header.mk (a.store.get h.index)).cls n (a.relocated h n fill) := by
  have hg := gained_issued hfits (storable_cls ⟨a.store.get h.index⟩) fill
  refine ⟨hfits, hg.storable, rfl, rfl, rfl, ?_, fun j hj => ?_⟩
  · show (Store.move _ _ _ _).get a.used = _
    rw [Store.get_move, if_neg (by omega)]
    exact hg.header
  · show (Store.move _ _ _ _).get j = _
    rw [Store.get_move, if_neg (by omega)]
    exact hg.get j hj

theorem allot_gained {fill : Ref} (hrun : allot c n fill a = .ok h b) :
    h = ⟨a.used⟩ ∧ a.Gained c n b := by
  by_cases hfits : a.Fits n
  · by_cases hc : c.Storable
    · rw [allot_eq hc, if_pos hfits] at hrun
      cases hrun
      exact ⟨rfl, gained_issued hfits hc fill.toWord⟩
    · cases c with
      | other t =>
        have hr : ObjClass.isReservedTag t = true := by simpa [ObjClass.Storable] using hc
        rw [allot_of_reserved hr fill hfits] at hrun
        cases hrun
      | string => exact absurd trivial hc
      | list => exact absurd trivial hc
      | byteArray => exact absurd trivial hc
  · rw [allot_of_not_fits hfits] at hrun
    cases hrun

theorem allocate_gained {fill : Ref} (hrun : allocate c n fill a = .ok h b) :
    h = ⟨a.used⟩ ∧ a.Gained c n b := by
  obtain ⟨_, d, hsize, hallot⟩ := bind_eq_ok.mp hrun
  obtain ⟨_, rfl⟩ := look_eq_ok hsize
  exact allot_gained hallot

/-- The payload of a string of stated length is as long as its bytes and their end mark need. -/
theorem allocString_gained {k : Nat} (hrun : allocString k a = .ok h b) :
    h = ⟨a.used⟩ ∧ a.Gained .string (wordsForBytes (k + 1)) b := by
  obtain ⟨bytes, d, hsize, halloc⟩ := bind_eq_ok.mp hrun
  obtain ⟨hsum, rfl⟩ := look_eq_ok hsize
  obtain rfl := Size.eq_of_add hsum
  exact allocate_gained halloc

/-- A copy is a new object of the same class, and the old object stays. -/
theorem grow_gained {fill : Ref} (hh : a.Holds h) (hrun : grow h n fill a = .ok g b) :
    g = ⟨a.used⟩ ∧ a.Gained (Header.mk (a.store.get h.index)).cls n b := by
  rw [grow_eq hh (sized_of_grow hh hrun)] at hrun
  split at hrun
  · next hfits =>
    cases hrun
    exact ⟨rfl, gained_relocated hfits fill.toWord⟩
  · cases hrun

/-- The payload of a new string is as long as its bytes and their end mark need. -/
theorem newString_gained {bytes : List UInt8} (hrun : newString bytes a = .ok h b) :
    h = ⟨a.used⟩ ∧
      a.Gained .string (wordsForBytes ((bytes.takeWhile (· ≠ 0)).length + 1)) b := by
  obtain ⟨g, d, halloc, hrest⟩ := bind_eq_ok.mp hrun
  obtain ⟨_, e, hwrite, hret⟩ := bind_eq_ok.mp hrest
  obtain ⟨rfl, hg⟩ := allot_gained halloc
  cases hret
  exact ⟨rfl, hg.wrote (writeBytes_wrote hg.holds_new (Or.inl ⟨_, hwrite⟩))⟩

end ObjectMemory.Arena
