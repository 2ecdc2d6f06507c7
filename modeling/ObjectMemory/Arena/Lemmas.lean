import ObjectMemory.Arena.Bytes

/-!
# What the arena's actions do

Each action is described by one equation per outcome: what it gives and which arena it leaves.
Later arguments use these equations and do not open the actions again.

* `allot_of_fits`, `allot_of_not_fits` — an object is placed at the boundary, or the run stops
  with nothing but the journal changed
* `allocate_of_le`, `allocate_of_lt` — a size that a caller states is checked first
* `get_place` — placing an object writes its header, then its payload, and no other word
* `setPayloadWord_of_locate`, `setPayloadWord_of_le` — a store into an object changes one word,
  or is refused because the object does not have it
* `readRange_succ` — a run of readings is the first one and then the others
-/

namespace ObjectMemory.Arena

/-! ## Single steps -/

theorem get_apply (a : Arena) : (get : ArenaM Arena) a = .ok a a := rfl

theorem modify_apply (change : Arena → Arena) (a : Arena) :
    (modify change : ArenaM Unit) a = .ok () (change a) := rfl

theorem throw_apply {α : Type} (s : Stop) (a : Arena) : (throw s : ArenaM α) a = .error s a := rfl

/-! ## Reading functions as actions -/

theorem look_of_ok {α : Type} {read : Arena → Except Stop α} {a : Arena} {x : α}
    (h : read a = .ok x) : look read a = .ok x a := by
  rw [look, h]

theorem look_of_error {α : Type} {read : Arena → Except Stop α} {a : Arena} {s : Stop}
    (h : read a = .error s) : look read a = .error s a := by
  rw [look, h]

theorem look_eq_ok {α : Type} {read : Arena → Except Stop α} {a b : Arena} {x : α}
    (h : look read a = .ok x b) : read a = .ok x ∧ b = a := by
  unfold look at h
  split at h
  · next hread =>
    cases h
    exact ⟨hread, rfl⟩
  · cases h

/-! ## Runs of readings -/

theorem collect_eq {α : Type} (read : Nat → Except Stop α) (start n : Nat) (done : List α) :
    collect read start n done = (collect read start n []).map (done.reverse ++ ·) := by
  induction n generalizing start done with
  | zero => simp [collect, Except.map]
  | succ n ih =>
    rw [collect, collect]
    cases read start with
    | error s => rfl
    | ok x =>
      simp only
      rw [ih (start + 1) (x :: done), ih (start + 1) [x]]
      cases collect read (start + 1) n [] with
      | error s => rfl
      | ok xs => simp [Except.map]

/-- **A run of readings is the first one and then the others.** -/
theorem readRange_succ {α : Type} (read : Nat → Except Stop α) (start n : Nat) :
    readRange read start (n + 1) = do
      let x ← read start
      let xs ← readRange read (start + 1) n
      return x :: xs := by
  unfold readRange
  rw [collect]
  cases read start with
  | error s => rfl
  | ok x =>
    simp only
    rw [collect_eq]
    cases collect read (start + 1) n [] with
    | error s => rfl
    | ok xs => rfl

/-- A run of readings that all succeed gives their values in order. -/
theorem readRange_of_ok {α : Type} {read : Nat → Except Stop α} {f : Nat → α} {start n : Nat}
    (h : ∀ i, start ≤ i → i < start + n → read i = .ok (f i)) :
    readRange read start n = .ok ((List.range n).map fun i => f (start + i)) := by
  induction n generalizing start with
  | zero => rfl
  | succ n ih =>
    have hfirst := h start (Nat.le_refl start) (by omega)
    have hrest := @ih (start + 1) fun i h1 h2 => h i (by omega) (by omega)
    rw [readRange_succ, hfirst, hrest, List.range_succ_eq_map, List.map_cons, List.map_map]
    have hshift : ∀ i, f (start + 1 + i) = f (start + (i + 1)) := by
      intro i
      congr 1
      omega
    simp only [hshift]
    rfl

/-! ## Placing an object -/

/-- **Placing an object writes its header and its payload**, and no other word. -/
theorem get_place (a : Arena) (header : Header) (payload : Nat) (fill : Word) (j : Nat) :
    (a.place header payload fill).store.get j =
      if j = a.used then header.word
      else if a.used < j ∧ j ≤ a.used + payload then fill
      else a.store.get j := by
  simp only [place, Store.get_fill, Store.get_set]
  by_cases h : j = a.used
  · subst h
    rw [if_neg (by omega), if_pos rfl, if_pos rfl]
  · by_cases h2 : a.used < j ∧ j ≤ a.used + payload
    · rw [if_pos (by omega), if_neg h, if_pos h2]
    · rw [if_neg (by omega), if_neg h, if_neg h2, if_neg h]

/-- Words below the boundary stay as they are. -/
theorem get_place_below {a : Arena} {j : Nat} (header : Header) (payload : Nat) (fill : Word)
    (h : j < a.used) : (a.place header payload fill).store.get j = a.store.get j := by
  rw [get_place, if_neg (by omega), if_neg (by omega)]

/-- **An object that fits is placed at the boundary.** -/
theorem allot_of_fits {a : Arena} {c : ObjClass} {payload : Nat} {fill : Ref}
    (hfits : a.Fits payload) (hc : c.Storable) :
    allot c payload fill a =
      .ok ⟨a.used⟩
        { a.place (Header.ofParts c payload) payload fill.toWord with
          journal := a.journal.push (.allocated a.used c payload) } := by
  have hpack := Header.pack_eq_ok hfits.2 hc
  simp [allot, hfits, look, hpack, note, place, bind, EStateM.bind, get_apply, modify_apply,
    pure, EStateM.pure]

/-- **An object that does not fit stops the run.** Only the journal has changed by then. -/
theorem allot_of_not_fits {a : Arena} {c : ObjClass} {payload : Nat} {fill : Ref}
    (hfits : ¬ a.Fits payload) :
    allot c payload fill a =
      .error (.exhausted a.onExhaustion (Size.reported a.used (1 + payload)) a.capacity)
        { a with journal := a.journal.push (.exhausted a.used (1 + payload) a.capacity) } := by
  simp [allot, hfits, exhaust, note, bind, EStateM.bind, get_apply, modify_apply, throw_apply]

/-! ## Sizes that a caller states -/

theorem look_add_of_le {m n : Nat} (h : m + n ≤ Size.largest) (a : Arena) :
    look (fun _ => Size.add m n) a = .ok (m + n) a :=
  look_of_ok (Size.add_of_le h)

theorem look_add_of_lt {m n : Nat} (h : Size.largest < m + n) (a : Arena) :
    look (fun _ => Size.add m n) a = .error .overflow a :=
  look_of_error (Size.add_of_lt h)

theorem allocate_of_le {payload : Nat} (c : ObjClass) (fill : Ref)
    (hsize : 1 + payload ≤ Size.largest) : allocate c payload fill = allot c payload fill := by
  funext a
  simp [allocate, bind, EStateM.bind, look_add_of_le hsize a]

/-- **A size that 64 bits do not hold together with the header stops the run**, and the arena stays
as it is. -/
theorem allocate_of_lt {payload : Nat} (c : ObjClass) (fill : Ref)
    (hsize : Size.largest < 1 + payload) (a : Arena) :
    allocate c payload fill a = .error .overflow a := by
  simp [allocate, bind, EStateM.bind, look_add_of_lt hsize a]

/-! ## Words of an object -/

theorem header_of_lt {a : Arena} {h : Handle} (hi : h.index < a.capacity) :
    a.header h = .ok ⟨a.store.get h.index⟩ := by
  rw [header, cell, if_pos hi]
  rfl

theorem payloadWords_of_lt {a : Arena} {h : Handle} (hi : h.index < a.capacity) :
    a.payloadWords h = .ok (Header.mk (a.store.get h.index)).payloadWords := by
  rw [payloadWords, header_of_lt hi]
  rfl

/-- **A payload word that the object has, in an arena that holds it, is found.** -/
theorem locate_of_lt {a : Arena} {h : Handle} {n i : Nat} (hn : a.payloadWords h = .ok n)
    (hi : i < n) (hcap : h.index + 1 + i < a.capacity) :
    a.locate h i = .ok (h.index + 1 + i) := by
  rw [locate, hn]
  simp [bind, Except.bind, pure, Except.pure, Nat.not_le.mpr hi, Nat.not_le.mpr hcap]

/-- **A store into an object changes one word.** -/
theorem setPayloadWord_of_locate {a : Arena} {h : Handle} {i place : Nat} (w : Word)
    (hp : a.locate h i = .ok place) :
    setPayloadWord h i w a = .ok () { a with store := a.store.set place w } := by
  have hlook : look (fun a => a.locate h i) a = .ok place a := look_of_ok hp
  simp [setPayloadWord, hlook, alter, bind, EStateM.bind, modify_apply]

/-- A payload word that the object does not have is refused, and the arena stays as it is. -/
theorem setPayloadWord_of_le {a : Arena} {h : Handle} {n i : Nat} (w : Word)
    (hn : a.payloadWords h = .ok n) (hi : n ≤ i) :
    setPayloadWord h i w a = .error (.payloadIndex i h) a := by
  have hlocate : a.locate h i = .error (.payloadIndex i h) := by
    rw [locate, hn]
    simp [bind, Except.bind, hi, throw, throwThe, MonadExceptOf.throw]
  have hlook : look (fun a => a.locate h i) a = .error (.payloadIndex i h) a :=
    look_of_error hlocate
  simp [setPayloadWord, hlook, bind, EStateM.bind]

/-! ## Ranges of an object -/

/-- An empty range is filled without a look at the object. -/
theorem fillFields_of_le {a : Arena} {h : Handle} {first past : Nat} {value : Ref}
    (hle : past ≤ first) : fillFields h first past value a = .ok () a := by
  simp [fillFields, Nat.not_lt.mpr hle, pure, EStateM.pure]

/-- Nothing is copied without a look at the objects. -/
theorem copyFields_zero (source target : Handle) (sourceStart targetStart : Nat) (a : Arena) :
    copyFields source sourceStart target targetStart 0 a = .ok () a := by
  simp [copyFields, pure, EStateM.pure]

end ObjectMemory.Arena
