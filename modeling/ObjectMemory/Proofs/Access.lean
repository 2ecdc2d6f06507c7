import ObjectMemory.Proofs.Tiling

/-!
# Access to the objects an arena holds

On an object that lies within the used words an operation of the arena has few outcomes: the
object has the payload words that the operation names, or the operation is refused, and nothing
else can go wrong. Each operation is described here by one equation that says which outcome
comes when and which arena it leaves.

* `payloadWord_of_holds`, `setPayloadWord_of_holds` — one word
* `fillFields_of_holds`, `copyFields_of_holds` — a range of words
* `setByte_of_holds`, `fillBytes_of_holds` — bytes
* `allot_eq`, `grow_eq` — new objects

Sums of sizes that a caller states come first. One that 64 bits do not hold stops the run before
the objects are looked at.
-/

namespace ObjectMemory

/-! ## Actions one after the other -/

section Runs

variable {ε σ α β : Type} {act : EStateM ε σ α} {next : α → EStateM ε σ β} {s t : σ}

theorem bind_of_ok {x : α} (h : act s = .ok x t) : (act >>= next) s = next x t := by
  simp [bind, EStateM.bind, h]

theorem bind_of_error {e : ε} (h : act s = .error e t) : (act >>= next) s = .error e t := by
  simp [bind, EStateM.bind, h]

/-- An action gives a value exactly if its parts do, one after the other. -/
theorem bind_eq_ok {y : β} {u : σ} :
    (act >>= next) s = .ok y u ↔ ∃ x t, act s = .ok x t ∧ next x t = .ok y u := by
  cases h : act s with
  | ok x t =>
    rw [bind_of_ok h]
    constructor
    · intro hy
      exact ⟨x, t, rfl, hy⟩
    · rintro ⟨x', t', heq, hy⟩
      cases heq
      exact hy
  | error e t =>
    rw [bind_of_error h]
    constructor
    · intro hy
      cases hy
    · rintro ⟨x', t', heq, _⟩
      cases heq

end Runs

namespace Arena

variable {a b : Arena} {h : Handle}

theorem alter_apply (change : Store → Store) (a : Arena) :
    alter change a = .ok () { a with store := change a.store } := rfl

theorem reach_of_le {past : Nat} (hle : past ≤ a.capacity) : reach past a = .ok () a := by
  simp [reach, bind, EStateM.bind, get_apply, pure, EStateM.pure, Nat.not_lt.mpr hle]

/-! ## Single words -/

theorem Holds.index_lt (hh : a.Holds h) : h.index < a.capacity :=
  Nat.lt_of_lt_of_le (a.store.lt_after h.index) (Nat.le_trans hh.after_le hh.used_le)

theorem Holds.payload_lt (hh : a.Holds h) {i : Nat} (hi : i < a.store.wordsAt h.index) :
    h.index + 1 + i < a.used := by
  have := hh.after_le
  unfold Store.after at this
  omega

theorem header_of_holds (hh : a.Holds h) : a.header h = .ok ⟨a.store.get h.index⟩ :=
  header_of_lt hh.index_lt

theorem classOf_of_holds (hh : a.Holds h) :
    a.classOf h = .ok (Header.mk (a.store.get h.index)).cls := by
  rw [classOf, header_of_holds hh]
  rfl

theorem payloadWords_of_holds (hh : a.Holds h) :
    a.payloadWords h = .ok (a.store.wordsAt h.index) :=
  payloadWords_of_lt hh.index_lt

theorem locate_of_holds (hh : a.Holds h) (i : Nat) :
    a.locate h i = if i < a.store.wordsAt h.index then .ok (h.index + 1 + i)
      else .error (.payloadIndex i h) := by
  by_cases hi : i < a.store.wordsAt h.index
  · rw [if_pos hi]
    have hcap := Nat.lt_of_lt_of_le (hh.payload_lt hi) hh.used_le
    exact locate_of_lt (payloadWords_of_holds hh) hi hcap
  · rw [if_neg hi, locate, payloadWords_of_holds hh]
    simp [bind, Except.bind, Nat.not_lt.mp hi, throw, throwThe, MonadExceptOf.throw]

/-- **A word that the object has is read, any other is refused.** -/
theorem payloadWord_of_holds (hh : a.Holds h) (i : Nat) :
    a.payloadWord h i = if i < a.store.wordsAt h.index then .ok (a.store.get (h.index + 1 + i))
      else .error (.payloadIndex i h) := by
  rw [payloadWord, locate_of_holds hh]
  split <;> rfl

/-- **A word that the object has is stored, any other is refused.** -/
theorem setPayloadWord_of_holds (hh : a.Holds h) (i : Nat) (w : Word) :
    setPayloadWord h i w a =
      if i < a.store.wordsAt h.index then
        .ok () { a with store := a.store.set (h.index + 1 + i) w }
      else .error (.payloadIndex i h) a := by
  have hlocate := locate_of_holds hh i
  split at hlocate
  · next hi => rw [if_pos hi, setPayloadWord_of_locate w hlocate]
  · next hi =>
    rw [if_neg hi]
    exact setPayloadWord_of_le w (payloadWords_of_holds hh) (Nat.not_lt.mp hi)

/-! ## Ranges of words -/

/-- **A range that the object has is filled.** An empty one always is. -/
theorem fillFields_of_holds (hh : a.Holds h) (first past : Nat) (value : Ref) :
    fillFields h first past value a =
      if past ≤ first then .ok () a
      else if past ≤ a.store.wordsAt h.index then
        .ok () { a with store := a.store.fill (h.index + 1 + first) value.toWord (past - first) }
      else .error .badRange a := by
  by_cases hempty : past ≤ first
  · rw [if_pos hempty, fillFields_of_le hempty]
  · rw [if_neg hempty]
    have hlook : look (·.payloadWords h) a = .ok (a.store.wordsAt h.index) a :=
      look_of_ok (payloadWords_of_holds hh)
    simp only [fillFields, if_pos (Nat.not_le.mp hempty), bind_of_ok hlook]
    by_cases hfits : past ≤ a.store.wordsAt h.index
    · -- the check against the arena never fails for an object that it holds
      have hreach : h.index + 1 + past ≤ a.capacity := by
        have h1 := hh.after_le
        have h2 := hh.used_le
        unfold Store.after at h1
        omega
      rw [if_neg (Nat.not_lt.mpr hfits), if_pos hfits]
      exact bind_of_ok (reach_of_le hreach)
    · rw [if_pos (Nat.not_le.mp hfits), if_neg hfits]
      rfl

/-- Why a range of words is not copied, from an object of `sourceWords` payload words to one of
`targetWords`. The source is checked before the target, and of each the sum before the size. -/
def moveStop (sourceStart sourceWords targetStart targetWords n : Nat) : Option Stop :=
  if Size.largest < sourceStart + n then some .overflow
  else if sourceWords < sourceStart + n then some .badRange
  else if Size.largest < targetStart + n then some .overflow
  else if targetWords < targetStart + n then some .badRange
  else none

/-- A header states no more payload words than it can hold. -/
theorem wordsAt_le (store : Store) (i : Nat) : store.wordsAt i ≤ maxPayloadWords := by
  have hlt := Header.payloadWords_lt ⟨store.get i⟩
  unfold maxPayloadWords
  exact Nat.le_of_lt_succ hlt

/-- **Nothing stops a copy exactly if both objects have their range.** -/
theorem moveStop_eq_none (store : Store) (g h sourceStart targetStart n : Nat) :
    moveStop sourceStart (store.wordsAt g) targetStart (store.wordsAt h) n = none ↔
      sourceStart + n ≤ store.wordsAt g ∧ targetStart + n ≤ store.wordsAt h := by
  have hg := wordsAt_le store g
  have hh := wordsAt_le store h
  have hlarge := Size.largest_eq
  unfold maxPayloadWords at hg hh
  unfold moveStop
  repeat' split
  all_goals
    simp only [reduceCtorEq, false_iff, true_iff]
    omega

/-- A range is checked by its sum and then by the object's size, before anything else is done. -/
theorem range_check (hh : a.Holds h) (start n : Nat) (next : ArenaM Unit) :
    (do
      let past ← look fun _ => Size.add start n
      let words ← look (·.payloadWords h)
      if words < past then throw .badRange
      next : ArenaM Unit) a =
      if Size.largest < start + n then .error .overflow a
      else if a.store.wordsAt h.index < start + n then .error .badRange a
      else next a := by
  have hlook : look (·.payloadWords h) a = .ok (a.store.wordsAt h.index) a :=
    look_of_ok (payloadWords_of_holds hh)
  by_cases hsum : Size.largest < start + n
  · rw [if_pos hsum, bind_of_error (look_add_of_lt hsum a)]
  · rw [if_neg hsum, bind_of_ok (look_add_of_le (Nat.not_lt.mp hsum) a), bind_of_ok hlook]
    by_cases hsize : a.store.wordsAt h.index < start + n
    · rw [if_pos hsize, if_pos hsize]
      rfl
    · rw [if_neg hsize, if_neg hsize]

/-- **A range that both objects have is copied.** Nothing is looked at where there is nothing to
copy. -/
theorem copyFields_of_holds {source target : Handle} (hs : a.Holds source) (ht : a.Holds target)
    (sourceStart targetStart n : Nat) :
    copyFields source sourceStart target targetStart n a =
      if n = 0 then .ok () a
      else
        match moveStop sourceStart (a.store.wordsAt source.index) targetStart
            (a.store.wordsAt target.index) n with
        | none =>
          .ok () { a with
            store :=
              a.store.move (source.index + 1 + sourceStart) (target.index + 1 + targetStart) n }
        | some s => .error s a := by
  by_cases hn : n = 0
  · rw [if_pos hn, hn, copyFields_zero]
  · have hs1 := hs.after_le
    have ht1 := ht.after_le
    have hcap := hs.used_le
    unfold Store.after at hs1 ht1
    rw [if_neg hn, copyFields, if_pos (Nat.pos_of_ne_zero hn)]
    -- the target is looked at only after the source's range was found
    refine (range_check hs sourceStart n _).trans ?_
    rw [range_check ht targetStart n]
    unfold moveStop
    split
    · rfl
    split
    · rfl
    split
    · rfl
    split
    · rfl
    rw [bind_of_ok (reach_of_le (by omega)), bind_of_ok (reach_of_le (by omega))]
    rfl

/-! ## Bytes -/

theorem setByte_of_holds (hh : a.Holds h) (i : Nat) (b : UInt8) :
    setByte h i b a =
      if i / 4 < a.store.wordsAt h.index then
        .ok () { a with
          store := a.store.set (h.index + 1 + i / 4)
            (Word.setByte (a.store.get (h.index + 1 + i / 4)) (i % 4) b) }
      else .error (.payloadIndex (i / 4) h) a := by
  have hword := payloadWord_of_holds hh (i / 4)
  split at hword
  · next hi =>
    have hlook : look (·.payloadWord h (i / 4)) a = .ok (a.store.get (h.index + 1 + i / 4)) a :=
      look_of_ok hword
    rw [if_pos hi, setByte, bind_of_ok hlook, setPayloadWord_of_holds hh, if_pos hi]
  · next hi =>
    have hlook : look (·.payloadWord h (i / 4)) a = .error (.payloadIndex (i / 4) h) a :=
      look_of_error hword
    rw [if_neg hi, setByte, bind_of_error hlook]

/-- **Every word of the object is filled with the byte.** -/
theorem fillBytes_of_holds (hh : a.Holds h) (b : UInt8) :
    fillBytes h b a =
      .ok () { a with
        store := a.store.fill (h.index + 1) (Word.ofBytes fun _ => b)
          (a.store.wordsAt h.index) } := by
  have hle : h.index + 1 + a.store.wordsAt h.index ≤ a.capacity :=
    Nat.le_trans hh.after_le hh.used_le
  have hlook : look (·.payloadWords h) a = .ok (a.store.wordsAt h.index) a :=
    look_of_ok (payloadWords_of_holds hh)
  have hmin : min (h.index + 1 + a.store.wordsAt h.index) a.capacity - (h.index + 1) =
      a.store.wordsAt h.index := by omega
  rw [fillBytes, bind_of_ok hlook, bind_of_ok (get_apply a), bind_of_ok (alter_apply _ a), hmin]
  exact reach_of_le hle

/-! ## New objects -/

theorem storable_ofTag (t : Nat) : (ObjClass.ofTag t).Storable := by
  unfold ObjClass.ofTag
  split
  · trivial
  · split
    · trivial
    · split
      · trivial
      · next h1 h2 h3 => simp [ObjClass.Storable, ObjClass.isReservedTag, h1, h2, h3]

theorem storable_string : ObjClass.string.Storable := trivial

theorem storable_list : ObjClass.list.Storable := trivial

theorem storable_byteArray : ObjClass.byteArray.Storable := trivial

theorem storable_cls (header : Header) : header.cls.Storable :=
  storable_ofTag _

/-- The arena with a new object at the boundary, and this recorded. -/
def issued (a : Arena) (c : ObjClass) (payload : Nat) (fill : Word) : Arena :=
  { a.place (Header.ofParts c payload) payload fill with
    journal := a.journal.push (.allocated a.used c payload) }

/-- The arena after it had no room for an object. Only the journal has changed. -/
def refused (a : Arena) (payload : Nat) : Arena :=
  { a with journal := a.journal.push (.exhausted a.used (1 + payload) a.capacity) }

/-- The stop that an object without room forces. -/
def exhaustion (a : Arena) (payload : Nat) : Stop :=
  .exhausted a.onExhaustion (Size.reported a.used (1 + payload)) a.capacity

/-- What fits is small enough for the sum with the header. -/
theorem Fits.sized {payload : Nat} (hfits : a.Fits payload) : 1 + payload ≤ Size.largest := by
  have hpayload := hfits.2
  unfold maxPayloadWords at hpayload
  rw [Size.largest_eq]
  omega

/-- **An object is placed if it fits and a header can state its class.** -/
theorem allot_eq {c : ObjClass} (hc : c.Storable) (payload : Nat) (fill : Ref) (a : Arena) :
    allot c payload fill a =
      if a.Fits payload then .ok ⟨a.used⟩ (a.issued c payload fill.toWord)
      else .error (a.exhaustion payload) (a.refused payload) := by
  by_cases hfits : a.Fits payload
  · rw [if_pos hfits, allot_of_fits hfits hc]
    rfl
  · rw [if_neg hfits, allot_of_not_fits hfits]
    rfl

/-- A class that no header can state is refused once the object is known to fit. -/
theorem allot_of_reserved {t payload : Nat} (hr : ObjClass.isReservedTag t = true) (fill : Ref)
    (hfits : a.Fits payload) :
    allot (.other t) payload fill a = .error (.reservedTag t) a := by
  have hsize : ¬ maxPayloadWords < payload := Nat.not_lt.mpr hfits.2
  simp [allot, hfits, look, Header.pack, hr, hsize, bind, EStateM.bind, get_apply]

/-- The arena with a copy of an object at the boundary, and this counted and recorded. -/
def relocated (a : Arena) (h : Handle) (payload : Nat) (fill : Word) : Arena :=
  let b := a.issued (Header.mk (a.store.get h.index)).cls payload fill
  { b with
    store := b.store.move (h.index + 1) (a.used + 1) (min (a.store.wordsAt h.index) payload)
    counters := b.counters.countRelocation (1 + payload)
    journal := b.journal.push (.relocated h.index a.used (a.store.wordsAt h.index) payload) }

/-- **A copy is placed if it fits.** -/
theorem grow_eq (hh : a.Holds h) {payload : Nat} (hsize : 1 + payload ≤ Size.largest)
    (fill : Ref) :
    grow h payload fill a =
      if a.Fits payload then .ok ⟨a.used⟩ (a.relocated h payload fill.toWord)
      else .error (a.exhaustion payload) (a.refused payload) := by
  have hlook : look (·.header h) a = .ok ⟨a.store.get h.index⟩ a :=
    look_of_ok (header_of_holds hh)
  have halloc := allot_eq (storable_cls ⟨a.store.get h.index⟩) payload fill a
  rw [grow, bind_of_ok hlook, allocate_of_le _ fill hsize]
  by_cases hfits : a.Fits payload
  · rw [if_pos hfits] at halloc ⊢
    -- the copied words end before the boundary, so they lie in the arena
    have hreach : h.index + 1 + min (a.store.wordsAt h.index) payload ≤
        (a.issued (Header.mk (a.store.get h.index)).cls payload fill.toWord).capacity := by
      have h1 := hh.after_le
      have h2 := hh.used_le
      unfold Store.after at h1
      show _ ≤ a.capacity
      omega
    rw [bind_of_ok halloc]
    exact bind_of_ok (reach_of_le hreach)
  · rw [if_neg hfits] at halloc ⊢
    rw [bind_of_error halloc]

/-- A size that 64 bits do not hold together with the header is no size for a copy either. -/
theorem grow_of_lt (hh : a.Holds h) {payload : Nat} (hsize : Size.largest < 1 + payload)
    (fill : Ref) : grow h payload fill a = .error .overflow a := by
  have hlook : look (·.header h) a = .ok ⟨a.store.get h.index⟩ a :=
    look_of_ok (header_of_holds hh)
  rw [grow, bind_of_ok hlook, bind_of_error (allocate_of_lt _ fill hsize a)]

/-- An object that was copied was copied to a size that 64 bits hold. -/
theorem sized_of_grow (hh : a.Holds h) {payload : Nat} {fill : Ref} {g : Handle}
    (hrun : grow h payload fill a = .ok g b) : 1 + payload ≤ Size.largest := by
  rcases Nat.lt_or_ge Size.largest (1 + payload) with hlt | hle
  · rw [grow_of_lt hh hlt] at hrun
    cases hrun
  · exact hle

end Arena

end ObjectMemory
