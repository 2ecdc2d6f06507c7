import ObjectMemory.Proofs.Reading

/-!
# Storing into objects

What an action does to an object is said by the words that the object holds afterwards: `Stored`.
Each action that changes a payload is described by the row of words it leaves, as a function of
the rows that were there before.

The relation says all there is to say. Two arenas that are `Stored` from the same one in the same
way differ in nothing that can be read.
-/

namespace ObjectMemory.Arena

variable {a b d : Arena} {g h : Handle} {hs : List Handle} {ws : List Word}

/-! ## Stores into an object -/

/-- Nothing differs but the payload of the object `h`, which holds the words `ws`. -/
structure Stored (a : Arena) (h : Handle) (ws : List Word) (b : Arena) : Prop
    extends a.WroteIn h b where
  words : (b.view h).words = ws

theorem WroteIn.cls (hw : a.WroteIn h b) (hh : a.Holds h) : (b.view h).cls = (a.view h).cls := by
  rw [view_of_holds hh, view_of_holds (hw.holds hh)]
  show (Header.mk (b.store.get h.index)).cls = _
  rw [hw.header]
  rfl

theorem WroteIn.wordsAt (hw : a.WroteIn h b) :
    b.store.wordsAt h.index = a.store.wordsAt h.index := by
  rw [Store.wordsAt, hw.header]
  rfl

theorem Stored.view_eq (hs : a.Stored h ws b) (hh : a.Holds h) :
    b.view h = ⟨(a.view h).cls, ws⟩ := by
  have hcls := hs.cls hh
  have hwords := hs.words
  generalize b.view h = c at hcls hwords
  obtain ⟨cls, words⟩ := c
  cases hcls
  cases hwords
  rfl

theorem Stored.length_eq (hs : a.Stored h ws b) (hh : a.Holds h) :
    ws.length = (a.view h).words.length := by
  rw [← hs.words, length_view (hs.holds hh), length_view hh, hs.wordsAt]

theorem Stored.trans {vs : List Word} (h1 : a.Stored h vs b) (h2 : b.Stored h ws d) :
    a.Stored h ws d where
  toWroteIn := h1.toWroteIn.trans h2.toWroteIn
  words := h2.words

theorem Stored.refl (a : Arena) (h : Handle) : a.Stored h (a.view h).words a :=
  ⟨WroteIn.refl a h, rfl⟩

/-- An object that lies apart from the one that is stored into keeps its words. -/
theorem WroteIn.keeps_apart (hw : a.WroteIn h b)
    (hapart : a.store.after g.index ≤ h.index ∨ a.store.after h.index ≤ g.index) : a.Keeps g b :=
  fun j hlo hhi => hw.get j (by omega)

/-- **An object that lies apart shows what it showed** when another one is stored into. -/
theorem WroteIn.view_apart (hw : a.WroteIn h b) (hg : a.Holds g)
    (hapart : a.store.after g.index ≤ h.index ∨ a.store.after h.index ≤ g.index) :
    b.Holds g ∧ b.view g = a.view g := by
  have hkeeps := hw.keeps_apart hapart
  have hused : b.used ≤ b.capacity := by
    rw [hw.used, hw.capacity]
    exact hg.used_le
  have hholds := hkeeps.holds hg (Nat.le_of_eq hw.used.symm) hused
  exact ⟨hholds, hkeeps.view_eq hg hholds⟩

theorem Tiled.view_other (ht : a.Tiled hs) (hh : h ∈ hs) (hg : g ∈ hs) (hne : g ≠ h)
    (hw : a.WroteIn h b) : b.view g = a.view g :=
  (hw.view_apart (ht.holds hg) (ht.tiles.apart hg hh hne)).2

/-- The words of an object, each found in the store after a change. -/
theorem words_of_get (hh : b.Holds h) (hlen : ws.length = b.store.wordsAt h.index)
    (hget : ∀ k < ws.length, ws[k]? = some (b.store.get (h.index + 1 + k))) :
    (b.view h).words = ws := by
  apply List.ext_getElem?
  intro k
  rw [getElem?_view hh]
  split
  · next hk => exact (hget k (by omega)).symm
  · next hk => rw [List.getElem?_eq_none (by omega)]

theorem setPayloadWord_stored (hh : a.Holds h) {i : Nat} (hi : i < (a.view h).words.length)
    (w : Word) :
    ∃ b, setPayloadWord h i w a = .ok () b ∧ a.Stored h ((a.view h).words.set i w) b := by
  have hrun := setPayloadWord_of_holds hh i w
  rw [if_pos (length_view hh ▸ hi)] at hrun
  have hw := setPayloadWord_wrote hh (Or.inl ⟨(), hrun⟩)
  refine ⟨_, hrun, hw, words_of_get (hw.holds hh) ?_ fun k hk => ?_⟩
  · rw [List.length_set, length_view hh, hw.wordsAt]
  · rw [List.length_set] at hk
    rw [List.getElem?_set]
    show _ = some ((Store.set _ _ _).get _)
    by_cases heq : i = k
    · subst heq
      rw [if_pos rfl, if_pos hk, Store.get_set_same]
    · rw [if_neg heq, Store.get_set_other _ _ (by omega), getElem?_view hh,
        if_pos (length_view hh ▸ hk)]

/-- A field is stored like a word. -/
theorem setField_stored (hh : a.Holds h) {i : Nat} (hi : i < (a.view h).words.length) (r : Ref) :
    ∃ b, setField h i r a = .ok () b ∧ a.Stored h ((a.view h).words.set i r.toWord) b :=
  setPayloadWord_stored hh hi r.toWord

/-- **A filled range holds the value**, an empty one what it held. -/
theorem fillFields_stored (hh : a.Holds h) {first past : Nat}
    (hle : past ≤ first ∨ past ≤ (a.view h).words.length) (value : Ref) :
    ∃ b, fillFields h first past value a = .ok () b ∧
      a.Stored h
        (splice (a.view h).words first (List.replicate (past - first) value.toWord)) b := by
  have hrun := fillFields_of_holds hh first past value
  by_cases hempty : past ≤ first
  · rw [if_pos hempty] at hrun
    rw [Nat.sub_eq_zero_of_le hempty, List.replicate_zero, splice_nil]
    exact ⟨a, hrun, Stored.refl a h⟩
  · have hlen := length_view hh
    have hpast : past ≤ (a.view h).words.length := by omega
    have hpart : first + (List.replicate (past - first) value.toWord).length ≤
        (a.view h).words.length := by
      rw [List.length_replicate]
      omega
    rw [if_neg hempty, if_pos (hlen ▸ hpast)] at hrun
    have hw := fillFields_wrote hh (Or.inl ⟨(), hrun⟩)
    refine ⟨_, hrun, hw, words_of_get (hw.holds hh) ?_ fun k hk => ?_⟩
    · rw [length_splice hpart, hlen, hw.wordsAt]
    · rw [length_splice hpart] at hk
      rw [getElem?_splice hpart, List.length_replicate, List.getElem?_replicate]
      show _ = some ((Store.fill _ _ _ _).get _)
      rw [Store.get_fill]
      by_cases hin : first ≤ k ∧ k < first + (past - first)
      · rw [if_pos hin, if_pos (by omega), if_pos (by omega)]
      · rw [if_neg hin, if_neg (by omega), getElem?_view hh, if_pos (hlen ▸ hk)]

/-- **A copied range holds what its source held before**, also where the two overlap. -/
theorem copyFields_stored (hg : a.Holds g) (hh : a.Holds h) {sourceStart targetStart n : Nat}
    (hle : n = 0 ∨ sourceStart + n ≤ (a.view g).words.length ∧
      targetStart + n ≤ (a.view h).words.length) :
    ∃ b, copyFields g sourceStart h targetStart n a = .ok () b ∧
      a.Stored h (splice (a.view h).words targetStart
        (((a.view g).words.drop sourceStart).take n)) b := by
  have hrun := copyFields_of_holds hg hh sourceStart targetStart n
  -- nothing is checked where nothing is copied, so both ranges may lie anywhere then
  by_cases hzero : n = 0
  · rw [if_pos hzero] at hrun
    rw [hzero, List.take_zero, splice_nil, ← hzero]
    exact ⟨a, hrun, Stored.refl a h⟩
  · have hlenG := length_view hg
    have hlenH := length_view hh
    have hlenP : (((a.view g).words.drop sourceStart).take n).length = n := by
      rw [List.length_take, List.length_drop]
      omega
    have hpart : targetStart + (((a.view g).words.drop sourceStart).take n).length ≤
        (a.view h).words.length := by
      omega
    have hfree :=
      (moveStop_eq_none a.store g.index h.index sourceStart targetStart n).mpr (by omega)
    rw [if_neg hzero, hfree] at hrun
    have hw := copyFields_wrote hg hh (Or.inl ⟨(), hrun⟩)
    refine ⟨_, hrun, hw, words_of_get (hw.holds hh) ?_ fun k hk => ?_⟩
    · rw [length_splice hpart, hlenH, hw.wordsAt]
    · rw [length_splice hpart] at hk
      rw [getElem?_splice hpart, hlenP]
      show _ = some ((Store.move _ _ _ _).get _)
      rw [Store.get_move]
      by_cases hin : targetStart ≤ k ∧ k < targetStart + n
      · have hplace : h.index + 1 + k - (h.index + 1 + targetStart) = k - targetStart := by omega
        rw [if_pos hin, if_pos (by omega), List.getElem?_take_of_lt (by omega),
          List.getElem?_drop, getElem?_view hg, if_pos (by omega), hplace,
          Nat.add_assoc _ sourceStart]
      · rw [if_neg hin, if_neg (by omega), getElem?_view hh, if_pos (by omega)]

/-! ## Bytes -/

theorem setByte_stored (hh : a.Holds h) {i : Nat} (hi : i < (a.view h).bytes.length) (b : UInt8) :
    ∃ d, setByte h i b a = .ok () d ∧ a.Stored h (Word.putByte (a.view h).words i b) d := by
  rw [Content.length_bytes] at hi
  have hword : i / 4 < (a.view h).words.length := by omega
  have hlook : look (·.payloadWord h (i / 4)) a = .ok ((a.view h).words.getD (i / 4) 0) a :=
    look_of_ok (payloadWord_eq hh hword)
  rw [setByte, bind_of_ok hlook]
  exact setPayloadWord_stored hh hword _

/-- **Bytes are written one after the other**, as far as the object has room for them. Where one
has no room the run stops at its word. -/
theorem writeBytes_stored (hh : a.Holds h) (offset : Nat) (bs : List UInt8) :
    ∃ b, a.Stored h (Word.putBytes (a.view h).words offset
        (bs.take ((a.view h).bytes.length - offset))) b ∧
      writeBytes h offset bs a =
        if bs.length ≤ (a.view h).bytes.length - offset then .ok () b
        else .error (.payloadIndex (max offset (a.view h).bytes.length / 4) h) b := by
  induction bs generalizing a offset with
  | nil =>
    refine ⟨a, ?_, (if_pos (Nat.zero_le _)).symm⟩
    rw [List.take_nil]
    exact Stored.refl a h
  | cons byte rest ih =>
    by_cases hroom : offset < (a.view h).bytes.length
    · -- the first byte is stored, and the others go into the object that this leaves
      obtain ⟨d, hrun, hd⟩ := setByte_stored hh hroom byte
      obtain ⟨b, hb, hrest⟩ := ih (hd.holds hh) (offset + 1)
      have hlen : (d.view h).bytes.length = (a.view h).bytes.length := by
        rw [Content.length_bytes, Content.length_bytes, hd.words, Word.length_putByte]
      have htake : (byte :: rest).take ((a.view h).bytes.length - offset) =
          byte :: rest.take ((a.view h).bytes.length - (offset + 1)) := by
        rw [show (a.view h).bytes.length - offset = (a.view h).bytes.length - (offset + 1) + 1 by
          omega, List.take_succ_cons]
      rw [hlen, hd.words] at hb
      refine ⟨b, ?_, ?_⟩
      · rw [htake]
        exact hd.trans hb
      · rw [writeBytes, bind_of_ok hrun, hrest, hlen, List.length_cons,
          Nat.max_eq_right (Nat.le_of_lt hroom), Nat.max_eq_right hroom]
        congr 1
        exact propext ⟨fun _ => by omega, fun _ => by omega⟩
    · have hrun := setByte_of_holds hh offset byte
      have hbytes := Content.length_bytes (a.view h)
      have hwords := length_view hh
      have hstop : writeBytes h offset (byte :: rest) a =
          .error (.payloadIndex (offset / 4) h) a := by
        rw [if_neg (by omega)] at hrun
        exact bind_of_error hrun
      have hnone : (a.view h).bytes.length - offset = 0 := by omega
      refine ⟨a, ?_, ?_⟩
      · rw [hnone, List.take_zero]
        exact Stored.refl a h
      · rw [hstop, hnone, List.length_cons, if_neg (Nat.not_succ_le_zero _),
          Nat.max_eq_left (Nat.not_lt.mp hroom)]

/-- **Every word is filled with the byte.** -/
theorem fillBytes_stored (hh : a.Holds h) (b : UInt8) :
    ∃ d, fillBytes h b a = .ok () d ∧
      a.Stored h (List.replicate (a.view h).words.length (Word.ofBytes fun _ => b)) d := by
  have hrun := fillBytes_of_holds hh b
  have hlen := length_view hh
  have hw := fillBytes_wrote hh (Or.inl ⟨(), hrun⟩)
  refine ⟨_, hrun, hw, words_of_get (hw.holds hh) ?_ fun k hk => ?_⟩
  · rw [List.length_replicate, hlen, hw.wordsAt]
  · rw [List.length_replicate] at hk
    rw [List.getElem?_replicate, if_pos hk]
    show _ = some ((Store.fill _ _ _ _).get _)
    rw [Store.get_fill, if_pos (by omega)]

end ObjectMemory.Arena
