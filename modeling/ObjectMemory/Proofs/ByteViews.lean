import ObjectMemory.Proofs.Dumps
import ObjectMemory.Proofs.Filling
import ObjectMemory.Proofs.Moves
import ObjectMemory.Proofs.Padding

/-!
# Two views of a payload

The payload of an object is a row of words and a row of bytes at once, each word packed from four
of the bytes: `Arena.Packs`. Both rows are one store. A row of bytes that is written at some place,
in the middle of a word or not, replaces those bytes of the payload, a word at a time, and no other
words are touched (`Arena.Written`). What does not fit is written as far as there is room, and then
the run stops: `bytes_and_words_are_one_store`.

A range that is read stops the run in the same way, at the first word that is missing. One whose end
is no size at all is an exception: nothing is read of it, and the stop names no word
(`read_of_last_place`).
-/

namespace ObjectMemory

/-! ## Rows of words and of bytes -/

namespace Word

/-- Words are packed from their own bytes. -/
theorem packed_flatMap_bytes (ws : List Word) : packed ws.length (ws.flatMap bytes) = ws := by
  have hlen := length_flatMap_bytes ws
  refine eq_of_flatMap_bytes_eq (List.ext_getElem? fun k => ?_)
  rw [getElem?_flatMap_bytes_packed, List.getD_eq_getElem?_getD]
  by_cases hk : k < 4 * ws.length
  · rw [if_pos hk, List.getElem?_eq_getElem (hlen ▸ hk)]
    rfl
  · rw [if_neg hk, List.getElem?_eq_none (by omega)]

/-- A word that takes up none of the bytes stays. -/
theorem getElem?_putBytes {ws : List Word} {offset k : Nat} {bs : List UInt8}
    (hk : ∀ j < bs.length, (offset + j) / 4 ≠ k) : (putBytes ws offset bs)[k]? = ws[k]? := by
  induction bs generalizing ws offset with
  | nil => rfl
  | cons b rest ih =>
    have hfirst : offset / 4 ≠ k := hk 0 (Nat.succ_pos _)
    have hrest : ∀ j < rest.length, (offset + 1 + j) / 4 ≠ k := by
      intro j hj
      rw [Nat.add_assoc, Nat.add_comm 1]
      exact hk (j + 1) (Nat.succ_lt_succ hj)
    rw [putBytes, ih hrest, putByte, List.getElem?_set_ne hfirst]

end Word

/-! ## Payloads -/

namespace Arena

variable {a b : Arena} {h : Handle} {hs : List Handle} {ws : List Word}

/-- The object has `w` payload words, and these are packed from the bytes, four to a word and the
first of them the least significant one. -/
structure Packs (a : Arena) (h : Handle) (w : Nat) (bytes : List UInt8) : Prop where
  size : a.payloadWords h = .ok w
  length : bytes.length = 4 * w
  reads : a.readBytes h 0 (4 * w) = .ok bytes
  words : ∀ i < w, a.payloadWord h i = .ok (Word.ofBytes fun j => bytes.getD (4 * i + j) 0)

theorem packs_view (hh : a.Holds h) : a.Packs h (a.view h).words.length (a.view h).bytes where
  size := payloadWords_eq hh
  length := (a.view h).length_bytes
  reads := by
    rw [← (a.view h).length_bytes]
    exact readBytes_whole hh
  words i hi := by
    have hpacked := congrArg (·[i]?) (Word.packed_flatMap_bytes (a.view h).words)
    rw [Word.packed, List.getElem?_map, List.getElem?_range hi] at hpacked
    exact (payloadWord_eq_ok_iff hh).mpr hpacked.symm

/-! ## Reading -/

theorem byteAt_of_le (hh : a.Holds h) {i : Nat} (hi : (a.view h).bytes.length ≤ i) :
    a.byteAt h i = .error (.payloadIndex (i / 4) h) := by
  rw [Content.length_bytes] at hi
  rw [byteAt, payloadWord_view hh, List.getElem?_eq_none (by omega)]
  rfl

/-- **Bytes are read if the payload has them**, and the first one that it does not have stops the
run. -/
theorem readBytes_of_holds (hh : a.Holds h) {offset n : Nat} (hspans : Size.Spans offset n) :
    a.readBytes h offset n =
      if n = 0 ∨ offset + n ≤ (a.view h).bytes.length then
        .ok (((a.view h).bytes.drop offset).take n)
      else .error (.payloadIndex (max offset (a.view h).bytes.length / 4) h) := by
  rw [readBytes, if_pos hspans]
  split
  · next hin =>
    rcases hin with rfl | hle
    · rw [List.take_zero]
      rfl
    · have hread := readBytes_eq hh hle
      rwa [readBytes, if_pos hspans] at hread
  · next hout =>
    -- so many bytes are read before the first one that is missing
    have hk : (a.view h).bytes.length - offset < n := by omega
    have hplace : offset + ((a.view h).bytes.length - offset) =
        max offset (a.view h).bytes.length := by omega
    refine readRange_of_error hk (fun i hi => ⟨_, byteAt_eq hh (by omega)⟩) ?_
    rw [hplace]
    exact byteAt_of_le hh (Nat.le_max_right _ _)

/-! ## Writing -/

/-- The arena `b` is `a` with the bytes written from `offset` on. The object has `w` words and had
the bytes `old`. -/
structure Written (a : Arena) (hs : List Handle) (h : Handle) (w : Nat) (old : List UInt8)
    (offset : Nat) (bs : List UInt8) (b : Arena) : Prop
    extends a.ChangedOnly hs h (fun k => ∃ j < bs.length, (offset + j) / 4 = k) b where
  packs : b.Packs h w (splice old offset bs)

/-- Bytes that are put into a row, if there is room for them, replace those that it had. -/
theorem Stored.written (ht : a.Tiled hs) (hh : h ∈ hs) {offset : Nat} {bs : List UInt8}
    (hst : a.Stored h (Word.putBytes (a.view h).words offset bs) b)
    (hin : bs = [] ∨ offset + bs.length ≤ (a.view h).bytes.length) :
    a.Written hs h (a.view h).words.length (a.view h).bytes offset bs b := by
  have hold := ht.holds hh
  have hchanged : a.ChangedOnly hs h (fun k => ∃ j < bs.length, (offset + j) / 4 = k) b :=
    hst.changedOnly ht hh fun k hk => Word.getElem?_putBytes fun j hj heq => hk ⟨j, hj, heq⟩
  refine { hchanged with packs := ?_ }
  have hnew := packs_view (hst.holds hold)
  have hlen : (b.view h).words.length = (a.view h).words.length := by
    rw [hst.words]
    exact hst.length_eq hold
  have hbytes : (b.view h).bytes = splice (a.view h).bytes offset bs := by
    rw [Content.bytes, hst.words]
    rcases hin with rfl | hle
    · rw [Word.putBytes, splice_nil]
      rfl
    · exact Word.flatMap_bytes_putBytes ((a.view h).length_bytes ▸ hle)
  rwa [hlen, hbytes] at hnew

/-- **Bytes are written as far as the payload has them**, and the first one that it does not have
stops the run. -/
theorem writeBytes_written (ht : a.Tiled hs) (hh : h ∈ hs) (offset : Nat) (bs : List UInt8) :
    if bs = [] ∨ offset + bs.length ≤ (a.view h).bytes.length then
      ∃ b, writeBytes h offset bs a = .ok () b ∧
        a.Written hs h (a.view h).words.length (a.view h).bytes offset bs b
    else
      ∃ b, writeBytes h offset bs a =
          .error (.payloadIndex (max offset (a.view h).bytes.length / 4) h) b ∧
        a.Written hs h (a.view h).words.length (a.view h).bytes offset
          (bs.take ((a.view h).bytes.length - offset)) b := by
  obtain ⟨b, hst, hrun⟩ := writeBytes_stored (ht.holds hh) offset bs
  generalize hsize : (a.view h).bytes.length = size at hst hrun ⊢
  split
  · next hin =>
    have hroom : bs.length ≤ size - offset := by
      rcases hin with rfl | hle
      · exact Nat.zero_le _
      · omega
    rw [if_pos hroom] at hrun
    rw [List.take_of_length_le hroom] at hst
    exact ⟨b, hrun, hst.written ht hh (hsize ▸ hin)⟩
  · next hout =>
    obtain ⟨hsome, hover⟩ := not_or.mp hout
    have hpos := List.length_pos_iff.mpr hsome
    rw [if_neg (by omega)] at hrun
    refine ⟨b, hrun, hst.written ht hh ?_⟩
    rw [hsize, List.take_eq_nil_iff, List.length_take]
    omega

/-- **A fill is a write of the byte at all places.** -/
theorem fillBytes_written (hh : a.Holds h) (byte : UInt8) :
    ∃ b d, fillBytes h byte a = .ok () b ∧
      writeBytes h 0 (List.replicate (a.view h).bytes.length byte) a = .ok () d ∧ b.SameAs d := by
  obtain ⟨b, hfill, hb⟩ := fillBytes_stored hh byte
  obtain ⟨d, hd, hwrite⟩ := writeBytes_stored hh 0 (List.replicate (a.view h).bytes.length byte)
  rw [List.length_replicate, Nat.sub_zero, if_pos (Nat.le_refl _)] at hwrite
  rw [Nat.sub_zero, List.take_of_length_le (Nat.le_of_eq List.length_replicate),
    Content.length_bytes, putBytes_filled] at hd
  exact ⟨b, d, hfill, hwrite, hb.sameAs hd hh⟩

end Arena

open Arena

/-- **The bytes and the words of an object are one store.** Where the used words are tiled by the
objects that were issued, as they are after every run (`Reached.accounted`, `Course.accounted`),
each of these objects has some bytes, and its words are packed from them.

Bytes that are written, from any place on, replace those that the object had there, and no word
changes but those that take them up. Where there are bytes to write and not enough room, the run
stops at the first word that the object does not have, with the bytes before it written. In the
same way a part of the bytes is read, or the run stops at the first word that is missing, as long as
the part is one that can be asked for at all. To fill an object with a byte is to write the byte at
all places. -/
theorem bytes_and_words_are_one_store {a : Arena} {hs : List Handle} (ht : a.Tiled hs) {h : Handle}
    (hh : h ∈ hs) :
    ∃ w old, a.Packs h w old ∧
      (∀ offset bs,
        if bs = [] ∨ offset + bs.length ≤ 4 * w then
          ∃ b, writeBytes h offset bs a = .ok () b ∧ a.Written hs h w old offset bs b
        else
          ∃ b, writeBytes h offset bs a = .error (.payloadIndex (max offset (4 * w) / 4) h) b ∧
            a.Written hs h w old offset (bs.take (4 * w - offset)) b) ∧
      (∀ offset n, a.readBytes h offset n =
        if Size.Spans offset n then
          if n = 0 ∨ offset + n ≤ 4 * w then .ok ((old.drop offset).take n)
          else .error (.payloadIndex (max offset (4 * w) / 4) h)
        else .error .overflow) ∧
      ∀ byte, ∃ b d, fillBytes h byte a = .ok () b ∧
        writeBytes h 0 (List.replicate (4 * w) byte) a = .ok () d ∧ b.SameAs d := by
  have hold := ht.holds hh
  have hbytes := (a.view h).length_bytes
  refine ⟨_, _, packs_view hold, fun offset bs => ?_, fun offset n => ?_, fun byte => ?_⟩
  · rw [← hbytes]
    exact writeBytes_written ht hh offset bs
  · split
    · next hspans => rw [readBytes_of_holds hold hspans, hbytes]
    · next hout => rw [readBytes, if_neg hout]
  · rw [← hbytes]
    exact fillBytes_written hold byte

/-- Six bytes are written across three words of a record. Nine do not fit from its second word on,
and the run stops at its end. So it does where four bytes are read from its last two on. -/
theorem bytes_across_words :
    ∃ a, Reached a [⟨⟨0⟩, .other 9, 3⟩, ⟨⟨4⟩, .string, 1⟩] ∧
      (∃ old b, a.readBytes ⟨0⟩ 0 12 = .ok old ∧
        writeBytes ⟨0⟩ 3 [1, 2, 3, 4, 5, 6] a = .ok () b ∧
        a.Written [⟨0⟩, ⟨4⟩] ⟨0⟩ 3 old 3 [1, 2, 3, 4, 5, 6] b) ∧
      (∃ b, writeBytes ⟨0⟩ 4 [1, 2, 3, 4, 5, 6, 7, 8, 9] a = .error (.payloadIndex 3 ⟨0⟩) b) ∧
      a.readBytes ⟨0⟩ 10 4 = .error (.payloadIndex 3 ⟨0⟩) := by
  have h0 := Reached.start 64 .panic
  have h1 := Reached.make (.object (.other 9) 3 (.int 1000)) h0 rfl
  have h2 := Reached.make (.string [97, 98, 99]) h1 rfl
  have hmem : (⟨0⟩ : Handle) ∈ [(⟨0⟩ : Handle), ⟨4⟩] := List.mem_cons_self
  obtain ⟨w, old, hpacks, hwrites, hreads, _⟩ :=
    bytes_and_words_are_one_store h2.accounted.tiled hmem
  have hsize := hpacks.size
  cases hsize
  refine ⟨_, h2, ?_, ?_, ?_⟩
  · obtain ⟨b, hrun, hwritten⟩ := hwrites 3 [1, 2, 3, 4, 5, 6]
    exact ⟨old, b, hpacks.reads, hrun, hwritten⟩
  · obtain ⟨b, hrun, _⟩ := hwrites 4 [1, 2, 3, 4, 5, 6, 7, 8, 9]
    exact ⟨b, hrun⟩
  · exact hreads 10 4

/-- One byte is read from the last place that 64 bits count. The record has no such word, but the
stop names none. -/
theorem read_of_last_place :
    ∃ a, Reached a [⟨⟨0⟩, .other 9, 2⟩] ∧
      a.readBytes ⟨0⟩ 18446744073709551615 1 ≠ .error (.payloadIndex 4611686018427387903 ⟨0⟩) ∧
      a.readBytes ⟨0⟩ 18446744073709551615 1 = .error .overflow := by
  have h1 := Reached.make (.object (.other 9) 2 (.int 1000)) (Reached.start 16 .panic) rfl
  have hread (a : Arena) : a.readBytes ⟨0⟩ 18446744073709551615 1 = .error .overflow :=
    if_neg (by decide)
  refine ⟨_, h1, ?_, hread _⟩
  rw [hread]
  rintro ⟨⟩

end ObjectMemory
