import ObjectMemory.Proofs.Texts

/-!
# The zero bytes of a string

How long a string is stands nowhere. It is found by a look at the last word alone, and that says
something about the string only if the words before are full and every byte after the first zero
one is zero as well. `Arena.Padded` says so of an object, together with what all readings then
give.

New strings are padded, and so is a string that is made blank and has its bytes written one chunk
after another, in whatever order, once none of them is missing.
-/

namespace ObjectMemory

/-! ## Contents -/

namespace Content

/-- **The bytes of a new string are followed by nothing but zero bytes.** -/
theorem bytes_ofText (bytes : List UInt8) :
    (ofText bytes).bytes = bytes.takeWhile (· ≠ 0) ++
      List.replicate (4 * (ofText bytes).words.length - (bytes.takeWhile (· ≠ 0)).length) 0 := by
  rw [length_words_ofText, Content.bytes, ofText, wordsForBytes_succ]
  generalize bytes.takeWhile (· ≠ 0) = text
  apply List.ext_getElem?
  intro k
  rw [Word.getElem?_flatMap_bytes_packed, List.getD_eq_getElem?_getD]
  by_cases hk : k < text.length
  · rw [if_pos (by omega), List.getElem?_append_left hk, List.getElem?_eq_getElem hk]
    rfl
  · rw [List.getElem?_append_right (by omega), List.getElem?_replicate,
      List.getElem?_eq_none (by omega)]
    by_cases hlt : k < 4 * (text.length / 4 + 1)
    · rw [if_pos hlt, if_pos (by omega)]
      rfl
    · rw [if_neg hlt, if_neg (by omega)]

/-- A row of words is a new string's if its bytes are, and are followed by zero bytes. -/
theorem eq_ofText {words : List Word} {text : List UInt8} (hclean : 0 ∉ text)
    (hlen : words.length = text.length / 4 + 1)
    (hbytes : words.flatMap Word.bytes =
      text ++ List.replicate (4 * words.length - text.length) 0) :
    Content.mk .string words = ofText text := by
  have hwhole := takeWhile_ne hclean
  have hsame : (ofText text).words = words := by
    refine Word.eq_of_flatMap_bytes_eq ((bytes_ofText text).trans ?_)
    rw [length_words_ofText, hwhole, hbytes, hlen]
  rw [← hsame]
  rfl

end Content

/-! ## Padded strings -/

namespace Arena

/-- The position of the first zero byte of the payload, if it has one. All words are searched. -/
def firstZero (a : Arena) (h : Handle) : Except Stop (Option Nat) := do
  let n ← a.payloadWords h
  let bytes ← a.readBytes h 0 (4 * n)
  return bytes.findIdx? (· = 0)

/-- The object is a string of the bytes, and all bytes after them are zero. -/
structure Padded (a : Arena) (h : Handle) (bytes : List UInt8) : Prop where
  cls : a.classOf h = .ok .string
  clean : 0 ∉ bytes
  words : a.payloadWords h = .ok (bytes.length / 4 + 1)
  zeros : ∀ i, bytes.length ≤ i → i < 4 * (bytes.length / 4 + 1) → a.byteAt h i = .ok 0
  firstZero : a.firstZero h = .ok (some bytes.length)
  /-- The length that the last word gives is the one that all words give. -/
  length : a.stringLength h = .ok bytes.length
  reads : a.stringBytes h = .ok bytes
  matches_iff : ∀ other, a.stringMatches (.obj h) other = .ok (decide (bytes = other))

variable {a : Arena} {h : Handle} {bytes : List UInt8}

/-- The first zero byte of a row that is filled up with them. -/
theorem findIdx?_zero (hclean : 0 ∉ bytes) {n : Nat} (hn : 0 < n) :
    (bytes ++ List.replicate n 0).findIdx? (· = 0) = some bytes.length := by
  rw [List.findIdx?_eq_some_iff_getElem]
  refine ⟨?_, ?_, fun i hi => ?_⟩
  · rw [List.length_append, List.length_replicate]
    omega
  · rw [List.getElem_append_right (Nat.le_refl _), List.getElem_replicate]
    rfl
  · rw [List.getElem_append_left hi]
    have hne : bytes[i] ≠ 0 := by
      intro hzero
      exact hclean (hzero ▸ List.getElem_mem hi)
    simpa using hne

/-- All bytes of an object are read at once. -/
theorem readBytes_whole (hh : a.Holds h) :
    a.readBytes h 0 (a.view h).bytes.length = .ok (a.view h).bytes := by
  rw [readBytes_eq hh (Nat.le_of_eq (Nat.zero_add _)), List.drop_zero, List.take_length]

/-- **An object that shows a new string is padded.** -/
theorem padded_of_view (hh : a.Holds h) (hview : a.view h = .ofText bytes) :
    a.Padded h (bytes.takeWhile (· ≠ 0)) := by
  have hlen := Content.length_words_ofText bytes
  have hall := Content.bytes_ofText bytes
  have hclean := not_mem_takeWhile_ne bytes 0
  have htext := Content.text_ofText bytes
  have htextLength := Content.textLength_ofText bytes
  generalize bytes.takeWhile (· ≠ 0) = text at hlen hall hclean htext htextLength ⊢
  rw [hlen] at hall
  have hwords : a.payloadWords h = .ok (text.length / 4 + 1) := by
    rw [payloadWords_eq hh, hview, hlen]
  have hcls : a.classOf h = .ok .string := by
    rw [classOf_eq hh, hview]
    rfl
  refine ⟨hcls, hclean, hwords, fun i hlo hhi => ?_, ?_, ?_, ?_, fun other => ?_⟩
  · have hi : i < (a.view h).bytes.length := by
      rw [Content.length_bytes, hview, hlen]
      exact hhi
    rw [byteAt_eq hh hi, hview, hall, List.getD_eq_getElem?_getD,
      List.getElem?_append_right hlo, List.getElem?_replicate, if_pos (by omega)]
    rfl
  · have hbytes : (a.view h).bytes.length = 4 * (text.length / 4 + 1) := by
      rw [Content.length_bytes, hview, hlen]
    rw [Arena.firstZero, hwords]
    show (do return (← a.readBytes h 0 (4 * (text.length / 4 + 1))).findIdx? (· = 0)) = _
    rw [← hbytes, readBytes_whole hh, hview, hall]
    exact congrArg Except.ok (findIdx?_zero hclean (by omega))
  · rw [stringLength_eq hh, hview, htextLength]
  · rw [stringBytes_eq hh, hview, htext]
  · have hknows : a.Knows (.obj h) := by
      rintro g heq
      cases heq
      exact hh
    rw [stringMatches_eq hknows, text?_of_classOf hh hcls, hview, htext]
    simp

/-- **A new string holds the bytes before the first zero byte and is padded.** -/
theorem newString_padded (bytes : List UInt8)
    (hfits : a.Fits ((bytes.takeWhile (· ≠ 0)).length / 4 + 1)) :
    ∃ b, newString bytes a = .ok ⟨a.used⟩ b ∧
      b.Padded ⟨a.used⟩ (bytes.takeWhile (· ≠ 0)) := by
  rw [← Content.length_words_ofText] at hfits
  obtain ⟨b, hrun, hmade⟩ := (newString_makes bytes a).of_fits hfits
  exact ⟨b, hrun, padded_of_view hmade.holds_new hmade.view_new⟩

/-- **A text without a zero character is read back from its string.** -/
theorem newString_text {text : String} (hclean : '\x00' ∉ text.toList)
    (hfits : a.Fits ((Utf8.encode text).length / 4 + 1)) :
    ∃ b, newString (Utf8.encode text) a = .ok ⟨a.used⟩ b ∧ b.stringText ⟨a.used⟩ = .ok text := by
  have hwhole : (Utf8.encode text).takeWhile (· ≠ 0) = Utf8.encode text :=
    takeWhile_encodeAll_of_clean hclean
  have hroom := hfits
  rw [← hwhole] at hroom
  obtain ⟨b, hrun, hpadded⟩ := newString_padded _ hroom
  refine ⟨b, hrun, ?_⟩
  rw [stringText, hpadded.reads, hwhole]
  exact congrArg Except.ok (Utf8.lossy_encode text)

end Arena

/-! ## Writing in chunks -/

/-- Bytes that are written from some place on. -/
structure Chunk where
  offset : Nat
  bytes : List UInt8

namespace Chunk

variable {chunks : List Chunk} {row : List UInt8} {n i : Nat}

/-- Nothing is written beyond the first `n` bytes. -/
def Within (n : Nat) (chunk : Chunk) : Prop :=
  chunk.bytes = [] ∨ chunk.offset + chunk.bytes.length ≤ n

/-- The byte with this number is written. -/
def Covers (chunk : Chunk) (i : Nat) : Prop :=
  chunk.offset ≤ i ∧ i < chunk.offset + chunk.bytes.length

/-- A row of bytes after the chunk was written into it. -/
def into (row : List UInt8) (chunk : Chunk) : List UInt8 :=
  splice row chunk.offset chunk.bytes

/-- What is in `n` zero bytes after the chunks were written, each over those before it. -/
def written (n : Nat) (chunks : List Chunk) : List UInt8 :=
  chunks.foldl into (List.replicate n 0)

theorem length_into {chunk : Chunk} (hin : chunk.Within row.length) :
    (into row chunk).length = row.length := by
  rcases hin with hnone | hle
  · rw [into, hnone, splice_nil]
  · exact length_splice hle

theorem length_foldl_into (hin : ∀ w ∈ chunks, w.Within row.length) :
    (chunks.foldl into row).length = row.length := by
  induction chunks generalizing row with
  | nil => rfl
  | cons chunk rest ih =>
    have hlen := length_into (hin chunk List.mem_cons_self)
    rw [List.foldl_cons, ih, hlen]
    intro w hw
    rw [hlen]
    exact hin w (List.mem_cons_of_mem _ hw)

theorem length_written (hin : ∀ w ∈ chunks, w.Within n) : (written n chunks).length = n := by
  have hlen : (List.replicate n (0 : UInt8)).length = n := List.length_replicate
  rw [written, length_foldl_into, hlen]
  rwa [hlen]

/-- A zero byte that is left was there before, and no chunk wrote it. -/
theorem zero_of_foldl_into (hin : ∀ w ∈ chunks, w.Within row.length)
    (hclean : ∀ w ∈ chunks, 0 ∉ w.bytes) (hzero : (chunks.foldl into row)[i]? = some 0) :
    row[i]? = some 0 ∧ ∀ w ∈ chunks, ¬ w.Covers i := by
  induction chunks generalizing row with
  | nil => exact ⟨hzero, fun w hw => nomatch hw⟩
  | cons chunk rest ih =>
    have hfirst := hin chunk List.mem_cons_self
    have hlen := length_into hfirst
    obtain ⟨hbefore, hrest⟩ := ih
      (fun w hw => by rw [hlen]; exact hin w (List.mem_cons_of_mem _ hw))
      (fun w hw => hclean w (List.mem_cons_of_mem _ hw)) hzero
    have hkept : row[i]? = some 0 ∧ ¬ chunk.Covers i := by
      rcases hfirst with hnone | hle
      · rw [into, hnone, splice_nil] at hbefore
        refine ⟨hbefore, ?_⟩
        rintro ⟨hlo, hhi⟩
        rw [hnone] at hhi
        exact absurd hlo (Nat.not_le.mpr hhi)
      · rw [into, getElem?_splice hle] at hbefore
        split at hbefore
        · exact absurd (List.mem_of_getElem? hbefore) (hclean chunk List.mem_cons_self)
        · next hout => exact ⟨hbefore, hout⟩
    refine ⟨hkept.1, ?_⟩
    intro w hw
    rcases List.mem_cons.mp hw with rfl | hw
    · exact hkept.2
    · exact hrest w hw

/-- **Nothing but zero bytes are missing**: where each byte is covered and no zero byte is written,
none is left. -/
theorem not_mem_written (hin : ∀ w ∈ chunks, w.Within n) (hclean : ∀ w ∈ chunks, 0 ∉ w.bytes)
    (hall : ∀ i < n, ∃ w ∈ chunks, w.Covers i) : 0 ∉ written n chunks := by
  intro hmem
  obtain ⟨i, hi⟩ := List.mem_iff_getElem?.mp hmem
  have hlen : (List.replicate n (0 : UInt8)).length = n := List.length_replicate
  obtain ⟨hzero, hnone⟩ := zero_of_foldl_into (by rwa [hlen]) hclean hi
  have hlt : i < n := by
    rw [List.getElem?_replicate] at hzero
    split at hzero
    · assumption
    · cases hzero
  obtain ⟨w, hw, hcovers⟩ := hall i hlt
  exact hnone w hw hcovers

end Chunk

namespace Arena

variable {a : Arena} {h : Handle} {chunks : List Chunk} {row pad : List UInt8}

/-- The chunks are written one after another. -/
def writeAll (h : Handle) : List Chunk → ArenaM Unit
  | [] => pure ()
  | chunk :: rest => do
    writeBytes h chunk.offset chunk.bytes
    writeAll h rest

/-- A new string that is made blank and then written in chunks. -/
def newWritten (n : Nat) (chunks : List Chunk) : ArenaM Handle := do
  let h ← allocString n
  writeAll h chunks
  return h

/-- A chunk is written into the bytes that it is meant for. -/
theorem writeChunk_stored (hh : a.Holds h) (hrow : (a.view h).bytes = row ++ pad) {chunk : Chunk}
    (hin : chunk.Within row.length) :
    ∃ b ws, writeBytes h chunk.offset chunk.bytes a = .ok () b ∧ a.Stored h ws b ∧
      ws.flatMap Word.bytes = chunk.into row ++ pad := by
  obtain ⟨b, hst, hrun⟩ := writeBytes_stored hh chunk.offset chunk.bytes
  have hlen : (a.view h).bytes.length = row.length + pad.length := by
    rw [hrow, List.length_append]
  have hroom : chunk.bytes.length ≤ (a.view h).bytes.length - chunk.offset := by
    rcases hin with hnone | hle
    · rw [hnone]
      exact Nat.zero_le _
    · omega
  rw [if_pos hroom] at hrun
  rw [List.take_of_length_le hroom] at hst
  refine ⟨b, _, hrun, hst, ?_⟩
  rcases hin with hnone | hle
  · rw [Chunk.into, hnone, Word.putBytes, splice_nil]
    exact hrow
  · have hwords : chunk.offset + chunk.bytes.length ≤ 4 * (a.view h).words.length := by
      rw [← Content.length_bytes]
      omega
    rw [Word.flatMap_bytes_putBytes hwords]
    show splice (a.view h).bytes _ _ = _
    rw [hrow, splice_append_left hle, Chunk.into]

theorem writeAll_stored (hh : a.Holds h) (hrow : (a.view h).bytes = row ++ pad)
    (hin : ∀ w ∈ chunks, w.Within row.length) :
    ∃ b ws, writeAll h chunks a = .ok () b ∧ a.Stored h ws b ∧
      ws.flatMap Word.bytes = chunks.foldl Chunk.into row ++ pad := by
  induction chunks generalizing a row with
  | nil => exact ⟨a, _, rfl, Stored.refl a h, hrow⟩
  | cons chunk rest ih =>
    have hfirst := hin chunk List.mem_cons_self
    obtain ⟨d, ws, hrun, hd, hws⟩ := writeChunk_stored hh hrow hfirst
    have hbytes : (d.view h).bytes = chunk.into row ++ pad := by
      rw [Content.bytes, hd.words, hws]
    have hrest : ∀ w ∈ rest, w.Within (chunk.into row).length := by
      intro w hw
      rw [Chunk.length_into hfirst]
      exact hin w (List.mem_cons_of_mem _ hw)
    obtain ⟨b, vs, hmore, hb, hvs⟩ := ih (hd.holds hh) hbytes hrest
    refine ⟨b, vs, ?_, hd.trans hb, hvs⟩
    rw [writeAll, bind_of_ok hrun]
    exact hmore

/-- **A blank string that is written in chunks is a new string of the bytes**, once no byte of it
is zero any more. -/
theorem newWritten_makes {n : Nat} (hsize : n + 1 ≤ Size.largest) (hin : ∀ w ∈ chunks, w.Within n)
    (hclean : 0 ∉ Chunk.written n chunks) (a : Arena) :
    Makes (newWritten n chunks) .fresh (.ofText (Chunk.written n chunks)) a := by
  have hwritten := Chunk.length_written hin
  have hwords := Content.length_words_ofText (Chunk.written n chunks)
  rw [takeWhile_ne hclean, hwritten] at hwords
  have hblank : (List.replicate (wordsForBytes (n + 1)) (0 : Word)).length = n / 4 + 1 := by
    rw [List.length_replicate, Content.wordsForBytes_succ]
  refine (allocString_makes hsize a).bind (hwords.trans hblank.symm) fun b hmade => ?_
  have hrow : (b.view ⟨a.used⟩).bytes =
      List.replicate n 0 ++ List.replicate (4 * (n / 4 + 1) - n) 0 := by
    rw [Content.bytes, hmade.words]
    show (List.replicate _ _).flatMap _ = _
    rw [Word.flatMap_bytes_blank, Content.wordsForBytes_succ, List.replicate_append_replicate]
    congr 1
    omega
  have hin' : ∀ w ∈ chunks, w.Within (List.replicate n (0 : UInt8)).length := by
    rwa [List.length_replicate]
  obtain ⟨d, ws, hrun, hst, hws⟩ := writeAll_stored hmade.holds_new hrow hin'
  have hlen : ws.length = n / 4 + 1 := by
    rw [hst.length_eq hmade.holds_new, hmade.words, hblank]
  have hsame : Content.mk .string ws = .ofText (Chunk.written n chunks) := by
    refine Content.eq_ofText hclean ?_ ?_
    · rw [hwritten, hlen]
    · rw [hwritten, hlen]
      exact hws
  refine ⟨d, bind_of_ok hrun, ?_⟩
  show b.Stored _ (Content.ofText _).words d
  rwa [← hsame]

/-- **A blank string is padded once it was written in chunks**, whatever their order and size. -/
theorem newWritten_padded {n : Nat} (hin : ∀ w ∈ chunks, w.Within n)
    (hclean : 0 ∉ Chunk.written n chunks) (hfits : a.Fits (n / 4 + 1)) :
    ∃ b, newWritten n chunks a = .ok ⟨a.used⟩ b ∧
      b.Padded ⟨a.used⟩ (Chunk.written n chunks) := by
  have hwords := Content.length_words_ofText (Chunk.written n chunks)
  rw [takeWhile_ne hclean, Chunk.length_written hin] at hwords
  have hsize : n + 1 ≤ Size.largest := by
    have hpayload := hfits.2
    unfold maxPayloadWords at hpayload
    rw [Size.largest_eq]
    omega
  rw [← hwords] at hfits
  obtain ⟨b, hrun, hmade⟩ := (newWritten_makes hsize hin hclean a).of_fits hfits
  have hpadded := padded_of_view hmade.holds_new hmade.view_new
  rw [takeWhile_ne hclean] at hpadded
  exact ⟨b, hrun, hpadded⟩

end Arena

end ObjectMemory
