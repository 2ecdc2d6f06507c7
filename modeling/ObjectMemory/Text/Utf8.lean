/-!
# UTF-8

Texts become bytes by UTF-8. Bytes become text again in two ways: `decode?` refuses bytes that
are not UTF-8, and `lossy` puts U+FFFD in place of each part that is not.

## Gaps

Where no character stands at the front of the bytes there is a gap. It is as long as the longest
start of a character that the bytes show, and one byte where they show none. The second byte of
a character has narrower ranges after some lead bytes: after E0 and F0 it excludes the overlong
forms, after ED the surrogates, after F4 what lies beyond U+10FFFF.

`scan` takes the bytes apart into characters and gaps. It ends because each takes at least one
byte.

`decode?_eq_some_iff` says that the bytes which are accepted are those of the text that comes
out.
-/

namespace ObjectMemory.Utf8

/-- The bytes of a text. -/
def encode (text : String) : List UInt8 :=
  text.toList.flatMap String.utf8EncodeChar

/-- The character at the front of the bytes. None is longer than four bytes. -/
def front? (bytes : List UInt8) : Option Char :=
  (bytes.take 4).toByteArray.utf8DecodeChar? 0

/-- A byte that continues a character. -/
def isTail (b : UInt8) : Bool :=
  128 ≤ b.toNat && b.toNat ≤ 191

/-- May `b` stand second after the lead byte `lead` of a character of three or four bytes? -/
def isSecond (lead b : UInt8) : Bool :=
  let n := b.toNat
  match lead.toNat with
  | 0xE0 => 0xA0 ≤ n && n ≤ 0xBF
  | 0xED => 0x80 ≤ n && n ≤ 0x9F
  | 0xF0 => 0x90 ≤ n && n ≤ 0xBF
  | 0xF4 => 0x80 ≤ n && n ≤ 0x8F
  | m => 0xE0 ≤ m && m ≤ 0xF4 && isTail b

/-- The length of the gap at the front of the bytes, less one. -/
def gap : List UInt8 → Nat
  | lead :: b :: c :: _ =>
    if isSecond lead b then if 0xF0 ≤ lead.toNat && isTail c then 2 else 1 else 0
  | [lead, b] => if isSecond lead b then 1 else 0
  | _ => 0

/-- The characters and gaps that the bytes consist of. -/
def scan : List UInt8 → List (Option Char)
  | [] => []
  | b :: rest =>
    match front? (b :: rest) with
    | some c => some c :: scan (rest.drop (c.utf8Size - 1))
    | none => none :: scan (rest.drop (gap (b :: rest)))
termination_by bytes => bytes.length
decreasing_by all_goals simp only [List.length_drop, List.length_cons]; omega

/-- The characters, if there is no gap among them. -/
def gapless? : List (Option Char) → Option (List Char)
  | [] => some []
  | none :: _ => none
  | some c :: rest => (gapless? rest).map (c :: ·)

/-- The text of bytes that are UTF-8 throughout. -/
def decode? (bytes : List UInt8) : Option String :=
  (gapless? (scan bytes)).map String.ofList

/-- The text of any bytes, with U+FFFD for each gap. -/
def lossy (bytes : List UInt8) : String :=
  String.ofList ((scan bytes).map fun c => c.getD (Char.ofNat 0xFFFD))

/-! ## Encoding and decoding -/

/-- A character is read off in front of any bytes. -/
theorem front?_append (c : Char) (rest : List UInt8) :
    front? (String.utf8EncodeChar c ++ rest) = some c := by
  have hlen : (String.utf8EncodeChar c).length ≤ 4 := by
    rw [String.length_utf8EncodeChar]
    exact c.utf8Size_le_four
  rw [front?, List.take_append, List.take_of_length_le hlen, List.toByteArray_append,
    ByteArray.utf8DecodeChar?_utf8EncodeChar_append]

theorem eq_append_of_front? {bytes : List UInt8} {c : Char} (h : front? bytes = some c) :
    bytes = String.utf8EncodeChar c ++ bytes.drop c.utf8Size := by
  have hlen : (String.utf8EncodeChar c).length = c.utf8Size := String.length_utf8EncodeChar c
  obtain ⟨more, hmore⟩ := ByteArray.exists_of_utf8DecodeChar?_eq_some h
  have htake : bytes.take 4 = String.utf8EncodeChar c ++ more.data.toList := by
    apply List.toByteArray_inj.mp
    rw [hmore, List.toByteArray_append]
    congr 1
    apply ByteArray.ext
    simp
  have hall : bytes = String.utf8EncodeChar c ++ (more.data.toList ++ bytes.drop 4) := by
    rw [← List.append_assoc, ← htake, List.take_append_drop]
  have hdrop : bytes.drop c.utf8Size = more.data.toList ++ bytes.drop 4 := by
    conv => lhs; rw [hall]
    exact List.drop_left' hlen
  rw [hdrop]
  exact hall

theorem scan_append (c : Char) (rest : List UInt8) :
    scan (String.utf8EncodeChar c ++ rest) = some c :: scan rest := by
  have hfront := front?_append c rest
  have hlen : (String.utf8EncodeChar c).length = c.utf8Size := String.length_utf8EncodeChar c
  cases henc : String.utf8EncodeChar c with
  | nil => exact absurd henc String.utf8EncodeChar_ne_nil
  | cons b more =>
    rw [henc, List.cons_append] at hfront
    rw [henc, List.length_cons] at hlen
    rw [List.cons_append, scan, hfront]
    simp only
    rw [List.drop_left' (by omega)]

/-- Encoded characters are scanned one by one, without a gap. -/
theorem scan_flatMap (cs : List Char) :
    scan (cs.flatMap String.utf8EncodeChar) = cs.map some := by
  induction cs with
  | nil => rw [List.flatMap_nil, scan, List.map_nil]
  | cons c cs ih => rw [List.flatMap_cons, scan_append, ih, List.map_cons]

theorem eq_flatMap_of_scan {bytes : List UInt8} {cs : List Char} (h : scan bytes = cs.map some) :
    bytes = cs.flatMap String.utf8EncodeChar := by
  induction cs generalizing bytes with
  | nil =>
    cases bytes with
    | nil => rfl
    | cons b rest =>
      rw [scan] at h
      split at h <;> simp at h
  | cons c cs ih =>
    cases bytes with
    | nil => simp [scan] at h
    | cons b rest =>
      have hpos := c.utf8Size_pos
      rw [scan] at h
      split at h
      · rename_i d hd
        simp only [List.map_cons, List.cons.injEq, Option.some.injEq] at h
        obtain ⟨rfl, hrest⟩ := h
        have hdrop : (b :: rest).drop d.utf8Size = rest.drop (d.utf8Size - 1) := by
          rw [show d.utf8Size = d.utf8Size - 1 + 1 by omega, List.drop_succ_cons]
          simp
        rw [List.flatMap_cons, ← ih hrest, ← hdrop]
        exact eq_append_of_front? hd
      · simp at h

theorem gapless?_eq_some_iff {xs : List (Option Char)} {cs : List Char} :
    gapless? xs = some cs ↔ xs = cs.map some := by
  induction xs generalizing cs with
  | nil => cases cs <;> simp [gapless?]
  | cons x xs ih =>
    cases x with
    | none => cases cs <;> simp [gapless?]
    | some c =>
      cases cs with
      | nil => simp [gapless?]
      | cons d cs =>
        rw [gapless?, Option.map_eq_some_iff]
        simp only [List.cons.injEq, List.map_cons, Option.some.injEq, ← ih]
        constructor
        · rintro ⟨ds, hds, rfl, rfl⟩
          exact ⟨rfl, hds⟩
        · rintro ⟨rfl, hcs⟩
          exact ⟨cs, hcs, rfl, rfl⟩

/-- **Exactly the bytes of a text are decoded, and to that text.** -/
theorem decode?_eq_some_iff {bytes : List UInt8} {text : String} :
    decode? bytes = some text ↔ bytes = encode text := by
  unfold decode? encode
  rw [Option.map_eq_some_iff]
  constructor
  · rintro ⟨cs, hcs, rfl⟩
    rw [String.toList_ofList]
    exact eq_flatMap_of_scan (gapless?_eq_some_iff.mp hcs)
  · intro h
    exact ⟨text.toList, gapless?_eq_some_iff.mpr (h ▸ scan_flatMap _), String.ofList_toList⟩

/-- A text is read back from its bytes. -/
theorem lossy_encode (text : String) : lossy (encode text) = text := by
  unfold lossy encode
  rw [scan_flatMap, List.map_map]
  exact (congrArg String.ofList (List.map_id _)).trans String.ofList_toList

end ObjectMemory.Utf8
