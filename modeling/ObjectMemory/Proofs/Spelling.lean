import ObjectMemory.Json.Reader
import ObjectMemory.Json.Writer

/-!
# Spelling

One JSON object can be written in many ways. White space may stand between any two tokens, and a
character of a string may be written as it is, by a letter after a backslash, or by four hexadecimal
digits for each of its 16-bit units. Here the objects are those whose values are scalars, and
`ObjectSpelling` says which texts spell such an object. It is built up by the grammar and knows
nothing of the reader.

* `ofText?_of_spelling` — whichever way an object is written, it is read
* `spelling_writeObject` — the writer writes it in one of these ways
-/

namespace ObjectMemory.Json

/-! ## The grammar -/

/-- White space only, or nothing. -/
def Gap (cs : List Char) : Prop :=
  ∀ c ∈ cs, isSpace c = true

/-- The ways to write a character between quotes. -/
inductive CharSpelling : Char → List Char → Prop
  | plain {c : Char} (printable : 32 ≤ c.toNat) (quote : c ≠ '"') (backslash : c ≠ '\\') :
    CharSpelling c [c]
  | letter {c e : Char} (named : escaped? e = some c) : CharSpelling c ['\\', e]
  | unit {a b c d : Char} {n : Nat} (hex : hexQuad? a b c d = some n) (high : isHigh n = false)
    (low : isLow n = false) : CharSpelling (Char.ofNat n) ['\\', 'u', a, b, c, d]
  | pair {a b c d e f g h : Char} {n m : Nat} (first : hexQuad? a b c d = some n)
    (second : hexQuad? e f g h = some m) (high : isHigh n = true) (low : isLow m = true) :
    CharSpelling (pairChar n m) ['\\', 'u', a, b, c, d, '\\', 'u', e, f, g, h]

/-- The ways to write a text between quotes. -/
inductive TextSpelling : (text cs : List Char) → Prop
  | nil : TextSpelling [] []
  | cons {c : Char} {text cs ds : List Char} (head : CharSpelling c cs)
    (tail : TextSpelling text ds) : TextSpelling (c :: text) (cs ++ ds)

/-- The ways to write a scalar. -/
inductive ScalarSpelling : Scalar → List Char → Prop
  | null : ScalarSpelling .null ['n', 'u', 'l', 'l']
  | true : ScalarSpelling (.bool true) ['t', 'r', 'u', 'e']
  | false : ScalarSpelling (.bool false) ['f', 'a', 'l', 's', 'e']
  | int (n : Int) : ScalarSpelling (.int n) (Numeral.signed n).toList
  | text {s : String} {cs : List Char} (content : TextSpelling s.toList cs) :
    ScalarSpelling (.text s) ('"' :: cs ++ ['"'])

/-- The ways to write a key with its value. -/
inductive MemberSpelling : String × Scalar → List Char → Prop
  | mk {key : String} {value : Scalar} {keyText valueText before mid past behind : List Char}
    (keySpelling : TextSpelling key.toList keyText) (valueSpelling : ScalarSpelling value valueText)
    (beforeGap : Gap before) (midGap : Gap mid) (pastGap : Gap past) (behindGap : Gap behind) :
    MemberSpelling (key, value)
      (before ++ '"' :: keyText ++ '"' :: mid ++ ':' :: past ++ valueText ++ behind)

/-- The ways to write one or more members between commas, with the closing brace. -/
inductive MembersSpelling : List (String × Scalar) → List Char → Prop
  | last {m : String × Scalar} {cs : List Char} (member : MemberSpelling m cs) :
    MembersSpelling [m] (cs ++ ['}'])
  | more {m : String × Scalar} {ms : List (String × Scalar)} {cs ds : List Char}
    (member : MemberSpelling m cs) (others : MembersSpelling ms ds) :
    MembersSpelling (m :: ms) (cs ++ ',' :: ds)

/-- The ways to write an object as a text of its own. -/
inductive ObjectSpelling : List (String × Scalar) → List Char → Prop
  | empty {before mid behind : List Char} (beforeGap : Gap before) (midGap : Gap mid)
    (behindGap : Gap behind) : ObjectSpelling [] (before ++ '{' :: mid ++ '}' :: behind)
  | members {ms : List (String × Scalar)} {before cs behind : List Char} (beforeGap : Gap before)
    (members : MembersSpelling ms cs) (behindGap : Gap behind) :
    ObjectSpelling ms (before ++ '{' :: cs ++ behind)

/-- The value that a scalar is read as. Of a negative number it is only known to be a number. -/
def Scalar.toJson : Scalar → Json
  | .null => .null
  | .bool b => .bool b
  | .int n => if n < 0 then .number else .natural n.natAbs
  | .text s => .string (some s)

/-- The member that a key with a scalar is read as. -/
def toMember (m : String × Scalar) : Option String × Json :=
  (some m.1, m.2.toJson)

variable {c : Char} {cs ds text rest gap : List Char}

/-! ## White space -/

theorem skip_gap (h : Gap gap) (rest : List Char) : skip (gap ++ rest) = skip rest :=
  List.dropWhile_append_of_pos h

theorem skip_gap_eq_nil (h : Gap gap) : skip gap = [] := by
  have hskip := skip_gap h []
  rwa [List.append_nil] at hskip

theorem skip_cons (h : isSpace c = false) (rest : List Char) : skip (c :: rest) = c :: rest :=
  List.dropWhile_cons_of_neg (by simp [h])

/-! ## Strings -/

/-- The pieces that a written character is read as come before those of what follows, and they
unite to the character. -/
theorem exists_pieces_of_char (h : CharSpelling c cs) :
    ∃ pieces,
      (∀ {more rest found}, readPieces more = some (found, rest) →
        readPieces (cs ++ more) = some (pieces ++ found, rest)) ∧
      ∀ {found text}, unite found = some text → unite (pieces ++ found) = some (c :: text) := by
  cases h with
  | plain printable quote backslash =>
    refine ⟨[.plain c], fun {more rest found} hmore => ?_, fun hfound => ?_⟩
    · have hallowed : ¬ (c.toNat < 32 ∨ c = '\\') := by
        rintro (hlt | heq)
        · omega
        · exact backslash heq
      rw [List.singleton_append, readPieces.eq_5 c more quote
        (fun _ _ _ _ _ heq _ => backslash heq) (fun _ _ heq _ => backslash heq),
        if_neg hallowed, hmore]
      rfl
    · rw [List.singleton_append, unite, hfound]
      rfl
  | @letter _ e named =>
    have hletter : e ≠ 'u' := by
      rintro rfl
      cases named
    refine ⟨[.plain c], fun {more rest found} hmore => ?_, fun hfound => ?_⟩
    · show readPieces ('\\' :: e :: more) = _
      rw [readPieces.eq_4 e more fun _ _ _ _ _ heq _ => hletter heq, named, hmore]
      rfl
    · rw [List.singleton_append, unite, hfound]
      rfl
  | @unit a b d e n hex high low =>
    refine ⟨[.unit n], fun {more rest found} hmore => ?_, fun {found text} hfound => ?_⟩
    · show readPieces ('\\' :: 'u' :: a :: b :: d :: e :: more) = _
      rw [readPieces, hex, hmore]
      rfl
    · -- no pair starts here, whatever piece comes next
      rcases found with _ | ⟨_ | m, found⟩ <;>
        rw [List.singleton_append, unite, high, low, hfound] <;> first | rfl | nofun
  | @pair a b d e a' b' d' e' n m first second high low =>
    refine ⟨[.unit n, .unit m], fun {more rest found} hmore => ?_, fun {found text} hfound => ?_⟩
    · show readPieces ('\\' :: 'u' :: a :: b :: d :: e :: '\\' :: 'u' :: a' :: b' :: d' :: e' ::
        more) = _
      rw [readPieces, first, readPieces, second, hmore]
      rfl
    · show unite (.unit n :: .unit m :: found) = _
      rw [unite, high, low, hfound]
      rfl

theorem exists_pieces_of_text (h : TextSpelling text cs) (rest : List Char) :
    ∃ pieces, readPieces (cs ++ '"' :: rest) = some (pieces, rest) ∧ unite pieces = some text := by
  induction h with
  | nil => exact ⟨[], by rw [List.nil_append, readPieces], by rw [unite]⟩
  | cons head tail ih =>
    obtain ⟨found, hread, hunite⟩ := ih
    obtain ⟨pieces, hfront, hfrontUnite⟩ := exists_pieces_of_char head
    exact ⟨pieces ++ found, by rw [List.append_assoc, hfront hread], hfrontUnite hunite⟩

/-- **A written text is read as the text**, up to the closing quote. -/
theorem readString_of_spelling (h : TextSpelling text cs) (rest : List Char) :
    readString (cs ++ '"' :: rest) = some (some (String.ofList text), rest) := by
  obtain ⟨pieces, hread, hunite⟩ := exists_pieces_of_text h rest
  rw [readString, hread, Option.map_some]
  show some ((unite pieces).map String.ofList, rest) = _
  rw [hunite, Option.map_some]

/-! ## Numbers -/

/-- A number that stands before `rest` is over there. -/
def Ends (rest : List Char) : Prop :=
  ∀ c ∈ rest.head?, Numeral.isDigit c = false ∧ c ≠ '.' ∧ c ≠ 'e' ∧ c ≠ 'E'

theorem Ends.behind_gap (hgap : Gap gap) (h : Ends rest) : Ends (gap ++ rest) := by
  cases gap with
  | nil => exact h
  | cons c gap =>
    intro d hd
    obtain rfl : c = d := by simpa using hd
    have hspace := hgap c List.mem_cons_self
    simp only [isSpace, Bool.or_eq_true, decide_eq_true_eq] at hspace
    rcases hspace with ((rfl | rfl) | rfl) | rfl <;> decide

/-- The digits of a number start with a 0 only if it is 0. -/
theorem exists_digits_eq_cons_of_pos {n : Nat} (h : 0 < n) :
    ∃ c cs, Numeral.digits 10 n = c :: cs ∧ c ≠ '0' := by
  induction n using Nat.strongRecOn with
  | _ n ih =>
    by_cases hlt : n < 10
    · refine ⟨_, _, Numeral.digits_of_lt hlt, fun hzero => ?_⟩
      have hvalue := Numeral.digitValue?_digitChar hlt
      rw [hzero] at hvalue
      have : 0 = n := Option.some.inj hvalue
      omega
    · obtain ⟨c, cs, heq, hne⟩ := ih (n / 10) (by omega) (by omega)
      exact ⟨c, _, by rw [Numeral.digits_of_le (by omega), heq, List.cons_append], hne⟩

theorem digitRun_digits (n : Nat) (h : Ends rest) :
    digitRun (Numeral.digits 10 n ++ rest) = (Numeral.digits 10 n, rest) := by
  have hall : ∀ c ∈ Numeral.digits 10 n, Numeral.isDigit c = true :=
    List.all_eq_true.mp (Numeral.all_isDigit_digits n)
  rw [digitRun, List.takeWhile_append_of_pos hall, List.dropWhile_append_of_pos hall]
  cases rest with
  | nil => simp
  | cons c rest =>
    have hc : ¬ Numeral.isDigit c = true := by simp [(h c rfl).1]
    rw [List.takeWhile_cons_of_neg hc, List.dropWhile_cons_of_neg hc, List.append_nil]

theorem readWhole_digits (n : Nat) (h : Ends rest) :
    readWhole (Numeral.digits 10 n ++ rest) = some (Numeral.digits 10 n, rest) := by
  rw [readWhole, digitRun_digits n h]
  rcases Nat.eq_zero_or_pos n with rfl | hpos
  · rw [Numeral.digits_of_lt (by omega)]
    rfl
  · obtain ⟨c, cs, heq, hne⟩ := exists_digits_eq_cons_of_pos hpos
    rw [heq]
    split <;> simp_all

/-- **The digits of a number are read as the number.** -/
theorem readUnsigned_digits (n : Nat) (h : Ends rest) :
    readUnsigned (Numeral.digits 10 n ++ rest) = some (natural n, rest) := by
  have hfraction : readFraction rest = some (false, rest) := by
    refine readFraction.eq_2 rest fun more heq => ?_
    subst heq
    exact (h '.' rfl).2.1 rfl
  have hexponent : readExponent rest = some (false, rest) := by
    cases rest with
    | nil => rfl
    | cons c rest =>
      obtain ⟨-, -, he, hE⟩ := h c rfl
      unfold readExponent
      exact if_neg (not_or.mpr ⟨he, hE⟩)
  rw [readUnsigned, readWhole_digits n h]
  show (readFraction rest >>= _) = _
  rw [hfraction]
  show (readExponent rest >>= _) = _
  rw [hexponent]
  show some (natural (Numeral.value (Numeral.digits 10 n)), rest) = _
  rw [Numeral.value_digits]

theorem toList_signed_of_neg {n : Int} (h : n < 0) :
    (Numeral.signed n).toList = '-' :: Numeral.digits 10 n.natAbs := by
  simp [Numeral.signed, h, Numeral.decimal]

theorem toList_signed_of_nonneg {n : Int} (h : ¬ n < 0) :
    (Numeral.signed n).toList = Numeral.digits 10 n.natAbs := by
  simp [Numeral.signed, h, Numeral.decimal]

theorem exists_digits_eq_cons (n : Nat) :
    ∃ c cs, Numeral.digits 10 n = c :: cs ∧ Numeral.isDigit c = true := by
  obtain ⟨c, cs, heq⟩ := List.exists_cons_of_ne_nil (Numeral.digits_ne_nil n)
  have hall := Numeral.all_isDigit_digits n
  rw [heq, List.all_cons, Bool.and_eq_true] at hall
  exact ⟨c, cs, heq, hall.1⟩

/-- An integer starts with a sign or with a digit. -/
theorem exists_signed_eq_cons (n : Int) :
    ∃ c cs, (Numeral.signed n).toList = c :: cs ∧ (c = '-' ∨ Numeral.isDigit c = true) := by
  by_cases h : n < 0
  · exact ⟨'-', _, toList_signed_of_neg h, .inl rfl⟩
  · obtain ⟨c, cs, heq, hdigit⟩ := exists_digits_eq_cons n.natAbs
    exact ⟨c, cs, (toList_signed_of_nonneg h).trans heq, .inr hdigit⟩

/-- **A written integer is read as a number**, and without a sign as the number that it is. -/
theorem readNumber_signed (n : Int) (h : Ends rest) :
    readNumber ((Numeral.signed n).toList ++ rest) = some ((Scalar.int n).toJson, rest) := by
  have hread := readUnsigned_digits n.natAbs h
  by_cases hneg : n < 0
  · rw [toList_signed_of_neg hneg, List.cons_append, readNumber, hread, Scalar.toJson, if_pos hneg]
    rfl
  · obtain ⟨c, cs, heq, hdigit⟩ := exists_digits_eq_cons n.natAbs
    have hminus : c ≠ '-' := by
      rintro rfl
      exact absurd hdigit (by decide)
    have hfirst (more : List Char) : Numeral.digits 10 n.natAbs ++ rest ≠ '-' :: more := by
      rw [heq, List.cons_append, ne_eq, List.cons.injEq]
      exact fun hcons => hminus hcons.1
    rw [toList_signed_of_nonneg hneg, readNumber.eq_2 _ hfirst, hread, Scalar.toJson, if_neg hneg]

/-- The marks after a member end a number. -/
theorem ends_cons (rest : List Char) (h : c = ',' ∨ c = '}') : Ends (c :: rest) := by
  intro d hd
  obtain rfl : c = d := by simpa using hd
  rcases h with rfl | rfl <;> decide

/-! ## Values -/

theorem readValue_gap (h : Gap gap) (fuel : Nat) (rest : List Char) :
    readValue (fuel + 1) (gap ++ rest) = readValue (fuel + 1) rest := by
  rw [readValue, readValue, skip_gap h]

/-- A value that starts with a sign or with a digit is read as a number. -/
theorem readValue_of_first (h : c = '-' ∨ Numeral.isDigit c = true) (fuel : Nat) :
    readValue (fuel + 1) (c :: cs) = readNumber (c :: cs) := by
  have hspace : isSpace c = false := by
    refine Bool.eq_false_iff.mpr fun hspace => ?_
    simp only [isSpace, Bool.or_eq_true, decide_eq_true_eq] at hspace
    rcases hspace with ((rfl | rfl) | rfl) | rfl <;> exact absurd h (by decide)
  rw [readValue, skip_cons hspace]
  split
  all_goals first
    | rfl
    | next heq =>
      obtain ⟨rfl, -⟩ := List.cons.inj heq
      exact absurd h (by decide)

/-- **A written scalar is read as the scalar.** -/
theorem readValue_of_spelling {v : Scalar} (h : ScalarSpelling v cs) (hends : Ends rest)
    (fuel : Nat) : readValue (fuel + 1) (cs ++ rest) = some (v.toJson, rest) := by
  cases h with
  | null => rfl
  | true => rfl
  | false => rfl
  | int n =>
    obtain ⟨c, ds, heq, hfirst⟩ := exists_signed_eq_cons n
    have hread := readNumber_signed n hends
    rw [heq] at hread ⊢
    rw [List.cons_append] at hread ⊢
    rw [readValue_of_first hfirst, hread]
  | @text s cs content =>
    rw [List.append_assoc, List.cons_append, readValue, skip_cons rfl, List.singleton_append]
    show (readString (cs ++ '"' :: rest)).map _ = _
    rw [readString_of_spelling content, String.ofList_toList]
    rfl

/-! ## Members -/

theorem readMembers_gap (h : Gap gap) (fuel : Nat) (rest : List Char) :
    readMembers (fuel + 1) (gap ++ rest) = readMembers (fuel + 1) rest := by
  rw [readMembers, readMembers, skip_gap h]

/-- A written member is read as the member. What comes after it decides how it goes on. -/
theorem readMembers_of_member {m : String × Scalar} (h : MemberSpelling m cs) (fuel : Nat)
    (rest : List Char) :
    readMembers (fuel + 2) (cs ++ '}' :: rest) = some ([toMember m], rest) ∧
    readMembers (fuel + 2) (cs ++ ',' :: rest) =
      (readMembers (fuel + 1) rest).map fun found => (toMember m :: found.1, found.2) := by
  cases h with
  | @mk key value keyText valueText before mid past behind keySpelling valueSpelling beforeGap
      midGap pastGap behindGap =>
    have hkey (after : List Char) := readString_of_spelling keySpelling
      (mid ++ ':' :: (past ++ (valueText ++ (behind ++ after))))
    have hvalue {after : List Char} (hends : Ends after) :=
      readValue_of_spelling valueSpelling (hends.behind_gap behindGap) fuel
    have hclose : Ends ('}' :: rest) := ends_cons rest (.inr rfl)
    have hcomma : Ends (',' :: rest) := ends_cons rest (.inl rfl)
    simp only [List.append_assoc, List.cons_append, readMembers_gap beforeGap]
    constructor
    -- the reader goes on alike up to the mark after the value
    all_goals
      rw [readMembers, skip_cons rfl]
      simp only [hkey, Option.bind_eq_bind, Option.bind_some, skip_gap midGap]
      rw [skip_cons rfl]
      simp only [readValue_gap pastGap, hvalue hclose, hvalue hcomma, Option.bind_some,
        skip_gap behindGap]
      rw [skip_cons rfl, String.ofList_toList]
    · rfl
    · show (readMembers (fuel + 1) rest).bind _ = _
      cases readMembers (fuel + 1) rest <;> rfl

variable {ms : List (String × Scalar)}

/-- **Written members are read as the members**, up to the closing brace. Each takes a step, and
the value of the last one takes another. -/
theorem readMembers_of_spelling (h : MembersSpelling ms cs) (rest : List Char) (fuel : Nat)
    (hfuel : ms.length < fuel) :
    readMembers fuel (cs ++ rest) = some (ms.map toMember, rest) := by
  induction h generalizing fuel with
  | @last m cs member =>
    obtain ⟨more, rfl⟩ := Nat.exists_eq_add_of_le' hfuel
    rw [List.append_assoc, List.singleton_append]
    exact (readMembers_of_member member more rest).1
  | @more m ms cs ds member others ih =>
    rw [List.length_cons] at hfuel
    obtain ⟨more, rfl⟩ := Nat.exists_eq_add_of_le' (show 2 ≤ fuel by omega)
    rw [List.append_assoc, List.cons_append, (readMembers_of_member member more (ds ++ rest)).2,
      ih (more + 1) (by omega)]
    rfl

/-- Each member takes up a character, and so does the closing brace. -/
theorem length_lt_of_spelling (h : MembersSpelling ms cs) : ms.length < cs.length := by
  induction h with
  | @last m cs member =>
    cases member
    simp only [List.length_append, List.length_cons]
    omega
  | @more m ms cs ds member others ih =>
    rw [List.length_cons, List.length_append, List.length_cons]
    omega

/-- Members start with a quote behind white space. -/
theorem exists_quote_of_spelling (h : MembersSpelling ms cs) :
    ∃ gap ds, cs = gap ++ '"' :: ds ∧ Gap gap := by
  have hmember {m : String × Scalar} {cs : List Char} (h : MemberSpelling m cs) :
      ∃ gap ds, cs = gap ++ '"' :: ds ∧ Gap gap := by
    cases h with
    | mk keySpelling valueSpelling beforeGap midGap pastGap behindGap =>
      exact ⟨_, _, by simp only [List.append_assoc, List.cons_append]; rfl, beforeGap⟩
  cases h with
  | last member =>
    obtain ⟨gap, ds, rfl, hgap⟩ := hmember member
    exact ⟨gap, ds ++ ['}'], by rw [List.append_assoc, List.cons_append], hgap⟩
  | @more _ _ _ others member _ =>
    obtain ⟨gap, ds, rfl, hgap⟩ := hmember member
    exact ⟨gap, ds ++ ',' :: others, by rw [List.append_assoc, List.cons_append], hgap⟩

/-! ## Objects -/

theorem readValue_empty (h : Gap gap) (fuel : Nat) (rest : List Char) :
    readValue (fuel + 1) ('{' :: (gap ++ '}' :: rest)) = some (.object [], rest) := by
  rw [readValue, skip_cons rfl]
  simp only [skip_gap h]
  rw [skip_cons rfl]
  rfl

theorem readValue_members (h : MembersSpelling ms cs) {fuel : Nat} (hfuel : ms.length < fuel)
    (rest : List Char) :
    readValue (fuel + 1) ('{' :: (cs ++ rest)) = some (.object (ms.map toMember), rest) := by
  have hread := readMembers_of_spelling h rest fuel hfuel
  obtain ⟨gap, ds, rfl, hgap⟩ := exists_quote_of_spelling h
  obtain ⟨fuel, rfl⟩ := Nat.exists_eq_add_of_le' (Nat.one_le_of_lt hfuel)
  rw [List.append_assoc, List.cons_append] at hread ⊢
  rw [readMembers_gap hgap] at hread
  rw [readValue, skip_cons rfl]
  simp only [skip_gap hgap]
  rw [skip_cons rfl]
  show (readMembers (fuel + 1) ('"' :: (ds ++ rest))).map _ = _
  rw [hread]
  rfl

/-- **Whichever way an object is written, it is read as the object.** -/
theorem ofText?_of_spelling {text : String} (h : ObjectSpelling ms text.toList) :
    ofText? text = some (.object (ms.map toMember)) := by
  rw [ofText?, ← String.length_toList]
  generalize text.toList = cs at h
  cases h with
  | empty beforeGap midGap behindGap =>
    rw [List.append_assoc, List.cons_append, readValue_gap beforeGap, readValue_empty midGap]
    exact if_pos (skip_gap_eq_nil behindGap)
  | @members _ before cs behind beforeGap members behindGap =>
    have hlength : ms.length < (before ++ '{' :: cs ++ behind).length := by
      have := length_lt_of_spelling members
      simp only [List.length_append, List.length_cons]
      omega
    rw [List.append_assoc, List.cons_append] at hlength ⊢
    rw [readValue_gap beforeGap, readValue_members members hlength]
    exact if_pos (skip_gap_eq_nil behindGap)

/-! ## The writer -/

theorem hexValue?_digitChar {d : Nat} (h : d < 16) :
    Numeral.hexValue? (Numeral.digitChar d) = some d := by
  have hall : ∀ e ∈ List.range 16, Numeral.hexValue? (Numeral.digitChar e) = some e := by decide
  exact hall d (List.mem_range.mpr h)

/-- A control character can be written with the digits of its number. -/
theorem CharSpelling.of_digits {s t u v : Char} (h : hexQuad? s t u v = some c.toNat)
    (hlt : c.toNat < 32) : CharSpelling c ['\\', 'u', s, t, u, v] := by
  have hhigh : isHigh c.toNat = false := by
    simp only [isHigh, Bool.and_eq_false_iff, decide_eq_false_iff_not]
    omega
  have hlow : isLow c.toNat = false := by
    simp only [isLow, Bool.and_eq_false_iff, decide_eq_false_iff_not]
    omega
  have hspelling := CharSpelling.unit h hhigh hlow
  rwa [Char.ofNat_toNat] at hspelling

theorem charSpelling_encodeChar (c : Char) : CharSpelling c (encodeChar c) := by
  have hnumber {n : Nat} (h : c.toNat = n) : c = Char.ofNat n := by rw [← h, Char.ofNat_toNat]
  unfold encodeChar
  split
  · next h => subst h; exact .letter rfl
  split
  · next h => subst h; exact .letter rfl
  split
  · next h => subst h; exact .letter rfl
  split
  · next h => subst h; exact .letter rfl
  split
  · next h => subst h; exact .letter rfl
  split
  · next h => rw [hnumber h]; exact .letter rfl
  split
  · next h => rw [hnumber h]; exact .letter rfl
  split
  · next h =>
    refine .of_digits ?_ (by omega)
    show (Numeral.hexValue? (Numeral.digitChar c.toNat)).bind _ = _
    rw [hexValue?_digitChar h]
    show some (0 + c.toNat) = some c.toNat
    rw [Nat.zero_add]
  split
  · next hge hlt =>
    refine .of_digits ?_ hlt
    show (Numeral.hexValue? (Numeral.digitChar (c.toNat - 16))).bind _ = _
    rw [hexValue?_digitChar (by omega)]
    show some (16 + (c.toNat - 16)) = some c.toNat
    rw [Nat.add_sub_of_le (by omega)]
  · next hquote hbackslash _ _ _ _ _ _ h => exact .plain (by omega) hquote hbackslash

theorem textSpelling_encode (text : List Char) : TextSpelling text (text.flatMap encodeChar) := by
  induction text with
  | nil => exact .nil
  | cons c text ih => exact .cons (charSpelling_encodeChar c) ih

theorem scalarSpelling_write (v : Scalar) : ScalarSpelling v v.write := by
  cases v with
  | null => exact .null
  | bool b => cases b <;> constructor
  | int n => exact .int n
  | text s => exact .text (textSpelling_encode s.toList)

theorem gap_nil : Gap [] :=
  nofun

theorem memberSpelling_writeMember (key : String) (value : Scalar) :
    MemberSpelling (key, value) (writeMember key value) := by
  have h := MemberSpelling.mk (textSpelling_encode key.toList) (scalarSpelling_write value)
    gap_nil gap_nil gap_nil gap_nil
  simpa [writeMember, quote] using h

theorem membersSpelling_writeMembers (ms : List (String × Scalar)) (h : ms ≠ []) :
    MembersSpelling ms (writeMembers ms) := by
  fun_induction writeMembers ms with
  | case1 => exact absurd rfl h
  | case2 key value => exact .last (memberSpelling_writeMember key value)
  | case3 key value rest hrest ih =>
    exact .more (memberSpelling_writeMember key value) (ih (by simpa using hrest))

/-- **The writer writes an object in one of the ways to write it.** -/
theorem spelling_writeObject (ms : List (String × Scalar)) :
    ObjectSpelling ms (writeObject ms).toList := by
  rw [writeObject, String.toList_ofList]
  by_cases h : ms = []
  · subst h
    exact .empty gap_nil gap_nil gap_nil
  · simpa using ObjectSpelling.members gap_nil (membersSpelling_writeMembers ms h) gap_nil

end ObjectMemory.Json
