import ObjectMemory.Journal

/-!
# Reading a log

A log is a row of lines. Five kinds of lines are about the objects of an arena: an object was made,
was copied, a list was made larger, the arena was emptied, or it had no room. `Entry.ofLine?` reads
such a line, as somebody does who has nothing but the text. It looks for the pieces that every line
of a kind has, and takes the words from the gaps behind them.

It does not know how lines are written. That it finds in each line the data of the event that the
line was written for, and nothing in lines of other kinds, is `Entry.ofLine?_line`.
-/

namespace ObjectMemory

/-! ## Gaps in a text -/

/-- The text of pieces, each with the word that fills the gap behind it. -/
def gapped : List String → List String → List Char
  | piece :: pieces, word :: words => piece.toList ++ (word.toList ++ gapped pieces words)
  | _, _ => []

/-- The words in the gaps behind the given pieces, which make up the whole text. A word goes up to
the next space. -/
def gaps? : List String → List Char → Option (List (List Char))
  | [], [] => some []
  | [], _ :: _ => none
  | piece :: pieces, text =>
    if piece.toList.isPrefixOf text then
      let rest := text.drop piece.toList.length
      (gaps? pieces (rest.dropWhile (· ≠ ' '))).map (rest.takeWhile (· ≠ ' ') :: ·)
    else none

/-- Pieces that start with a space end the word in front of them. -/
theorem gapped_eq_nil_or_space {pieces : List String} (words : List String)
    (hpieces : ∀ piece ∈ pieces, piece.toList.head? = some ' ') :
    gapped pieces words = [] ∨ ∃ cs, gapped pieces words = ' ' :: cs := by
  match pieces, words with
  | piece :: pieces, word :: words =>
    obtain ⟨cs, hcs⟩ := List.head?_eq_some_iff.mp (hpieces piece List.mem_cons_self)
    exact Or.inr ⟨_, by rw [gapped, hcs, List.cons_append]⟩
  | [], _ => exact Or.inl rfl
  | _ :: _, [] => exact Or.inl rfl

theorem span_word {word rest : List Char} (hword : ' ' ∉ word)
    (hrest : rest = [] ∨ ∃ cs, rest = ' ' :: cs) :
    (word ++ rest).takeWhile (· ≠ ' ') = word ∧ (word ++ rest).dropWhile (· ≠ ' ') = rest := by
  have hall : ∀ c ∈ word, decide (c ≠ ' ') = true := by
    intro c hc
    exact decide_eq_true fun heq => hword (heq ▸ hc)
  rw [List.takeWhile_append_of_pos hall, List.dropWhile_append_of_pos hall]
  rcases hrest with rfl | ⟨cs, rfl⟩ <;> simp

/-- **Words without spaces are found again**, if every piece but the first starts with a space. -/
theorem gaps?_gapped {pieces words : List String} (hlen : words.length = pieces.length)
    (hwords : ∀ word ∈ words, ' ' ∉ word.toList)
    (hpieces : ∀ piece ∈ pieces.tail, piece.toList.head? = some ' ') :
    gaps? pieces (gapped pieces words) = some (words.map String.toList) := by
  induction pieces generalizing words with
  | nil =>
    obtain rfl := List.length_eq_zero_iff.mp hlen
    rfl
  | cons piece pieces ih =>
    obtain ⟨word, words, rfl⟩ := List.exists_cons_of_length_eq_add_one hlen
    have hlater : ∀ q ∈ pieces, q.toList.head? = some ' ' := hpieces
    obtain ⟨htake, hdrop⟩ :=
      span_word (hwords word List.mem_cons_self) (gapped_eq_nil_or_space words hlater)
    have hrest := ih (Nat.succ.inj hlen) (fun w hw => hwords w (List.mem_cons_of_mem word hw))
      fun q hq => hlater q (List.mem_of_mem_tail hq)
    rw [gapped, gaps?, if_pos (by simp)]
    simp only [List.drop_left, htake, hdrop, hrest, Option.map_some, List.map_cons]

/-! ## Numbers and classes -/

/-- The number that a row of digits states. -/
def numeral? (cs : List Char) : Option Nat :=
  if cs ≠ [] ∧ cs.all Numeral.isDigit then some (Numeral.value cs) else none

theorem toList_decimal (n : Nat) : (Numeral.decimal n).toList = Numeral.digits 10 n :=
  String.toList_ofList

@[simp] theorem numeral?_decimal (n : Nat) : numeral? (Numeral.decimal n).toList = some n := by
  rw [toList_decimal, numeral?,
    if_pos ⟨Numeral.digits_ne_nil n, Numeral.all_isDigit_digits n⟩, Numeral.value_digits]

@[simp] theorem space_not_mem_decimal (n : Nat) : ' ' ∉ (Numeral.decimal n).toList := by
  rw [toList_decimal]
  intro hspace
  exact absurd (List.all_eq_true.mp (Numeral.all_isDigit_digits n) ' ' hspace) (by decide)

namespace ObjClass

/-- The class that a text names. -/
def ofText? (text : List Char) : Option ObjClass :=
  if text = "String".toList then some .string
  else if text = "List".toList then some .list
  else if text = "ByteArray".toList then some .byteArray
  else if "Other(".toList.isPrefixOf text ∧ text.getLast? = some ')' then
    (numeral? (text.drop 6).dropLast).map .other
  else none

theorem toList_describe_other (t : Nat) :
    (other t).describe.toList = "Other(".toList ++ (Numeral.decimal t).toList ++ [')'] := by
  show ("Other(" ++ toString (Numeral.decimal t) ++ ")").toList = _
  simp [toString]

@[simp] theorem ofText?_describe (c : ObjClass) : ofText? c.describe.toList = some c := by
  cases c with
  | other t =>
    have hlast : (other t).describe.toList.getLast? = some ')' := by
      rw [toList_describe_other, List.getLast?_concat]
    rw [toList_describe_other] at hlast ⊢
    simp [ofText?] at hlast ⊢
    exact hlast
  | _ => decide

@[simp] theorem space_not_mem_describe (c : ObjClass) : ' ' ∉ c.describe.toList := by
  cases c with
  | other t =>
    rw [toList_describe_other]
    simp
  | _ => decide

end ObjClass

/-! ## Lines -/

/-- What a line says about the objects of an arena. -/
inductive Entry where
  /-- An object was made. -/
  | allocated (start : Nat) (cls : ObjClass) (payloadWords : Nat)
  /-- An object was copied. -/
  | relocated (source target oldWords newWords : Nat)
  /-- A list was made larger. -/
  | listGrown (oldCapacity newCapacity : Nat)
  /-- The arena was emptied. -/
  | reset (used : Nat)
  /-- The arena had no room. With it `demand` words would have been used. -/
  | full (demand used requested capacity : Nat)
  deriving DecidableEq, Repr

/-- The kinds of lines that say something about the objects. -/
inductive LineKind where
  | allocated
  | relocated
  | listGrown
  | reset
  | full
  deriving DecidableEq, Repr

namespace LineKind

def all : List LineKind :=
  [allocated, relocated, listGrown, reset, full]

/-- The pieces of every line of a kind. A word stands behind each. -/
def pieces : LineKind → List String
  | allocated => ["TRACE mbvm_core::arena: allocate at=", " class=", " payload_words="]
  | relocated =>
    ["DEBUG mbvm_core::arena: object relocated from=", " to=", " old_words=",
      " new_payload_words="]
  | listGrown =>
    ["TRACE mbvm_runtime::list_ops: list grown old_capacity=", " new_capacity="]
  | reset => ["DEBUG mbvm_core::arena: arena reset used="]
  | full =>
    ["ERROR mbvm_core::arena: out of memory: ", " words used out of ", " used=", " requested=",
      " capacity="]

/-- The entry that the words of a line make. Where the arena had no room, its capacity is told
twice. -/
def read? : LineKind → List (List Char) → Option Entry
  | allocated, [start, cls, words] => do
    return .allocated (← numeral? start) (← ObjClass.ofText? cls) (← numeral? words)
  | relocated, [source, target, old, new] => do
    return .relocated (← numeral? source) (← numeral? target) (← numeral? old) (← numeral? new)
  | listGrown, [old, new] => do return .listGrown (← numeral? old) (← numeral? new)
  | reset, [used] => do return .reset (← numeral? used)
  | full, [demand, size, used, requested, capacity] =>
    if size = capacity then do
      return .full (← numeral? demand) (← numeral? used) (← numeral? requested)
        (← numeral? capacity)
    else none
  | _, _ => none

end LineKind

namespace Entry

/-- What a line says, if it says something about the objects of an arena. -/
def ofLine? (line : String) : Option Entry :=
  LineKind.all.findSome? fun kind => (gaps? kind.pieces line.toList).bind kind.read?

/-- The kind of the lines that say this. -/
def kind : Entry → LineKind
  | allocated .. => .allocated
  | relocated .. => .relocated
  | listGrown .. => .listGrown
  | reset _ => .reset
  | full .. => .full

/-- The words that say this in a line. -/
def words : Entry → List String
  | allocated start cls payload => [Numeral.decimal start, cls.describe, Numeral.decimal payload]
  | relocated source target old new =>
    [Numeral.decimal source, Numeral.decimal target, Numeral.decimal old, Numeral.decimal new]
  | listGrown old new => [Numeral.decimal old, Numeral.decimal new]
  | reset used => [Numeral.decimal used]
  | full demand used requested capacity =>
    [Numeral.decimal demand, Numeral.decimal capacity, Numeral.decimal used,
      Numeral.decimal requested, Numeral.decimal capacity]

theorem gaps?_pieces (entry : Entry) :
    gaps? entry.kind.pieces (gapped entry.kind.pieces entry.words) =
      some (entry.words.map String.toList) := by
  refine gaps?_gapped ?_ ?_ ?_
  · cases entry <;> rfl
  · cases entry <;> simp [words]
  · cases entry <;> simp [kind, LineKind.pieces]

/-- **The words of a line give back what they say.** -/
theorem read?_words (entry : Entry) :
    entry.kind.read? (entry.words.map String.toList) = some entry := by
  cases entry <;> simp [kind, words, LineKind.read?]

/-- A line of one kind has not the pieces of another. -/
theorem gaps?_of_ne {kind : LineKind} {entry : Entry} (hne : kind ≠ entry.kind) :
    gaps? kind.pieces (gapped entry.kind.pieces entry.words) = none := by
  cases kind <;> cases entry <;>
    first
    | exact absurd rfl hne
    | simp [LineKind.pieces, Entry.kind, words, gapped, gaps?]

/-- Whoever tries all kinds comes across the right one, and reads nothing before. -/
theorem findSome?_kind (entry : Entry) :
    (LineKind.all.findSome? fun kind =>
      (gaps? kind.pieces (gapped entry.kind.pieces entry.words)).bind kind.read?) = some entry := by
  have hkind (kind : LineKind) :
      (gaps? kind.pieces (gapped entry.kind.pieces entry.words)).bind kind.read? =
        if kind = entry.kind then some entry else none := by
    by_cases heq : kind = entry.kind
    · rw [if_pos heq, heq, gaps?_pieces, Option.bind_some, read?_words]
    · rw [if_neg heq, gaps?_of_ne heq, Option.bind_none]
  simp only [hkind]
  cases entry <;> rfl

end Entry

/-- What an event says about the objects of an arena. -/
def Event.entry? : Event → Option Entry
  | .allocated start cls words => some (.allocated start cls words)
  | .relocated source target old new => some (.relocated source target old new)
  | .listGrown old new => some (.listGrown old new)
  | .reset used => some (.reset used)
  | .exhausted used requested capacity =>
    some (.full (Size.reported used requested) used requested capacity)
  | _ => none

/-! ### Lines as they are written -/

theorem toList_join (texts : List String) :
    (String.join texts).toList = texts.flatMap String.toList := by
  have hfrom (front : String) :
      (texts.foldl (· ++ ·) front).toList = front.toList ++ texts.flatMap String.toList := by
    induction texts generalizing front with
    | nil => simp
    | cons text rest ih => simp [ih]
  exact hfrom ""

/-- The text of a line, by the parts it is made from. -/
theorem Event.toList_line {e : Event} (level target message : String)
    (fields : List (String × String)) (hlevel : e.level.label = level) (htarget : e.target = target)
    (hmessage : e.message = message) (hfields : e.fields = fields) :
    e.line.toList =
      level.toList ++ (" ".toList ++ (target.toList ++ (": ".toList ++ (message.toList ++
        fields.flatMap fun (key, value) =>
          " ".toList ++ (key.toList ++ ("=".toList ++ value.toList)))))) := by
  subst hlevel htarget hmessage hfields
  rw [line]
  simp only [String.toList_append, List.append_assoc, toList_join, List.flatMap_map]

/-- **A line about the objects has the pieces of its kind, and the words of what is said.** -/
theorem Event.toList_line_of_entry {e : Event} {entry : Entry} (hentry : e.entry? = some entry) :
    e.line.toList = gapped entry.kind.pieces entry.words := by
  cases e with
  | allocated start cls words =>
    cases hentry
    rw [toList_line "TRACE" "mbvm_core::arena" "allocate" [("at", Numeral.decimal start),
      ("class", cls.describe), ("payload_words", Numeral.decimal words)] rfl rfl rfl rfl]
    simp [gapped, Entry.kind, LineKind.pieces, Entry.words]
  | relocated source target old new =>
    cases hentry
    rw [toList_line "DEBUG" "mbvm_core::arena" "object relocated" [("from", Numeral.decimal source),
      ("to", Numeral.decimal target), ("old_words", Numeral.decimal old),
      ("new_payload_words", Numeral.decimal new)] rfl rfl rfl rfl]
    simp [gapped, Entry.kind, LineKind.pieces, Entry.words]
  | listGrown old new =>
    cases hentry
    rw [toList_line "TRACE" "mbvm_runtime::list_ops" "list grown"
      [("old_capacity", Numeral.decimal old), ("new_capacity", Numeral.decimal new)]
      rfl rfl rfl rfl]
    simp [gapped, Entry.kind, LineKind.pieces, Entry.words]
  | reset used =>
    cases hentry
    rw [toList_line "DEBUG" "mbvm_core::arena" "arena reset" [("used", Numeral.decimal used)]
      rfl rfl rfl rfl]
    simp [gapped, Entry.kind, LineKind.pieces, Entry.words]
  | exhausted used requested capacity =>
    cases hentry
    rw [toList_line "ERROR" "mbvm_core::arena"
      ("out of memory: " ++ Stop.usage (Size.reported used requested) capacity)
      [("used", Numeral.decimal used), ("requested", Numeral.decimal requested),
        ("capacity", Numeral.decimal capacity)] rfl rfl rfl rfl]
    simp [gapped, Entry.kind, LineKind.pieces, Entry.words, Stop.usage, toString]
  | _ => cases hentry

/-- A line about something else has the pieces of no kind. -/
theorem Event.gaps?_line {e : Event} (hentry : e.entry? = none) (kind : LineKind) :
    gaps? kind.pieces e.line.toList = none := by
  cases e with
  | sizeClamped requested limit =>
    rw [toList_line "WARN" "mbvm_core::arena" "arena size clamped"
      [("requested", Numeral.decimal requested), ("max", Numeral.decimal limit)] rfl rfl rfl rfl]
    cases kind <;> simp [LineKind.pieces, gaps?]
  | initialized words =>
    rw [toList_line "DEBUG" "mbvm_core::arena" "arena initialized"
      [("words", Numeral.decimal words)] rfl rfl rfl rfl]
    cases kind <;> simp [LineKind.pieces, gaps?]
  | primitiveFailed name failure =>
    rw [toList_line "DEBUG" "mbvm_runtime::primitives" ("primitive failed: " ++ failure.message)
      [("primitive", Quoted.encode name), ("code", Numeral.decimal failure.code)] rfl rfl rfl rfl]
    cases kind <;> simp [LineKind.pieces, gaps?]
  | seeded seed =>
    rw [toList_line "DEBUG" "mbvm_runtime::context" "random selector seeded"
      [("seed", Numeral.decimal seed)] rfl rfl rfl rfl]
    cases kind <;> simp [LineKind.pieces, gaps?]
  | arenaWordsIgnored value =>
    rw [toList_line "WARN" "mbvm_core::config" "MBVM_ARENA_WORDS not usable, using default"
      [("value", value)] rfl rfl rfl rfl]
    cases kind <;> simp [LineKind.pieces, gaps?]
  | actionIgnored value =>
    rw [toList_line "WARN" "mbvm_core::config" "MBVM_EXHAUSTION_ACTION not recognized, using exit"
      [("value", value)] rfl rfl rfl rfl]
    cases kind <;> simp [LineKind.pieces, gaps?]
  | _ => cases hentry

namespace Entry

/-- **A line says what its event says**, and nothing if that is about no objects. -/
theorem ofLine?_line (e : Event) : ofLine? e.line = e.entry? := by
  cases hentry : e.entry? with
  | some entry =>
    rw [ofLine?, e.toList_line_of_entry hentry]
    exact findSome?_kind entry
  | none =>
    rw [ofLine?]
    simp only [e.gaps?_line hentry, Option.bind_none]
    rfl

end Entry

end ObjectMemory
