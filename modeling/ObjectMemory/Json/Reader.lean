import ObjectMemory.Text.Numeral

/-!
# Reading JSON

A text is read into a `Json` value. The value keeps no more than the settings and statistics
need: a number that is not a plain row of digits is only known to be a number, and a string that
escapes half of a surrogate pair is only known to be a string. Such values may stand wherever
they are ignored.

## Why the reading ends

Each step of the grammar is given the number of characters that may still be read, which is at
first the length of the text. Nested values and further items get one less.
-/

namespace ObjectMemory

/-- What a JSON text says. -/
inductive Json where
  | null
  | bool (b : Bool)
  /-- A plain row of digits. -/
  | natural (n : Nat)
  /-- A number with a sign, a fraction or an exponent. -/
  | number
  /-- A string, unless it escapes half of a surrogate pair. -/
  | string (text : Option String)
  | array (items : List Json)
  | object (members : List (Option String × Json))
  deriving Repr, Inhabited

namespace Json

/-- White space between tokens. -/
def isSpace (c : Char) : Bool :=
  c = ' ' || c = '\t' || c = '\n' || c = '\r'

/-- The text after white space. -/
def skip (cs : List Char) : List Char :=
  cs.dropWhile isSpace

/-! ## Strings -/

/-- The value of four hexadecimal digits. -/
def hexQuad? (a b c d : Char) : Option Nat := do
  let a ← Numeral.hexValue? a
  let b ← Numeral.hexValue? b
  let c ← Numeral.hexValue? c
  let d ← Numeral.hexValue? d
  return ((a * 16 + b) * 16 + c) * 16 + d

/-- The character that a letter after a backslash stands for. -/
def escaped? : Char → Option Char
  | '"' => some '"'
  | '\\' => some '\\'
  | '/' => some '/'
  | 'b' => some (Char.ofNat 8)
  | 'f' => some (Char.ofNat 12)
  | 'n' => some '\n'
  | 'r' => some '\r'
  | 't' => some '\t'
  | _ => none

/-- A piece of a string between quotes. -/
inductive Piece where
  /-- A character, written as it is or by a letter after a backslash. -/
  | plain (c : Char)
  /-- A 16-bit number, written with four hexadecimal digits. -/
  | unit (n : Nat)
  deriving DecidableEq, Repr

/-- The pieces of a string up to the closing quote, and the text after it. -/
def readPieces : List Char → Option (List Piece × List Char)
  | [] => none
  | '"' :: rest => some ([], rest)
  | '\\' :: 'u' :: a :: b :: c :: d :: rest => do
    let n ← hexQuad? a b c d
    let (pieces, rest) ← readPieces rest
    return (.unit n :: pieces, rest)
  | '\\' :: c :: rest => do
    let c ← escaped? c
    let (pieces, rest) ← readPieces rest
    return (.plain c :: pieces, rest)
  | c :: rest =>
    if c.toNat < 32 ∨ c = '\\' then none
    else do
      let (pieces, rest) ← readPieces rest
      return (.plain c :: pieces, rest)

/-- Is this the first half of a surrogate pair? -/
def isHigh (n : Nat) : Bool :=
  0xD800 ≤ n && n ≤ 0xDBFF

/-- Is this the second half of a surrogate pair? -/
def isLow (n : Nat) : Bool :=
  0xDC00 ≤ n && n ≤ 0xDFFF

/-- The character that a surrogate pair stands for. -/
def pairChar (high low : Nat) : Char :=
  Char.ofNat (0x10000 + (high - 0xD800) * 1024 + (low - 0xDC00))

/-- The characters of a row of pieces, unless half of a surrogate pair is among them. -/
def unite : List Piece → Option (List Char)
  | [] => some []
  | .plain c :: rest => (unite rest).map (c :: ·)
  | .unit n :: .unit m :: rest =>
    if isHigh n && isLow m then (unite rest).map (pairChar n m :: ·)
    else if isHigh n || isLow n then none
    else (unite (.unit m :: rest)).map (Char.ofNat n :: ·)
  | .unit n :: rest =>
    if isHigh n || isLow n then none else (unite rest).map (Char.ofNat n :: ·)

/-- The content of a string up to the closing quote, and the text after it. The content is
missing if it has half of a surrogate pair. -/
def readString (cs : List Char) : Option (Option String × List Char) :=
  (readPieces cs).map fun (pieces, rest) => ((unite pieces).map String.ofList, rest)

/-! ## Numbers -/

/-- A row of digits and what follows it. -/
def digitRun (cs : List Char) : List Char × List Char :=
  (cs.takeWhile Numeral.isDigit, cs.dropWhile Numeral.isDigit)

/-- The whole part of a number: a single 0, or digits that do not start with 0. -/
def readWhole (cs : List Char) : Option (List Char × List Char) :=
  match digitRun cs with
  | (['0'], rest) => some (['0'], rest)
  | ('0' :: _, _) | ([], _) => none
  | run => some run

/-- What follows an optional fraction, and whether there was one. -/
def readFraction : List Char → Option (Bool × List Char)
  | '.' :: rest =>
    match digitRun rest with
    | ([], _) => none
    | (_, rest) => some (true, rest)
  | rest => some (false, rest)

/-- What follows an optional exponent, and whether there was one. -/
def readExponent : List Char → Option (Bool × List Char)
  | c :: rest =>
    if c = 'e' ∨ c = 'E' then
      let unsigned := match rest with
        | '+' :: more | '-' :: more => more
        | more => more
      match digitRun unsigned with
      | ([], _) => none
      | (_, rest) => some (true, rest)
    else some (false, c :: rest)
  | [] => some (false, [])

/-- A number without a sign. -/
def readUnsigned (cs : List Char) : Option (Json × List Char) := do
  let (whole, rest) ← readWhole cs
  let (fraction, rest) ← readFraction rest
  let (exponent, rest) ← readExponent rest
  return (if fraction || exponent then number else natural (Numeral.value whole), rest)

/-- A number. -/
def readNumber : List Char → Option (Json × List Char)
  | '-' :: rest => (readUnsigned rest).map fun (_, rest) => (number, rest)
  | cs => readUnsigned cs

/-! ## Values -/

mutual

/-- A value at the front of a text, and the text after it. -/
def readValue : Nat → List Char → Option (Json × List Char)
  | 0, _ => none
  | fuel + 1, cs =>
    match skip cs with
    | 'n' :: 'u' :: 'l' :: 'l' :: rest => some (null, rest)
    | 't' :: 'r' :: 'u' :: 'e' :: rest => some (bool true, rest)
    | 'f' :: 'a' :: 'l' :: 's' :: 'e' :: rest => some (bool false, rest)
    | '"' :: rest => (readString rest).map fun (text, rest) => (string text, rest)
    | '[' :: rest =>
      match skip rest with
      | ']' :: rest => some (array [], rest)
      | rest => (readItems fuel rest).map fun (items, rest) => (array items, rest)
    | '{' :: rest =>
      match skip rest with
      | '}' :: rest => some (object [], rest)
      | rest => (readMembers fuel rest).map fun (members, rest) => (object members, rest)
    | rest => readNumber rest

/-- One or more values between commas, up to the closing bracket. -/
def readItems : Nat → List Char → Option (List Json × List Char)
  | 0, _ => none
  | fuel + 1, cs => do
    let (item, rest) ← readValue fuel cs
    match skip rest with
    | ']' :: rest => return ([item], rest)
    | ',' :: rest =>
      let (items, rest) ← readItems fuel rest
      return (item :: items, rest)
    | _ => none

/-- One or more members between commas, up to the closing brace. -/
def readMembers : Nat → List Char → Option (List (Option String × Json) × List Char)
  | 0, _ => none
  | fuel + 1, cs =>
    match skip cs with
    | '"' :: rest => do
      let (key, rest) ← readString rest
      match skip rest with
      | ':' :: rest =>
        let (value, rest) ← readValue fuel rest
        match skip rest with
        | '}' :: rest => return ([(key, value)], rest)
        | ',' :: rest =>
          let (members, rest) ← readMembers fuel rest
          return ((key, value) :: members, rest)
        | _ => none
      | _ => none
    | _ => none

end

/-- The value of a text that holds one value and nothing else but white space. -/
def ofText? (text : String) : Option Json :=
  match readValue (text.length + 1) text.toList with
  | some (value, rest) => if skip rest = [] then some value else none
  | none => none

/-! ## Fields -/

/-- The number of a value that is a plain row of digits and fits into 64 bits. -/
def uint64? : Json → Option Nat
  | natural n => if n ≤ Numeral.maxUInt64 then some n else none
  | _ => none

/-- The members of a record that are known by `names`, in the order in which they stand. Unknown
members are passed over; a key that is no text, or a known key given twice, is refused. -/
def known? (names : List String) : List (Option String × Json) → Option (List (String × Json))
  | [] => some []
  | (none, _) :: _ => none
  | (some key, value) :: rest => do
    let more ← known? names rest
    if names.contains key then
      if more.any (·.1 == key) then none else return (key, value) :: more
    else return more

/-- The fields of a record, from an object or from an array in the order of `names`. -/
def fields? (names : List String) : Json → Option (List (String × Json))
  | object members => known? names members
  | array items => if items.length ≤ names.length then some (names.zip items) else none
  | _ => none

end Json

end ObjectMemory
