import ObjectMemory.Text.Numeral

/-!
# Writing JSON

Records are written as objects with no white space. Their values are scalars.
-/

namespace ObjectMemory.Json

/-- A value without parts. -/
inductive Scalar where
  | null
  | bool (b : Bool)
  | int (n : Int)
  | text (s : String)
  deriving DecidableEq, Repr

/-- The written form of one character of a string. -/
def encodeChar (c : Char) : List Char :=
  if c = '"' then ['\\', '"']
  else if c = '\\' then ['\\', '\\']
  else if c = '\n' then ['\\', 'n']
  else if c = '\r' then ['\\', 'r']
  else if c = '\t' then ['\\', 't']
  else if c.toNat = 8 then ['\\', 'b']
  else if c.toNat = 12 then ['\\', 'f']
  else if c.toNat < 16 then ['\\', 'u', '0', '0', '0', Numeral.digitChar c.toNat]
  else if c.toNat < 32 then ['\\', 'u', '0', '0', '1', Numeral.digitChar (c.toNat - 16)]
  else [c]

/-- A string between quotes. -/
def quote (text : String) : List Char :=
  '"' :: text.toList.flatMap encodeChar ++ ['"']

namespace Scalar

/-- The written form of a scalar. -/
def write : Scalar → List Char
  | null => "null".toList
  | bool true => "true".toList
  | bool false => "false".toList
  | int n => (Numeral.signed n).toList
  | text s => quote s

end Scalar

/-- A key with its value. -/
def writeMember (key : String) (value : Scalar) : List Char :=
  quote key ++ ':' :: value.write

/-- Members between commas, then the closing brace. -/
def writeMembers : List (String × Scalar) → List Char
  | [] => ['}']
  | [(key, value)] => writeMember key value ++ ['}']
  | (key, value) :: rest => writeMember key value ++ ',' :: writeMembers rest

/-- An object with the given members. -/
def writeObject (members : List (String × Scalar)) : String :=
  String.ofList ('{' :: writeMembers members)

end ObjectMemory.Json
