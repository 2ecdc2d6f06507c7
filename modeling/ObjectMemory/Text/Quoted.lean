import ObjectMemory.Text.Combining
import ObjectMemory.Text.Ignorable
import ObjectMemory.Text.Numeral
import ObjectMemory.Text.Unprintable

/-!
# Quoted text in a log line

A text that is the value of a field stands between double quotes. Quotes and backslashes get a
backslash before them, and line ends and tabs have names. The other characters that cannot be
seen as they are, because they are unprintable, have no shape or would be drawn on the character
before them, are written by number, such as `\u{7f}`.
-/

namespace ObjectMemory.Quoted

/-- Is the character not seen as it is? -/
def isHidden (c : Char) : Bool :=
  Unprintable.isUnprintable c || Ignorable.isIgnorable c || Combining.isCombining c

/-- The written form of one character between the quotes. -/
def encodeChar (c : Char) : List Char :=
  if c = '"' then ['\\', '"']
  else if c = '\\' then ['\\', '\\']
  else if c = '\n' then ['\\', 'n']
  else if c = '\r' then ['\\', 'r']
  else if c = '\t' then ['\\', 't']
  else if c.toNat = 0 then ['\\', '0']
  else if isHidden c then
    ['\\', 'u', '{'] ++ Numeral.digits 16 c.toNat ++ ['}']
  else [c]

/-- A text between double quotes. -/
def encode (text : String) : String :=
  String.ofList ('"' :: text.toList.flatMap encodeChar ++ ['"'])

/-- From the space up to the tilde, everything is seen. -/
theorem isHidden_ascii {c : Char} (hlo : 0x20 ≤ c.toNat) (hhi : c.toNat < 0x7F) :
    isHidden c = false := by
  rw [isHidden, Unprintable.isUnprintable_ascii hlo hhi, Ignorable.isIgnorable_of_lt (by omega),
    Combining.isCombining_of_lt (by omega)]
  rfl

end ObjectMemory.Quoted
