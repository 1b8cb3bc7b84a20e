/-
  SchemaTypings.Text.Class

  Classes of characters: letters and digits of all scripts, the digits that have a decimal value,
  and the characters that can be shown as they are.
-/
import SchemaTypings.Text.Case
import SchemaTypings.Text.ClassTable

namespace SchemaTypings.Text

/-- A letter, digit or numeral of any script. -/
def isAlphanumeric (c : Char) : Bool :=
  if isAscii c then c.isAlphanum else inBounds alphanumericBounds c.toNat

/-- A letter, digit or numeral of any script, or an underscore. -/
def isWordChar (c : Char) : Bool := isAlphanumeric c || c = '_'

/-- A digit of any script, raised and enclosed ones included. -/
def isAnyDigit (c : Char) : Bool :=
  if isAscii c then c.isDigit else inBounds digitBounds c.toNat

/-- The value of a decimal digit of any script; a raised or enclosed digit has none. -/
def decimalValue? (c : Char) : Option Nat :=
  if isAscii c then (if c.isDigit then some (c.toNat - '0'.toNat) else none)
  else (decimalZeros.find? fun first => first ≤ c.toNat && c.toNat < first + 10).map (c.toNat - ·)

/-- The number that a row of decimal digits of any scripts stands for. -/
def numberOfDigits? (cs : List Char) : Option Nat :=
  cs.foldl (fun value? c => do return 10 * (← value?) + (← decimalValue? c)) (some 0)

/-- Whether a character counts as part of a word in which a name is looked for. -/
def isNameChar (c : Char) : Bool :=
  isWordChar c || (!isAscii c && (inBounds markBounds c.toNat || inBounds leadingSignBounds c.toNat))

/-- A character that a name of any script holds: an underscore, a letter, a decimal digit or a mark,
and hardly any numeral. -/
def isNamePart (c : Char) : Bool :=
  isNameChar c && (isAscii c || !inBounds namelessBounds c.toNat)

/-- A character that a name of any script begins with. -/
def isNameStart (c : Char) : Bool :=
  isNamePart c && (decimalValue? c).isNone &&
    (isAscii c || !(inBounds markBounds c.toNat || inBounds laterLetterBounds c.toNat))

/-- A character with a visible form, or the plain space. -/
def isPrintable (c : Char) : Bool :=
  if isAscii c then 0x20 ≤ c.toNat && c.toNat < 0x7F else !inBounds unprintableBounds c.toNat

end SchemaTypings.Text
