/-
  SchemaTypings.Json.Display

  Values and strings as messages show them: single quotes where possible, escapes for what cannot be
  seen, and names of their own for null and the truth values.
-/
import SchemaTypings.Json.Printer
import SchemaTypings.Text.Class

namespace SchemaTypings

namespace Text

/-- A character of a shown string, inside the quote that is in use. -/
def showChar (quote c : Char) : List Char :=
  if c = quote || c = '\\' then ['\\', c]
  else if c = '\n' then ['\\', 'n']
  else if c = '\r' then ['\\', 'r']
  else if c = '\t' then ['\\', 't']
  else if isPrintable c then [c]
  else if c.toNat < 0x100 then '\\' :: 'x' :: Json.hexDigits 2 c.toNat
  else if c.toNat < 0x10000 then '\\' :: 'u' :: Json.hexDigits 4 c.toNat
  else '\\' :: 'U' :: Json.hexDigits 8 c.toNat

/-- A string in single quotes, or in double quotes if it holds a single one and no double one. -/
def showQuoted (cs : List Char) : List Char :=
  let quote := if '\'' ∈ cs ∧ '"' ∉ cs then '"' else '\''
  quote :: cs.flatMap (showChar quote) ++ [quote]

/-- A string as messages show it. -/
def shown (s : String) : String := String.ofList (showQuoted s.toList)

end Text

namespace Json

mutual
/-- The characters of a value as messages show it. -/
def shownChars : Json → List Char
  | .null => "None".toList
  | .bool true => "True".toList
  | .bool false => "False".toList
  | .int n => intChars n
  | .float x => FloatFormat.display.chars x
  | .str s => Text.showQuoted s.toList
  | .arr items => '[' :: shownItems items ++ [']']
  | .obj entries => '\x7b' :: shownEntries entries ++ ['\x7d']

/-- The members of a shown list. -/
def shownItems : List Json → List Char
  | [] => []
  | [item] => item.shownChars
  | item :: next :: rest => item.shownChars ++ ',' :: ' ' :: shownItems (next :: rest)

/-- The entries of a shown object. -/
def shownEntries : List (String × Json) → List Char
  | [] => []
  | [entry] => shownPair entry
  | entry :: next :: rest => shownPair entry ++ ',' :: ' ' :: shownEntries (next :: rest)

/-- An entry of a shown object. -/
def shownPair : String × Json → List Char
  | (key, value) => Text.showQuoted key.toList ++ ':' :: ' ' :: value.shownChars
end

/-- A value as messages show it. -/
def shown (j : Json) : String := String.ofList j.shownChars

/-- A value with integers of any size in running text: a string stands bare, any other value as
messages show it. -/
def plain : Json → String
  | .str s => s
  | j => j.shown

/-- A value in running text, if its integers are not too long. -/
def said (j : Json) : Except Fault String :=
  if j.isWritable then .ok j.plain else .error .numeralTooLong

end Json
end SchemaTypings
