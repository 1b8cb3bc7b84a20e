/-
  SchemaTypings.Json.Printer

  JSON text: on one line with a space after each comma and colon and characters beyond ASCII as they
  are, and, for a flat record of strings, one entry a line in pure ASCII.
-/
import SchemaTypings.Fault
import SchemaTypings.Json.Basic
import SchemaTypings.Number.Text
import SchemaTypings.Text.Case

namespace SchemaTypings.Json

/-! ## Strings -/

/-- The lower-case hexadecimal digits of a number, padded with zeros to a width. -/
def hexDigits (width n : Nat) : List Char := FloatFormat.padZeros width (Nat.toDigits 16 n)

/-- A UTF-16 unit as an escape of four hexadecimal digits. -/
def escapeUnit (n : Nat) : List Char := '\\' :: 'u' :: hexDigits 4 n

/-- A character inside a JSON string. -/
def escapeChar (c : Char) : List Char :=
  if c = '"' then ['\\', '"']
  else if c = '\\' then ['\\', '\\']
  else if c = '\n' then ['\\', 'n']
  else if c = '\r' then ['\\', 'r']
  else if c = '\t' then ['\\', 't']
  else if c = '\x08' then ['\\', 'b']
  else if c = '\x0c' then ['\\', 'f']
  else if c.toNat < 0x20 then escapeUnit c.toNat
  else [c]

/-- A character inside a JSON string of printable ASCII characters only; one beyond the basic plane
becomes a pair of UTF-16 units. -/
def escapeAsciiChar (c : Char) : List Char :=
  let n := c.toNat
  if n < 0x7F then escapeChar c
  else if n < 0x10000 then escapeUnit n
  else escapeUnit (0xD800 + (n - 0x10000) / 0x400) ++ escapeUnit (0xDC00 + (n - 0x10000) % 0x400)

/-- A JSON string. -/
def quoted (cs : List Char) : List Char := '"' :: cs.flatMap escapeChar ++ ['"']

/-- A JSON string of printable ASCII characters only. -/
def quotedAscii (cs : List Char) : List Char := '"' :: cs.flatMap escapeAsciiChar ++ ['"']

/-! ## Values -/

mutual
/-- The characters of a value's JSON text. -/
def chars : Json → List Char
  | .null => ['n', 'u', 'l', 'l']
  | .bool true => ['t', 'r', 'u', 'e']
  | .bool false => ['f', 'a', 'l', 's', 'e']
  | .int n => intChars n
  | .float x => FloatFormat.json.chars x
  | .str s => quoted s.toList
  | .arr items => '[' :: itemChars items ++ [']']
  | .obj entries => '\x7b' :: entryChars entries ++ ['\x7d']

/-- The members of a list, with a comma and a space between them. -/
def itemChars : List Json → List Char
  | [] => []
  | [item] => item.chars
  | item :: next :: rest => item.chars ++ ',' :: ' ' :: itemChars (next :: rest)

/-- The entries of an object, with a comma and a space between them. -/
def entryChars : List (String × Json) → List Char
  | [] => []
  | [entry] => pairChars entry
  | entry :: next :: rest => pairChars entry ++ ',' :: ' ' :: entryChars (next :: rest)

/-- A key, a colon, a space and the value. -/
def pairChars : String × Json → List Char
  | (key, value) => quoted key.toList ++ ':' :: ' ' :: value.chars
end

/-- The JSON text of a value with integers of any size. -/
def text (j : Json) : String := String.ofList j.chars

/-- The JSON text of a value, if its integers are not too long. -/
def written (j : Json) : Except Fault String :=
  if j.isWritable then .ok j.text else .error .numeralTooLong

/-! ## Records -/

/-- The lines of a record's entries, each but the last ending in a comma. -/
def recordLines : List (String × String) → List Char
  | [] => []
  | [(key, value)] => "  ".toList ++ quotedAscii key.toList ++ ':' :: ' ' ::
      quotedAscii value.toList ++ ['\n']
  | (key, value) :: next :: rest => "  ".toList ++ quotedAscii key.toList ++ ':' :: ' ' ::
      quotedAscii value.toList ++ ',' :: '\n' :: recordLines (next :: rest)

/-- A record of strings as an object with one entry a line, in ASCII. -/
def recordText (entries : List (String × String)) : String :=
  String.ofList ('\x7b' :: '\n' :: recordLines entries ++ ['\x7d'])

end SchemaTypings.Json
