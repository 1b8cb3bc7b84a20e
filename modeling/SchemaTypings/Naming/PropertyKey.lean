/-
  SchemaTypings.Naming.PropertyKey

  Property keys: an identifier stands bare, any other name as a string literal.
-/
import SchemaTypings.Naming.Words
import SchemaTypings.Json.Printer

namespace SchemaTypings.Naming

/-- A character inside a string literal with the given quote. -/
def escapeKeyChar (quote : List Char) (c : Char) : List Char :=
  if [c] = quote then '\\' :: quote
  else if c = '\\' then ['\\', '\\']
  else if c = '\n' then ['\\', 'n']
  else if c = '\r' then ['\\', 'r']
  else if c = '\t' then ['\\', 't']
  else if c = '\x08' then ['\\', 'b']
  else if c = '\x0c' then ['\\', 'f']
  else if c = '\x0b' then ['\\', 'v']
  else if c = '\u2028' then ['\\', 'u', '2', '0', '2', '8']
  else if c = '\u2029' then ['\\', 'u', '2', '0', '2', '9']
  else if c.toNat < 0x20 ∨ c.toNat = 0x7F then '\\' :: 'x' :: Json.hexDigits 2 c.toNat
  else [c]

/-- The characters of a property key. -/
def propertyKeyChars (quote name : List Char) : List Char :=
  if isIdentifier name then name else quote ++ name.flatMap (escapeKeyChar quote) ++ quote

/-- The key of a property with this name. -/
def propertyKey (name : String) (quote : String := "'") : String :=
  String.ofList (propertyKeyChars quote.toList name.toList)

end SchemaTypings.Naming
