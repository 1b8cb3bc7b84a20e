/-
  SchemaTypings.Json.Parser

  Reading JSON text, strictly: no comments, no trailing commas, no raw controls in strings, nothing
  behind the value.  The names of infinity and of what is no number are read as well.
-/
import SchemaTypings.Json.Basic

namespace SchemaTypings.Json

/-- Why a text is not read. -/
inductive ParseError where
  /-- The text breaks the grammar. -/
  | malformed
  /-- An integer has more digits than are read. -/
  | numeralTooLong
deriving DecidableEq

/-- A reader takes characters from the front of the text and gives a result with the rest. -/
abbrev Reader (α : Type) := List Char → Except ParseError (α × List Char)

/-! ## Blanks and numbers -/

/-- The characters that may stand between the parts of a value. -/
def isSpace (c : Char) : Bool := c = ' ' || c = '\t' || c = '\n' || c = '\r'

/-- The text without spaces in front. -/
def skipSpaces (cs : List Char) : List Char := cs.dropWhile isSpace

/-- The number that decimal digits stand for. -/
def ofDigits (ds : List Char) : Nat := ds.foldl (fun n d => 10 * n + (d.toNat - '0'.toNat)) 0

/-- Digits of a whole part: a zero alone, or digits that do not begin with zero. -/
def wholeDigits : List Char → List Char × List Char
  | '0' :: rest => (['0'], rest)
  | cs => (cs.takeWhile Char.isDigit, cs.dropWhile Char.isDigit)

/-- A point with digits behind it; without them nothing is taken. -/
def fractionDigits : List Char → List Char × List Char
  | '.' :: rest =>
    match rest.takeWhile Char.isDigit with
    | [] => ([], '.' :: rest)
    | ds => (ds, rest.dropWhile Char.isDigit)
  | cs => ([], cs)

/-- An exponent with its sign and digits; without digits nothing is taken. -/
def exponentPart : List Char → Option Int × List Char
  | c :: rest =>
    if c = 'e' ∨ c = 'E' then
      let (negative, ds) :=
        match rest with
        | '-' :: ds => (true, ds)
        | '+' :: ds => (false, ds)
        | ds => (false, ds)
      match ds.takeWhile Char.isDigit with
      | [] => (none, c :: rest)
      | digits =>
        let size : Int := ofDigits digits
        (some (if negative then -size else size), ds.dropWhile Char.isDigit)
    else (none, c :: rest)
  | [] => (none, [])

/-- A number behind its sign: an integer, or a float if it has a fraction or an exponent. -/
def unsignedNumber (negative : Bool) : Reader Json := fun cs =>
  match wholeDigits cs with
  | ([], _) => .error .malformed
  | (whole, rest) =>
    let (fraction, rest) := fractionDigits rest
    let (exponent?, rest) := exponentPart rest
    if fraction.isEmpty ∧ exponent?.isNone then
      if whole.length > maxIntegerDigits then .error .numeralTooLong
      else
        let n : Int := ofDigits whole
        .ok (.int (if negative then -n else n), rest)
    else
      .ok (.float (Binary64.ofDecimal negative (ofDigits (whole ++ fraction))
        (exponent?.getD 0 - fraction.length)), rest)

/-! ## Strings -/

/-- The value of a hexadecimal digit in either case. -/
def hexValue? (c : Char) : Option Nat :=
  if '0' ≤ c ∧ c ≤ '9' then some (c.toNat - '0'.toNat)
  else if 'a' ≤ c ∧ c ≤ 'f' then some (c.toNat - 'a'.toNat + 10)
  else if 'A' ≤ c ∧ c ≤ 'F' then some (c.toNat - 'A'.toNat + 10)
  else none

/-- The number that four hexadecimal digits stand for. -/
def hexValue4? (a b c d : Char) : Option Nat := do
  return (((← hexValue? a) * 16 + (← hexValue? b)) * 16 + (← hexValue? c)) * 16 + (← hexValue? d)

/-- The character that a one-letter escape stands for. -/
def escaped? : Char → Option Char
  | '"' => some '"'
  | '\\' => some '\\'
  | '/' => some '/'
  | 'b' => some '\x08'
  | 'f' => some '\x0c'
  | 'n' => some '\n'
  | 'r' => some '\r'
  | 't' => some '\t'
  | _ => none

/-- The code points and escaped UTF-16 units of a string, up to its closing quote. -/
def stringUnits : Reader (List Nat)
  | [] => .error .malformed
  | '"' :: rest => .ok ([], rest)
  | '\\' :: 'u' :: a :: b :: c :: d :: rest =>
    match hexValue4? a b c d with
    | some n => (stringUnits rest).map fun (units, rest) => (n :: units, rest)
    | none => .error .malformed
  | '\\' :: e :: rest =>
    match escaped? e with
    | some c => (stringUnits rest).map fun (units, rest) => (c.toNat :: units, rest)
    | none => .error .malformed
  | c :: rest =>
    if c.toNat < 0x20 ∨ c = '\\' then .error .malformed
    else (stringUnits rest).map fun (units, rest) => (c.toNat :: units, rest)

/-- Whether a unit is the first of a pair. -/
def isHighUnit (n : Nat) : Bool := 0xD800 ≤ n && n < 0xDC00

/-- Whether a unit is the second of a pair. -/
def isLowUnit (n : Nat) : Bool := 0xDC00 ≤ n && n < 0xE000

/-- The character of a code point; a unit that lacks its partner has none and is replaced. -/
def charOfUnit (n : Nat) : Char := if isHighUnit n || isLowUnit n then '\uFFFD' else Char.ofNat n

/-- The characters of units, of which two that belong together make one. -/
def charsOfUnits : List Nat → List Char
  | [] => []
  | [n] => [charOfUnit n]
  | high :: low :: rest =>
    if isHighUnit high && isLowUnit low then
      Char.ofNat (0x10000 + (high - 0xD800) * 0x400 + (low - 0xDC00)) :: charsOfUnits rest
    else charOfUnit high :: charsOfUnits (low :: rest)

/-- A string behind its opening quote. -/
def stringBody : Reader String := fun cs =>
  (stringUnits cs).map fun (units, rest) => (String.ofList (charsOfUnits units), rest)

/-! ## Values -/

mutual
/-- A value.  The first argument bounds the nesting; a text's length is always enough. -/
def readValue : Nat → Reader Json
  | 0, _ => .error .malformed
  | depth + 1, cs =>
    match cs with
    | '"' :: rest => (stringBody rest).map fun (s, rest) => (.str s, rest)
    | '[' :: rest =>
      match skipSpaces rest with
      | ']' :: rest => .ok (.arr [], rest)
      | rest => (readItems depth rest).map fun (items, rest) => (.arr items, rest)
    | '\x7b' :: rest =>
      match skipSpaces rest with
      | '\x7d' :: rest => .ok (.obj [], rest)
      | rest => (readEntries depth [] rest).map fun (entries, rest) => (.obj entries, rest)
    | 'n' :: 'u' :: 'l' :: 'l' :: rest => .ok (.null, rest)
    | 't' :: 'r' :: 'u' :: 'e' :: rest => .ok (.bool true, rest)
    | 'f' :: 'a' :: 'l' :: 's' :: 'e' :: rest => .ok (.bool false, rest)
    | 'N' :: 'a' :: 'N' :: rest => .ok (.float Binary64.nan, rest)
    | 'I' :: 'n' :: 'f' :: 'i' :: 'n' :: 'i' :: 't' :: 'y' :: rest =>
      .ok (.float (Binary64.infinity false), rest)
    | '-' :: 'I' :: 'n' :: 'f' :: 'i' :: 'n' :: 'i' :: 't' :: 'y' :: rest =>
      .ok (.float (Binary64.infinity true), rest)
    | '-' :: rest => unsignedNumber true rest
    | rest => unsignedNumber false rest

/-- The members of a list, at least one, and the closing bracket. -/
def readItems : Nat → Reader (List Json)
  | 0, _ => .error .malformed
  | depth + 1, cs =>
    match readValue depth cs with
    | .error e => .error e
    | .ok (item, rest) =>
      match skipSpaces rest with
      | ']' :: rest => .ok ([item], rest)
      | ',' :: rest =>
        (readItems depth (skipSpaces rest)).map fun (items, rest) => (item :: items, rest)
      | _ => .error .malformed

/-- The entries of an object, at least one, put into those before, and the closing brace. -/
def readEntries : Nat → List (String × Json) → Reader (List (String × Json))
  | 0, _, _ => .error .malformed
  | depth + 1, before, cs =>
    match cs with
    | '"' :: rest =>
      match stringBody rest with
      | .error e => .error e
      | .ok (key, rest) =>
        match skipSpaces rest with
        | ':' :: rest =>
          match readValue depth (skipSpaces rest) with
          | .error e => .error e
          | .ok (value, rest) =>
            match skipSpaces rest with
            | '\x7d' :: rest => .ok (Entries.insert before key value, rest)
            | ',' :: rest =>
              readEntries depth (Entries.insert before key value) (skipSpaces rest)
            | _ => .error .malformed
        | _ => .error .malformed
    | _ => .error .malformed
end

/-- The value that a whole text stands for. -/
def parseChars (cs : List Char) : Except ParseError Json :=
  match readValue (2 * cs.length + 2) (skipSpaces cs) with
  | .error e => .error e
  | .ok (value, rest) => if (skipSpaces rest).isEmpty then .ok value else .error .malformed

/-- The value that a text stands for. -/
def parse (text : String) : Except ParseError Json := parseChars text.toList

end SchemaTypings.Json
