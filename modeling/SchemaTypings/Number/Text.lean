/-
  SchemaTypings.Number.Text

  How a number is written: integers in full, doubles with the fewest digits that read back,
  positionally while the exponent is small and in scientific form beyond.
-/
import SchemaTypings.Number.Shortest
import SchemaTypings.Text.Blank

namespace SchemaTypings

/-- The decisions of a float format. -/
structure FloatFormat where
  /-- The least exponent that is written positionally. -/
  leastPositional : Int
  /-- The greatest exponent that is written positionally. -/
  greatestPositional : Int
  /-- The least number of exponent digits. -/
  exponentDigits : Nat
  infinityText : List Char
  notANumberText : List Char

/-- Floats in JSON text: positional from `10 ^ -4` to below `10 ^ 16`, always with a fraction or an
exponent, and at least two exponent digits. -/
def FloatFormat.json : FloatFormat :=
  ⟨-4, 15, 2, "Infinity".toList, "NaN".toList⟩

/-- Floats in messages differ from JSON text in the names of infinity and of what is no number. -/
def FloatFormat.display : FloatFormat :=
  { FloatFormat.json with infinityText := "inf".toList, notANumberText := "nan".toList }

namespace FloatFormat

/-- Zeros in front, up to a width. -/
def padZeros (width : Nat) (digits : List Char) : List Char :=
  List.replicate (width - digits.length) '0' ++ digits

/-- Digits with a point after the one of weight `10 ^ leading`, and a zero where no digit is. -/
def positional (digits : List Char) (leading : Int) : List Char :=
  if leading < 0 then
    "0.".toList ++ List.replicate ((-leading).toNat - 1) '0' ++ digits
  else
    let whole := leading.toNat + 1
    let fraction := digits.drop whole
    digits.take whole ++ List.replicate (whole - digits.length) '0' ++ '.' ::
      (if fraction.isEmpty then ['0'] else fraction)

/-- One digit, the others behind a point, and the exponent with its sign. -/
def scientific (f : FloatFormat) (digits : List Char) (leading : Int) : List Char :=
  let mantissa :=
    match digits with
    | first :: second :: rest => first :: '.' :: second :: rest
    | _ => digits
  mantissa ++ 'e' :: (if leading < 0 then '-' else '+') ::
    padZeros f.exponentDigits (Nat.toDigits 10 leading.natAbs)

/-- The text of a decimal that is not zero. -/
def decimal (f : FloatFormat) (d : Decimal) : List Char :=
  let all := Nat.toDigits 10 d.digits
  let leading : Int := d.exponent + all.length - 1
  let digits := Text.dropEndWhile (· = '0') all
  if f.leastPositional ≤ leading ∧ leading ≤ f.greatestPositional then positional digits leading
  else f.scientific digits leading

/-- The text of a double. -/
def chars (f : FloatFormat) (x : Binary64) : List Char :=
  let sign := if x.isNegative then ['-'] else []
  match x.magnitude with
  | .notANumber => f.notANumberText
  | .infinite => sign ++ f.infinityText
  | .finite 0 _ => sign ++ "0.0".toList
  | .finite significand exponent => sign ++ f.decimal (Shortest.decimal significand exponent)

end FloatFormat

/-- The decimal digits of an integer, with a sign if it is negative. -/
def intChars (n : Int) : List Char :=
  if n < 0 then '-' :: Nat.toDigits 10 n.natAbs else Nat.toDigits 10 n.natAbs

/-- The text of an integer. -/
def intText (n : Int) : String := String.ofList (intChars n)

/-- The text of a natural number. -/
def natText (n : Nat) : String := String.ofList (Nat.toDigits 10 n)

end SchemaTypings
