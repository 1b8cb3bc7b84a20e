/-
  SchemaTypings.Number.Binary64

  Double-precision numbers as their 64 bits, what number the bits stand for, and the double nearest
  to a decimal.  All arithmetic is exact, on `Nat` and `Int`.
-/

namespace SchemaTypings

/-- A double-precision number, given by its bits: sign, eleven exponent bits, 52 fraction bits. -/
structure Binary64 where
  bits : UInt64
deriving DecidableEq, Inhabited

/-- The size of a double without its sign; a finite one is `significand * 2 ^ exponent`. -/
inductive Magnitude where
  | notANumber
  | infinite
  | finite (significand : Nat) (exponent : Int)
deriving DecidableEq

namespace Binary64

/-- Whether the sign bit is set. -/
def isNegative (x : Binary64) : Bool := x.bits.toNat ≥ 1 <<< 63

/-- The eleven exponent bits. -/
def exponentField (x : Binary64) : Nat := x.bits.toNat / 1 <<< 52 % 1 <<< 11

/-- The fraction bits. -/
def fractionField (x : Binary64) : Nat := x.bits.toNat % 1 <<< 52

/-- What the exponent and fraction bits stand for. -/
def magnitude (x : Binary64) : Magnitude :=
  if x.exponentField = 1 <<< 11 - 1 then
    if x.fractionField = 0 then .infinite else .notANumber
  else if x.exponentField = 0 then .finite x.fractionField (-1074)
  else .finite (x.fractionField + 1 <<< 52) (x.exponentField - 1075)

/-- Either of the two zeros. -/
def isZero (x : Binary64) : Bool := x.magnitude = .finite 0 (-1074)

/-- A double from its sign and the 63 bits below it. -/
def ofSignAndSize (negative : Bool) (size : Nat) : Binary64 :=
  ⟨UInt64.ofNat (size + if negative then 1 <<< 63 else 0)⟩

/-- Infinity of either sign. -/
def infinity (negative : Bool) : Binary64 := ofSignAndSize negative (2047 <<< 52)

/-- A number that is none. -/
def nan : Binary64 := ofSignAndSize false (2047 <<< 52 + 1 <<< 51)

/-- The quotient rounded to the nearest integer, a tie to the even one. -/
def roundDivEven (num den : Nat) : Nat :=
  let low := num / den
  let rest := 2 * (num % den)
  if rest < den then low else if den < rest then low + 1 else low + low % 2

/-- The 63 bits of the double nearest to `num / den`: the exponent at which the quotient has 53
bits, but none below the smallest, and the quotient rounded there.  A quotient that rounds up to 54
bits carries into the exponent field. -/
def sizeOfQuotient (num den : Nat) : Nat :=
  let estimate : Int := (Nat.log2 num : Int) - Nat.log2 den - 53
  let atLeast53Bits (e : Int) : Bool := den <<< (52 + e.toNat) ≤ num <<< (-e).toNat
  let e := if atLeast53Bits (estimate + 1) then estimate + 1 else estimate
  let e := max e (-1074)
  let significand := roundDivEven (num <<< (-e).toNat) (den <<< e.toNat)
  let field := (e + 1074).toNat
  min (field <<< 52 + significand) (2047 <<< 52)

/-- The double nearest to `significand * 10 ^ exponent`.  Past the range of doubles it is infinite
or zero, which the number of digits alone decides far outside. -/
def ofDecimal (negative : Bool) (significand : Nat) (exponent : Int) : Binary64 :=
  if significand = 0 then ofSignAndSize negative 0
  else
    let digits : Int := (Nat.toDigits 10 significand).length
    if digits + exponent > 400 then infinity negative
    else if digits + exponent < -400 then ofSignAndSize negative 0
    else ofSignAndSize negative
      (sizeOfQuotient (significand * Nat.pow 10 exponent.toNat) (Nat.pow 10 (-exponent).toNat))

/-- Whether the number is below one; nothing is said of a number that is none. -/
def isBelowOne (x : Binary64) : Bool :=
  match x.magnitude with
  | .notANumber => false
  | .infinite => x.isNegative
  | .finite significand exponent =>
    x.isNegative || significand <<< exponent.toNat < 1 <<< (-exponent).toNat

/-- How many naturals there are before the first that is not below the number: `none` if none of them
ends the count, as with a number that is none. -/
def naturalsBelow (x : Binary64) : Option Nat :=
  match x.magnitude with
  | .notANumber => none
  | .infinite => if x.isNegative then some 0 else none
  | .finite significand exponent =>
    if x.isNegative then some 0
    else
      let den := 1 <<< (-exponent).toNat
      some ((significand <<< exponent.toNat + den - 1) / den)

/-- The integer that the number is, if it is one. -/
def whole? (x : Binary64) : Option Int :=
  match x.magnitude with
  | .finite significand exponent =>
    let num := significand <<< exponent.toNat
    let den := 1 <<< (-exponent).toNat
    if num % den = 0 then
      some (if x.isNegative then -((num / den : Nat) : Int) else ((num / den : Nat) : Int))
    else none
  | _ => none

end Binary64
end SchemaTypings
