/-
  SchemaTypings.Number.Shortest

  The fewest decimal digits that read back as the same double, and of those the nearest to it.
-/
import SchemaTypings.Number.Binary64

namespace SchemaTypings

/-- The decimal `digits * 10 ^ exponent`. -/
structure Decimal where
  digits : Nat
  exponent : Int
deriving DecidableEq

namespace Shortest

/-- A positive quotient and the reals around it that round to it, over one denominator. -/
structure Interval where
  low : Nat
  value : Nat
  high : Nat
  den : Nat
  withEnds : Bool

/-- The reals that round to `significand * 2 ^ exponent`, in quarters of its last place: they reach
half way to the neighbours, of which the lower one is nearer below a power of two. -/
def interval (significand : Nat) (exponent : Int) : Interval :=
  let up := 1 <<< (exponent - 2).toNat
  let atPowerOfTwo := significand = 1 <<< 52 ∧ exponent ≠ -1074
  { low := (4 * significand - if atPowerOfTwo then 1 else 2) * up
    value := 4 * significand * up
    high := (4 * significand + 2) * up
    den := 1 <<< (2 - exponent).toNat
    withEnds := significand % 2 = 0 }

/-- The interval in units of `10 ^ exponent`. -/
def Interval.inUnits (i : Interval) (exponent : Int) : Interval :=
  let up := Nat.pow 10 (-exponent).toNat
  { i with
    low := i.low * up, value := i.value * up, high := i.high * up
    den := i.den * Nat.pow 10 exponent.toNat }

/-- Whether a natural lies in the interval. -/
def Interval.has (i : Interval) (n : Nat) : Bool :=
  if i.withEnds then i.low ≤ n * i.den && n * i.den ≤ i.high
  else i.low < n * i.den && n * i.den < i.high

/-- The one of the value's two neighbours among the naturals that lies in the interval; of two the
nearer, of two as near the even one. -/
def Interval.natural? (i : Interval) : Option Nat :=
  let below := i.value / i.den
  let rest := 2 * (i.value % i.den)
  match i.has below, i.has (below + 1) with
  | true, true =>
    some (if rest < i.den then below else if i.den < rest then below + 1 else below + below % 2)
  | true, false => some below
  | false, true => some (below + 1)
  | false, false => none

/-- The exponent `e` with `10 ^ e ≤ value < 10 ^ (e + 1)`. -/
def Interval.leadingExponent (i : Interval) : Int :=
  if i.den ≤ i.value then (Nat.toDigits 10 (i.value / i.den)).length - 1
  else -(Nat.toDigits 10 ((i.den - 1) / i.value)).length

/-- The first grid, from one digit to seventeen, with a point in the interval. -/
def firstGrid (i : Interval) (leading : Int) : List Nat → Decimal
  | [] => ⟨0, 0⟩
  | count :: more =>
    match (i.inUnits (leading + 1 - count)).natural? with
    | some n => ⟨n, leading + 1 - count⟩
    | none => firstGrid i leading more

/-- The shortest decimal that reads back as `significand * 2 ^ exponent`, which is not zero. -/
def decimal (significand : Nat) (exponent : Int) : Decimal :=
  let i := interval significand exponent
  firstGrid i i.leadingExponent ((List.range 17).map (· + 1))

end Shortest
end SchemaTypings
