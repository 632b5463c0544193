import GraphGateway.Double.Basic

/-!
This module contains the choice of decimal digits for a finite double: the fewest that read back as
the same double, and among those the nearest to it.

The decimals that read back as a double form an interval, which has the halfway points to the two
neighbouring doubles as its ends. The ends belong to it if the significand is even.
-/

namespace GraphGateway
namespace Double

structure Decimal where
  digits : Nat
  exponent : Int
deriving DecidableEq, Repr

/--
The interval of numbers that read back as a double, in the unit `2 ^ -1076`, in which the value and
the halfway points are whole numbers.
-/
structure Interval where
  low : Nat
  value : Nat
  high : Nat
  closed : Bool

def interval (d : Double) : Interval :=
  let step := Nat.pow 2 d.shift
  let value := 4 * d.magnitude
  let below := if d.significand = Nat.pow 2 52 && 0 < d.shift then step else 2 * step
  ⟨value - below, value, value + 2 * step, d.significand % 2 = 0⟩

def Interval.contains (i : Interval) (num den : Nat) : Bool :=
  if i.closed then i.low * den ≤ num && num ≤ i.high * den
  else i.low * den < num && num < i.high * den

/-- The power of ten of the first significant digit of a positive double. -/
def decimalExponent (d : Double) : Int :=
  (Nat.toDigits 10 (d.magnitude * Nat.pow 10 340 / Nat.pow 2 1074)).length - 341

/--
The point of the grid of multiples of `10 ^ exponent` that reads back as the double, the nearer one
if both neighbours do, the even one if they are equally near.
-/
def onGrid? (d : Double) (exponent : Int) : Option Decimal :=
  let i := d.interval
  -- One step of the grid is `num / den` in the unit of the interval.
  let num := Nat.pow 2 1076 * Nat.pow 10 exponent.toNat
  let den := Nat.pow 10 (-exponent).toNat
  let lower := i.value * den / num
  let upper := lower + 1
  let gapLower := i.value * den - lower * num
  let gapUpper := upper * num - i.value * den
  match i.contains (lower * num) den, i.contains (upper * num) den with
  | false, false => none
  | true, false => some ⟨lower, exponent⟩
  | false, true => some ⟨upper, exponent⟩
  | true, true =>
    if gapLower < gapUpper || gapLower = gapUpper && lower % 2 = 0 then some ⟨lower, exponent⟩
    else some ⟨upper, exponent⟩

/--
The shortest decimal of a positive finite double; seventeen digits always suffice. A trailing zero
can only come from rounding a single nine up to ten.
-/
def shortest (d : Double) : Decimal :=
  go 17
where
  go : Nat → Decimal
    | 0 => ⟨0, 0⟩
    | left + 1 =>
      let count : Int := 17 - left
      match d.onGrid? (d.decimalExponent - count + 1) with
      | some decimal =>
        if decimal.digits % 10 = 0 then ⟨decimal.digits / 10, decimal.exponent + 1⟩ else decimal
      | none => go left

end Double
end GraphGateway
