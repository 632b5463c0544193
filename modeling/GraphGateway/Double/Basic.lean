/-!
This module contains IEEE 754 double precision numbers as their 64 bits, with exact arithmetic on
natural numbers underneath: every finite double is a multiple of the smallest positive one, which is
`2 ^ -1074`. A result is the double nearest to the exact value, and of two the even one.

Powers are those of `Nat.pow`, so that they do not depend on which instances are in scope.
-/

namespace GraphGateway

structure Double where
  bits : UInt64
deriving DecidableEq, Repr, Inhabited

namespace Double

def infinityBits : Nat :=
  2047 * Nat.pow 2 52

def magnitudeBits (d : Double) : Nat :=
  d.bits.toNat % Nat.pow 2 63

def isNegative (d : Double) : Bool :=
  Nat.pow 2 63 ≤ d.bits.toNat

def isFinite (d : Double) : Bool :=
  d.magnitudeBits < infinityBits

def isNaN (d : Double) : Bool :=
  infinityBits < d.magnitudeBits

def isZero (d : Double) : Bool :=
  d.magnitudeBits = 0

/-- The power of two by which the significand is shifted in the unit `2 ^ -1074`. -/
def shift (d : Double) : Nat :=
  d.magnitudeBits / Nat.pow 2 52 - 1

/-- The significand, an integer below `2 ^ 53`. -/
def significand (d : Double) : Nat :=
  if d.magnitudeBits < Nat.pow 2 52 then d.magnitudeBits
  else Nat.pow 2 52 + d.magnitudeBits % Nat.pow 2 52

/-- The absolute value of a finite double in the unit `2 ^ -1074`. -/
def magnitude (d : Double) : Nat :=
  d.significand * Nat.pow 2 d.shift

def ofMagnitudeBits (negative : Bool) (bits : Nat) : Double :=
  ⟨UInt64.ofNat (if negative then Nat.pow 2 63 + bits else bits)⟩

def zero : Double :=
  ofMagnitudeBits false 0

def infinity (negative : Bool) : Double :=
  ofMagnitudeBits negative infinityBits

def neg (d : Double) : Double :=
  ofMagnitudeBits (!d.isNegative) d.magnitudeBits

/-- The quotient rounded to the nearest natural number, a half to the even neighbour. -/
def roundDiv (num den : Nat) : Nat :=
  let q := num / den
  let r := num % den
  if 2 * r < den then q
  else if den < 2 * r then q + 1
  else q + q % 2

/--
The double nearest to `num / den`. The significand has 53 bits, or fewer where the unit `2 ^ -1074`
is coarser than that; a value that rounds beyond the largest finite double is infinite.
-/
def ofRatio (negative : Bool) (num den : Nat) : Double :=
  let scaled := num * Nat.pow 2 1074
  let shift := (scaled / den).log2 + 1 - 53
  let bits := shift * Nat.pow 2 52 + roundDiv scaled (den * Nat.pow 2 shift)
  ofMagnitudeBits negative (min bits infinityBits)

def ofInt (n : Int) : Double :=
  ofRatio (n < 0) n.natAbs 1

/--
The double nearest to `digits * 10 ^ exponent`. Beyond 310 places above and 330 places below the
decimal point the answer is infinite or zero, whatever the digits are.
-/
def ofDecimal (negative : Bool) (digits : Nat) (exponent : Int) : Double :=
  let places : Int := (Nat.toDigits 10 digits).length + exponent
  if digits = 0 || places < -330 then ofMagnitudeBits negative 0
  else if 310 < places then infinity negative
  else if 0 ≤ exponent then ofRatio negative (digits * Nat.pow 10 exponent.toNat) 1
  else ofRatio negative digits (Nat.pow 10 (-exponent).toNat)

def mul (a b : Double) : Double :=
  ofRatio (a.isNegative != b.isNegative) (a.magnitude * b.magnitude) (Nat.pow 2 2148)

def div (a b : Double) : Double :=
  ofRatio (a.isNegative != b.isNegative) a.magnitude b.magnitude

def toInt? (d : Double) : Option Int :=
  if d.isFinite && d.magnitude % Nat.pow 2 1074 = 0 then
    let n : Int := (d.magnitude / Nat.pow 2 1074 : Nat)
    some (if d.isNegative then -n else n)
  else
    none

/-- Equality of the numbers, where the two zeros are equal and a NaN equals nothing. -/
def equal (a b : Double) : Bool :=
  !a.isNaN && !b.isNaN && (a.bits = b.bits || a.isZero && b.isZero)

theorem roundDiv_of_dvd (q den : Nat) (h : 0 < den) : roundDiv (q * den) den = q := by
  simp [roundDiv, Nat.mul_div_cancel q h, h]

end Double

end GraphGateway
