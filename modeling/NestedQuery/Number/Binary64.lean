import NestedQuery.Number.Power

/-!
# Floating point numbers

A 64-bit floating point number is kept as its bits. Its magnitude is a whole number of units of
`2 ^ -1074`, the least positive number of the format, so that every question about values is one
about natural numbers. `ofRatio` rounds any quotient to the nearest number of the format, a tie
going to the even significand.
-/

namespace NestedQuery

/-- A floating point number with 64 bits: sign, eleven bits of exponent, 52 bits of fraction. -/
structure Binary64 where
  bits : UInt64
  deriving DecidableEq, Repr

namespace Binary64

def isNegative (x : Binary64) : Bool := twoTo 63 ≤ x.bits.toNat

def exponentField (x : Binary64) : Nat := x.bits.toNat / twoTo 52 % twoTo 11

def fractionField (x : Binary64) : Nat := x.bits.toNat % twoTo 52

def isFinite (x : Binary64) : Bool := x.exponentField != 2047

def isNaN (x : Binary64) : Bool := x.exponentField == 2047 && x.fractionField != 0

/-- The significand of a finite number, in units of its last place. -/
def significand (x : Binary64) : Nat :=
  if x.exponentField = 0 then x.fractionField else twoTo 52 + x.fractionField

/-- The last place of a finite number is `2 ^ scale` units. -/
def scale (x : Binary64) : Nat := x.exponentField - 1

/-- The absolute value of a finite number, in units of `2 ^ -1074`. -/
def magnitude (x : Binary64) : Nat := x.significand * twoTo x.scale

/-- The value of a finite number, in units of `2 ^ -1074`. -/
def units (x : Binary64) : Int := if x.isNegative then -x.magnitude else x.magnitude

/-- Whether a finite number has the value of the integer `n`. -/
def equalsInt (x : Binary64) (n : Int) : Bool := x.isFinite && x.units == n * twoTo 1074

/-- The integer with the value of a finite number, if there is one. -/
def toInt? (x : Binary64) : Option Int :=
  if x.isFinite && x.magnitude % twoTo 1074 == 0 then
    let n : Int := (x.magnitude / twoTo 1074 : Nat)
    some (if x.isNegative then -n else n)
  else none

/-- Two numbers have the same value; the two zeros do, and nothing has the value of a NaN. -/
def sameValue (x y : Binary64) : Bool :=
  if x.isFinite && y.isFinite then x.units == y.units else !x.isNaN && x == y

/-- The number with the given sign whose magnitude has the given bits. -/
def ofMagnitudeBits (negative : Bool) (bits : Nat) : Binary64 :=
  ⟨.ofNat (if negative then twoTo 63 + bits else bits)⟩

/-- Rounds the quotient `num / den` to the nearest whole number, a tie going to the even one. -/
def divideToEven (num den : Nat) : Nat :=
  let quotient := num / den
  let rest := num % den
  if 2 * rest < den then quotient
  else if den < 2 * rest then quotient + 1
  else quotient + quotient % 2

/-- The number nearest to `num / den`; beyond the greatest finite one it is infinite. -/
def ofRatio (negative : Bool) (num den : Nat) : Binary64 :=
  let inUnits := num * twoTo 1074
  let scale := (inUnits / den).log2 - 52
  let bits := scale * twoTo 52 + divideToEven inUnits (den * twoTo scale)
  ofMagnitudeBits negative (min bits (2047 * twoTo 52))

def ofNat (n : Nat) : Binary64 := ofRatio false n 1

def ofInt (n : Int) : Binary64 := ofRatio (n < 0) n.natAbs 1

def neg (x : Binary64) : Binary64 := ofMagnitudeBits (!x.isNegative) (x.bits.toNat % twoTo 63)

/-- The rounded product of two finite numbers. -/
def mul (x y : Binary64) : Binary64 :=
  ofRatio (x.isNegative != y.isNegative) (x.magnitude * y.magnitude) (twoTo 2148)

/-- The rounded quotient of two finite numbers, the second of them not zero. -/
def div (x y : Binary64) : Binary64 :=
  ofRatio (x.isNegative != y.isNegative) x.magnitude y.magnitude

end Binary64

end NestedQuery
