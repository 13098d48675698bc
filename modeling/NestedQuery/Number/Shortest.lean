import NestedQuery.Number.Binary64

/-!
# Shortest decimals

The decimal that stands for a finite positive number is the one with the fewest digits among those
that round to it, and of these the nearest to it. For one digit, two digits and so on the two
neighbours of the number on that decimal grid are tried; if any decimal of a grid rounds to the
number, one of these two does.
-/

namespace NestedQuery

/-- The decimal number `digits * 10 ^ exponent`. -/
structure Decimal where
  digits : Nat
  exponent : Int
  deriving DecidableEq, Repr

namespace Decimal

def digitCount (n : Nat) : Nat := (Nat.toDigits 10 n).length

/-- The same number without zeros as last digits, of which at most `fuel` are dropped. -/
def dropZeros : Nat → Decimal → Decimal
  | 0, d => d
  | fuel + 1, d =>
    if d.digits % 10 = 0 then dropZeros fuel ⟨d.digits / 10, d.exponent + 1⟩ else d

/-- The same number with no zero as last digit. -/
def strip (d : Decimal) : Decimal := dropZeros (digitCount d.digits) d

/-- The exponent of the first digit of `num / den`. -/
def leadingExponent (num den : Nat) : Int :=
  if den ≤ num then (digitCount (num / den) : Int) - 1 else -(digitCount ((den - 1) / num) : Int)

end Decimal

namespace Binary64

/-- The open or closed interval of the numbers that round to one number, over a denominator. -/
structure RoundingInterval where
  low : Nat
  value : Nat
  high : Nat
  den : Nat
  closed : Bool

/-- The interval of a finite positive number. Below a power of two it is half as wide. -/
def roundingInterval (x : Binary64) : RoundingInterval where
  low := 4 * x.magnitude -
    (if x.fractionField = 0 ∧ 1 < x.exponentField then 1 else 2) * twoTo x.scale
  value := 4 * x.magnitude
  high := 4 * x.magnitude + 2 * twoTo x.scale
  den := 4 * twoTo 1074
  closed := x.significand % 2 == 0

namespace RoundingInterval

def holds (i : RoundingInterval) (n : Nat) : Bool :=
  if i.closed then i.low ≤ n && n ≤ i.high else i.low < n && n < i.high

/-- The interval in multiples of `10 ^ exponent`. -/
def inMultiplesOf (i : RoundingInterval) (exponent : Int) : RoundingInterval :=
  let up := tenTo (-exponent).toNat
  { i with
    low := i.low * up, value := i.value * up, high := i.high * up,
    den := i.den * tenTo exponent.toNat }

/--
The multiple of `10 ^ exponent` in the interval that is nearest to the value. With `tieUp` the
greater of two that are equally near is taken, otherwise the even one.
-/
def nearest? (i : RoundingInterval) (tieUp : Bool) (exponent : Int) : Option Decimal :=
  let grid := i.inMultiplesOf exponent
  let below := grid.value / grid.den
  let rest := grid.value % grid.den
  let up :=
    if grid.den < 2 * rest then true
    else if 2 * rest < grid.den then false
    else tieUp || below % 2 == 1
  match grid.holds (below * grid.den), grid.holds ((below + 1) * grid.den) with
  | true, true => some ⟨if up then below + 1 else below, exponent⟩
  | true, false => some ⟨below, exponent⟩
  | false, true => some ⟨below + 1, exponent⟩
  | false, false => none

end RoundingInterval

/-- The shortest decimal that rounds to a finite positive number. -/
def shortest (tieUp : Bool) (x : Binary64) : Decimal :=
  let interval := x.roundingInterval
  let leading := Decimal.leadingExponent interval.value interval.den
  let found := (List.range 17).findSome? fun (more : Nat) =>
    interval.nearest? tieUp (leading - more)
  (found.getD ⟨0, 0⟩).strip

end Binary64

end NestedQuery
