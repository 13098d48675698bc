import NestedQuery.Number.Binary64

/-!
# Wide floating point numbers

A wide number is positive and has a significand of 64 bits; its exponent has no bounds. A product is
the nearest wide number, a tie going to the even significand. Powers of ten are multiplied in by
hundreds, by tens and one by one, and every step rounds.
-/

namespace NestedQuery

/-- The number `significand * 2 ^ exponent`. -/
structure Wide where
  significand : Nat
  exponent : Int
  deriving DecidableEq, Repr

namespace Wide

def significandBits : Nat := 64

/-- The wide number nearest to a positive quotient. -/
def ofRatio (num den : Nat) : Wide :=
  let scaled (exponent : Int) : Nat × Nat :=
    (num * twoTo (-exponent).toNat, den * twoTo exponent.toNat)
  let least : Int := (num.log2 : Int) - den.log2 - significandBits
  let exponent :=
    let (n, d) := scaled (least + 1)
    if n / d < twoTo (significandBits - 1) then least else least + 1
  let (n, d) := scaled exponent
  ⟨Binary64.divideToEven n d, exponent⟩

def ofNat (n : Nat) : Wide := ofRatio n 1

/-- A finite positive number, which is wide as it is. -/
def ofBinary64 (x : Binary64) : Wide := ⟨x.significand, x.scale - 1074⟩

def mul (a b : Wide) : Wide :=
  let product := ofNat (a.significand * b.significand)
  ⟨product.significand, product.exponent + a.exponent + b.exponent⟩

/-- Whether one number is less than another. -/
def lt (a b : Wide) : Bool :=
  let shift := a.exponent - b.exponent
  a.significand * twoTo shift.toNat < b.significand * twoTo (-shift).toNat

/-- The greatest whole number that is not above a number. -/
def floor (a : Wide) : Nat := a.significand * twoTo a.exponent.toNat / twoTo (-a.exponent).toNat

/-- The power of ten with a given exponent. -/
def powerOfTen (exponent : Int) : Wide := ofRatio (tenTo exponent.toNat) (tenTo (-exponent).toNat)

/-- Multiplies by a power of ten: by hundreds of its exponent, then tens, then ones. -/
def timesPowerOfTen (a : Wide) (exponent : Int) : Wide :=
  let n := exponent.natAbs
  let steps := List.replicate (n / 100) 100 ++ List.replicate (n % 100 / 10) 10 ++
    List.replicate (n % 10) 1
  steps.foldl (fun a (step : Nat) => a.mul (powerOfTen (exponent.sign * step))) a

/-- The greatest finite number of the 64-bit format. -/
def greatest : Wide := ⟨twoTo 53 - 1, 971⟩

/-- The nearest number of the 64-bit format; beyond the greatest finite one it is infinite. -/
def toBinary64 (negative : Bool) (a : Wide) : Binary64 :=
  if lt greatest a then .ofMagnitudeBits negative (2047 * twoTo 52)
  else
    .ofRatio negative (a.significand * twoTo a.exponent.toNat) (twoTo (-a.exponent).toNat)

/-! ### Leading digits -/

/-- Moves powers of ten, `step` of them at a time, from the number into the exponent of ten beside
it as long as `p` holds of the number, and at most `fuel` times. -/
def moveWhile (p : Wide → Bool) (step : Int) : Nat → Wide × Int → Wide × Int
  | 0, r => r
  | fuel + 1, (a, exponent) =>
    if p a then moveWhile p step fuel (a.mul (powerOfTen (-step)), exponent + step)
    else (a, exponent)

/-- A number from `10 ^ 17` to below `10 ^ 19` and the power of ten that it has to be multiplied
with to give a number of the 64-bit format, but for what is rounded away. -/
def leadingDigits (a : Wide) : Wide × Int :=
  let reaches (exponent : Int) (a : Wide) : Bool := !lt a (powerOfTen exponent)
  let below (exponent : Int) (a : Wide) : Bool := lt a (powerOfTen exponent)
  if reaches 19 a then
    moveWhile (reaches 19) 1 12 <| moveWhile (reaches 29) 10 12 <|
      moveWhile (reaches 119) 100 12 (a, 0)
  else
    moveWhile (below 17) (-1) 12 <| moveWhile (below 7) (-10) 12 <|
      moveWhile (below (-97)) (-100) 12 (a, 0)

end Wide

end NestedQuery
