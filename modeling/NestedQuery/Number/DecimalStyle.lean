import NestedQuery.Number.Shortest

/-!
# Decimal styles

How a shortest decimal is laid out: in positions around a point, or with an exponent. The three
styles of this library differ in where positions end and in the form of the exponent.
-/

namespace NestedQuery

/-- The decisions of one written form of numbers. -/
structure DecimalStyle where
  -- the least and the greatest exponent of the first digit for which positions are written
  positions : Option (Int × Int)
  -- a whole number in positions ends in `.0`
  pointZero : Bool
  -- a positive exponent has a sign
  plusSign : Bool
  -- of two shortest decimals equally near the greater is written, otherwise the even one
  tieUp : Bool
  deriving DecidableEq, Repr

namespace DecimalStyle

/-- Numbers in query text: positions from `0.0001` to below `1e16`. -/
def literal : DecimalStyle := ⟨some (-4, 15), true, false, true⟩

/-- Numbers as join keys: always in positions, and a whole number as an integer is written. -/
def key : DecimalStyle := ⟨none, false, false, true⟩

/-- Numbers in JSON text: positions from `0.00001` to below `1e16`, exponents with their sign. -/
def json : DecimalStyle := ⟨some (-5, 15), true, true, false⟩

/-- The digits in positions; `leading` is the exponent of the first digit. -/
def inPositions (style : DecimalStyle) (digits : List Char) (leading : Int) : List Char :=
  if leading < 0 then
    '0' :: '.' :: List.replicate ((-leading).toNat - 1) '0' ++ digits
  else
    let whole := leading.toNat + 1
    let padded := digits ++ List.replicate (whole - digits.length) '0'
    let rest := padded.drop whole
    padded.take whole ++
      if rest.isEmpty then (if style.pointZero then ['.', '0'] else []) else '.' :: rest

/-- The digits with a point behind the first one and an exponent. -/
def withExponent (style : DecimalStyle) (digits : List Char) (leading : Int) : List Char :=
  let mantissa := match digits with
    | d :: e :: rest => d :: '.' :: e :: rest
    | _ => digits
  let sign := if leading < 0 then ['-'] else if style.plusSign then ['+'] else []
  mantissa ++ 'e' :: sign ++ Nat.toDigits 10 leading.natAbs

/-- Lays out a decimal with at least one digit. -/
def layOut (style : DecimalStyle) (d : Decimal) : List Char :=
  let digits := Nat.toDigits 10 d.digits
  let leading := d.exponent + digits.length - 1
  match style.positions with
  | none => style.inPositions digits leading
  | some (least, greatest) =>
    if least ≤ leading ∧ leading ≤ greatest then style.inPositions digits leading
    else style.withExponent digits leading

/-- The text of a finite number. -/
def write (style : DecimalStyle) (x : Binary64) : String :=
  let sign := if x.isNegative then ['-'] else []
  let body :=
    if x.magnitude = 0 then style.inPositions ['0'] 0 else style.layOut (x.shortest style.tieUp)
  .ofList (sign ++ body)

end DecimalStyle

end NestedQuery
