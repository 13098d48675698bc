import NestedQuery.Number.Shortest
import NestedQuery.Number.Wide
import NestedQuery.Text.Numeral

/-!
# Numbers as text in a store

The store keeps a number in a text column as text, and text that looks like a number in an integer
column as a number. A floating point number is written with at most fifteen digits and always with a
point. Both ways the powers of ten are multiplied in with wide numbers, so that a number is close to
its text but need not be the nearest to it.
-/

namespace NestedQuery.Store

open Text

/-! ### Writing -/

def writtenDigits : Nat := 15

/-- The decimal of a finite number other than zero, from its leading digits, a half going up. -/
def roundedDecimal (x : Binary64) : Decimal :=
  let (leading, exponent) := (Wide.ofBinary64 x).leadingDigits
  let digits := leading.floor
  let dropped := Decimal.digitCount digits - writtenDigits
  Decimal.strip ⟨(digits + 5 * tenTo (dropped - 1)) / tenTo dropped, exponent + dropped⟩

/-- A mantissa or a number in positions: digits around a point, at least one on each side. -/
def pointed (digits : List Char) (leading : Int) : List Char :=
  if leading < 0 then '0' :: '.' :: List.replicate ((-leading).toNat - 1) '0' ++ digits
  else
    let whole := leading.toNat + 1
    let padded := digits ++ List.replicate (whole - digits.length) '0'
    let rest := padded.drop whole
    padded.take whole ++ '.' :: if rest.isEmpty then ['0'] else rest

/-- An exponent with its sign and at least two digits. -/
def exponentText (e : Int) : List Char :=
  let digits := Nat.toDigits 10 e.natAbs
  (if e < 0 then '-' else '+') :: if digits.length < 2 then '0' :: digits else digits

/-- The text of a floating point number that is not a NaN. -/
def realText (x : Binary64) : List Char :=
  let sign := if x.isNegative && !(x.isFinite && x.magnitude == 0) then ['-'] else []
  let body :=
    if !x.isFinite then ['I', 'n', 'f']
    else if x.magnitude = 0 then ['0', '.', '0']
    else
      let d := roundedDecimal x
      let digits := Nat.toDigits 10 d.digits
      let leading := d.exponent + digits.length - 1
      if -4 ≤ leading ∧ leading < writtenDigits then pointed digits leading
      else pointed digits 0 ++ 'e' :: exponentText leading
  sign ++ body

/-! ### Reading -/

def isSpace (c : Char) : Bool := c == ' ' || (0x09 ≤ c.toNat && c.toNat ≤ 0x0D)

/-- A number as it is written. -/
structure Numeral where
  negative : Bool
  whole : List Char
  -- the digits behind the point, if there is one
  fraction : Option (List Char)
  exponent : Option Int
  deriving DecidableEq, Repr

namespace Numeral

def sign : List Char → Bool × List Char
  | '-' :: rest => (true, rest)
  | '+' :: rest => (false, rest)
  | s => (false, s)

/-- The value of the digits of an exponent; far beyond the range of numbers it stays where it is. -/
def exponentValue (digits : List Char) : Nat :=
  digits.foldl (fun e c => if e < 10000 then e * 10 + (digitValue? 10 c).getD 0 else 10000) 0

/-- Reads an exponent that is the rest of a text. -/
def exponent? : List Char → Option (Option Int)
  | [] => some none
  | c :: rest =>
    if c = 'e' ∨ c = 'E' then
      let (negative, digits) := sign rest
      if digits.isEmpty || !digits.all isDigit then none
      else
        let n : Int := exponentValue digits
        some (some (if negative then -n else n))
    else none

/-- Reads a text that is a number, blanks at its ends aside. -/
def ofText? (s : List Char) : Option Numeral :=
  let s := ((s.dropWhile isSpace).reverse.dropWhile isSpace).reverse
  let (negative, s) := sign s
  let whole := s.takeWhile isDigit
  let (fraction, rest) := match s.dropWhile isDigit with
    | '.' :: rest => (some (rest.takeWhile isDigit), rest.dropWhile isDigit)
    | rest => (none, rest)
  if whole.isEmpty && (fraction.getD []).isEmpty then none
  else (exponent? rest).map fun exponent => ⟨negative, whole, fraction, exponent⟩

/-- The integer of a number written without point and exponent. -/
def integer? (n : Numeral) : Option Int :=
  if n.fraction.isNone && n.exponent.isNone then
    let magnitude : Int := valueOfDigits 10 n.whole
    let value := if n.negative then -magnitude else magnitude
    if fitsSigned value then some value else none
  else none

/-- Takes up digits while 64 bits have room for them; gives the number of those left out as well. -/
def gather : Nat → List Char → Nat × Nat
  | n, [] => (n, 0)
  | n, c :: rest =>
    if n < (twoTo 64 - 10) / 10 then gather (n * 10 + (digitValue? 10 c).getD 0) rest
    else (n, rest.length + 1)

/-- Makes the exponent of ten smaller as long as 64 bits have room for the number. -/
def balance : Nat → Nat × Int → Nat × Int
  | 0, r => r
  | fuel + 1, (n, exponent) =>
    if 0 < exponent ∧ n < (twoTo 64 - 1) / 10 then balance fuel (n * 10, exponent - 1)
    else if exponent < 0 ∧ n % 10 = 0 then balance fuel (n / 10, exponent + 1)
    else (n, exponent)

def real (n : Numeral) : Binary64 :=
  let fraction := n.fraction.getD []
  let (digits, leftOut) := gather 0 n.whole
  let (digits, leftOutBehind) := gather digits fraction
  let exponent := n.exponent.getD 0 + leftOut - (fraction.length - leftOutBehind : Nat)
  if digits = 0 then .ofRatio n.negative 0 1
  else
    let (digits, exponent) := balance 20 (digits, exponent)
    ((Wide.ofNat digits).timesPowerOfTen exponent).toBinary64 n.negative

end Numeral

end NestedQuery.Store
