/-!
# Numerals

Natural numbers and bytes in decimal and hexadecimal, written and read.
-/

namespace NestedQuery.Text

/-- The digit of a value below 16, in lower case. -/
def hexDigit (n : Nat) : Char := if n < 10 then .ofNat (0x30 + n) else .ofNat (0x61 + (n - 10))

/-- The digit of a value below 16, in upper case. -/
def hexDigitUpper (n : Nat) : Char :=
  if n < 10 then .ofNat (0x30 + n) else .ofNat (0x41 + (n - 10))

/-- The value of a digit in a base up to 16, in either case. -/
def digitValue? (base : Nat) (c : Char) : Option Nat :=
  let value :=
    if '0' ≤ c ∧ c ≤ '9' then some (c.toNat - 0x30)
    else if 'a' ≤ c ∧ c ≤ 'f' then some (c.toNat - 0x61 + 10)
    else if 'A' ≤ c ∧ c ≤ 'F' then some (c.toNat - 0x41 + 10)
    else none
  value.filter (· < base)

def isDigit (c : Char) : Bool := '0' ≤ c && c ≤ '9'

/-- The number with the given digits; characters that are no digits count as zero. -/
def valueOfDigits (base : Nat) (digits : List Char) : Nat :=
  digits.foldl (fun acc c => acc * base + (digitValue? base c).getD 0) 0

/-- The two hexadecimal digits of every byte. -/
def hexOfBytes (bytes : List UInt8) : List Char :=
  bytes.flatMap fun b => [hexDigit (b.toNat / 16), hexDigit (b.toNat % 16)]

/-- The bytes written by pairs of hexadecimal digits. -/
def bytesOfHex? : List Char → Option (List UInt8)
  | [] => some []
  | a :: b :: rest => do
    let high ← digitValue? 16 a
    let low ← digitValue? 16 b
    return .ofNat (high * 16 + low) :: (← bytesOfHex? rest)
  | [_] => none

/-- Reads a natural number below `bound`: an optional plus sign and one or more digits. -/
def naturalBelow? (bound : Nat) (s : List Char) : Option Nat :=
  let digits := match s with
    | '+' :: rest => rest
    | _ => s
  if digits.isEmpty then none
  else if digits.all isDigit then
    let n := valueOfDigits 10 digits
    if n < bound then some n else none
  else none

/-- Reads an integer: an optional minus sign and one or more digits. -/
def integer? (s : List Char) : Option Int :=
  let (negative, digits) := match s with
    | '-' :: rest => (true, rest)
    | _ => (false, s)
  if digits.isEmpty || !digits.all isDigit then none
  else
    let n : Int := valueOfDigits 10 digits
    some (if negative then -n else n)

/-- The character with a number, unless it is half of a pair or too great. -/
def charOfNumber? (n : Nat) : Option Char :=
  if n < 0xD800 ∨ (0xE000 ≤ n ∧ n < 0x110000) then some (.ofNat n) else none

/-- The character of a number of hexadecimal digits. -/
def charOfDigits? (digits : List Char) : Option Char := do
  let values ← digits.mapM (digitValue? 16)
  charOfNumber? (values.foldl (fun acc v => acc * 16 + v) 0)

/-- Whether the end of a number is nothing or an exponent. -/
def isExponent : List Char → Bool
  | [] => true
  | c :: rest =>
    let digits := match rest with
      | '+' :: digits => digits
      | '-' :: digits => digits
      | digits => digits
    (c == 'e' || c == 'E') && !digits.isEmpty && digits.all isDigit

/-- Whether a text is a floating point number: digits on one side of a point at least and perhaps an
exponent, or a word for what is no finite number. -/
def isReal (s : List Char) : Bool :=
  let s := match s with
    | '+' :: rest => rest
    | '-' :: rest => rest
    | s => s
  let (fraction, rest) := match s.dropWhile isDigit with
    | '.' :: rest => (rest.takeWhile isDigit, rest.dropWhile isDigit)
    | rest => ([], rest)
  ["inf", "infinity", "nan"].contains (.ofList (s.map Char.toLower)) ||
    (!(s.takeWhile isDigit ++ fraction).isEmpty && isExponent rest)

end NestedQuery.Text
