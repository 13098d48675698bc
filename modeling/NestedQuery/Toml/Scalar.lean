import NestedQuery.Number.Power
import NestedQuery.Text.Numeral
import NestedQuery.Text.Reader
import NestedQuery.Toml.Basic

/-!
# TOML scalars and keys

Readers of strings, numbers, truth values, points in time and keys.
-/

namespace NestedQuery.Toml

open Text

/-! ### Blanks and line ends -/

def isSpace (c : Char) : Bool := c == ' ' || c == '\t'

def skipSpace (s : List Char) : List Char := s.dropWhile isSpace

/-- Characters that are not ASCII, and those of ASCII that are printed. -/
def isPrinted (c : Char) : Bool := (0x20 ≤ c.toNat && c.toNat ≤ 0x7E) || 0x80 ≤ c.toNat

def isCommentChar (c : Char) : Bool := c == '\t' || isPrinted c

/-- What follows the end of a line at the front of a text. -/
def lineEnd? : List Char → Option (List Char)
  | '\n' :: rest => some rest
  | '\r' :: '\n' :: rest => some rest
  | _ => none

/-- What follows a comment at the front of a text, or the text itself. -/
def skipComment : List Char → List Char
  | '#' :: rest => rest.dropWhile isCommentChar
  | s => s

/-- Skips blanks, comments and line ends. -/
def skipLines : Nat → List Char → List Char
  | 0, s => s
  | fuel + 1, s =>
    let s := skipComment (skipSpace s)
    match lineEnd? s with
    | some rest => skipLines fuel rest
    | none => s

/-- Skips blanks, comments and line ends as far as they go. -/
def skipAll (s : List Char) : List Char := skipLines (s.length + 1) s

/-- What follows the blanks and the comment that end a line, and the end of the line. -/
def closeLine? (s : List Char) : Option (List Char) :=
  match skipComment (skipSpace s) with
  | [] => some []
  | s => lineEnd? s

/-! ### Strings -/

/-- The character behind a backslash and what follows it. -/
def escape : Reader Char
  | 'b' :: rest => some ('\x08', rest)
  | 't' :: rest => some ('\t', rest)
  | 'n' :: rest => some ('\n', rest)
  | 'f' :: rest => some ('\x0C', rest)
  | 'r' :: rest => some ('\r', rest)
  | '"' :: rest => some ('"', rest)
  | '\\' :: rest => some ('\\', rest)
  | 'u' :: rest =>
    if rest.length < 4 then none
    else (charOfDigits? (rest.take 4)).map fun c => (c, rest.drop 4)
  | 'U' :: rest =>
    if rest.length < 8 then none
    else (charOfDigits? (rest.take 8)).map fun c => (c, rest.drop 8)
  | _ => none

/-- What follows blanks and line ends. -/
def skipBlankLines : List Char → List Char
  | ' ' :: rest => skipBlankLines rest
  | '\t' :: rest => skipBlankLines rest
  | '\n' :: rest => skipBlankLines rest
  | '\r' :: '\n' :: rest => skipBlankLines rest
  | s => s

/-- What follows the blanks and line ends behind a backslash, if there is a line end. -/
def continued? (s : List Char) : Option (List Char) := (lineEnd? (skipSpace s)).map skipBlankLines

/-- The characters of a string of one line up to its closing quote. -/
def lineBody (quote : Char) (escapes : Bool) : Nat → Reader (List Char)
  | 0, _ => none
  | _, [] => none
  | fuel + 1, c :: rest =>
    if c = quote then some ([], rest)
    else if escapes && c == '\\' then do
      let (e, rest) ← escape rest
      let (body, rest) ← lineBody quote escapes fuel rest
      return (e :: body, rest)
    else if isCommentChar c then do
      let (body, rest) ← lineBody quote escapes fuel rest
      return (c :: body, rest)
    else none

/-- The characters of a string of several lines up to its three closing quotes. -/
def blockBody (quote : Char) (escapes : Bool) : Nat → Reader (List Char)
  | 0, _ => none
  | _, [] => none
  | fuel + 1, c :: rest =>
    if c = quote then
      let run := ((c :: rest).takeWhile (· == quote)).length
      if 3 ≤ run then
        let inside := min (run - 3) 2
        some (List.replicate inside quote, (c :: rest).drop (inside + 3))
      else do
        let (body, rest) ← blockBody quote escapes fuel rest
        return (c :: body, rest)
    else if escapes && c == '\\' then
      match continued? rest with
      | some rest => blockBody quote escapes fuel rest
      | none => do
        let (e, rest) ← escape rest
        let (body, rest) ← blockBody quote escapes fuel rest
        return (e :: body, rest)
    else
      match lineEnd? (c :: rest) with
      | some rest => do
        let (body, rest) ← blockBody quote escapes fuel rest
        return ('\n' :: body, rest)
      | none =>
        if isCommentChar c then do
          let (body, rest) ← blockBody quote escapes fuel rest
          return (c :: body, rest)
        else none

/-- A string of one line, at its opening quote. -/
def lineString : Reader String
  | '"' :: rest => (lineBody '"' true (rest.length + 1) rest).map fun (s, r) => (.ofList s, r)
  | '\'' :: rest => (lineBody '\'' false (rest.length + 1) rest).map fun (s, r) => (.ofList s, r)
  | _ => none

/-- The string behind three opening quotes; a line end right behind them is dropped. -/
def blockString (quote : Char) (escapes : Bool) (s : List Char) : Option (String × List Char) :=
  let s := (lineEnd? s).getD s
  (blockBody quote escapes (s.length + 1) s).map fun (s, r) => (.ofList s, r)

def string : Reader String
  | '"' :: '"' :: '"' :: rest => blockString '"' true rest
  | '\'' :: '\'' :: '\'' :: rest => blockString '\'' false rest
  | s => lineString s

/-! ### Keys -/

def isKeyChar (c : Char) : Bool := c.isAlphanum || c == '-' || c == '_'

def simpleKey : Reader String := fun s =>
  match s with
  | c :: _ =>
    if c = '"' ∨ c = '\'' then lineString s
    else (Reader.span1 isKeyChar s).map fun (k, r) => (.ofList k, r)
  | [] => none

/-- The keys between dots, blanks around each. -/
def dottedKey : Nat → Reader (List String)
  | 0, _ => none
  | fuel + 1, s => do
    let (k, s) ← simpleKey (skipSpace s)
    match skipSpace s with
    | '.' :: s =>
      let (more, s) ← dottedKey fuel s
      return (k :: more, s)
    | s => return ([k], s)

/-- Keys of this many parts and containers this deep are refused. -/
def depthLimit : Nat := 80

def key : Reader (List String) := fun s => dottedKey (depthLimit - 1) s

/-! ### Numbers -/

/-- Digits, an underscore allowed between two of them. -/
def digitsFrom (p : Char → Bool) : List Char → List Char × List Char
  | [] => ([], [])
  | '_' :: c :: rest =>
    if p c then
      let (digits, rest) := digitsFrom p rest
      (c :: digits, rest)
    else ([], '_' :: c :: rest)
  | c :: rest =>
    if p c then
      let (digits, rest) := digitsFrom p rest
      (c :: digits, rest)
    else ([], c :: rest)

/-- One digit or more, an underscore allowed between two of them and no other behind them. -/
def digits1 (p : Char → Bool) : Reader (List Char)
  | c :: rest =>
    if p c then
      let (digits, rest) := digitsFrom p rest
      if rest.head? = some '_' then none else some (c :: digits, rest)
    else none
  | [] => none

/-- A zero, or digits of which the first is not zero. -/
def wholeDigits : Reader (List Char)
  | '0' :: rest => some (['0'], rest)
  | s => digits1 isDigit s

def sign : List Char → Bool × List Char
  | '-' :: rest => (true, rest)
  | '+' :: rest => (false, rest)
  | s => (false, s)

/-- Whether the number `digits * 10 ^ exponent` is too great for the floating point format. -/
def overflows (digits : List Char) (exponent : Int) : Bool :=
  let significant := digits.dropWhile (· == '0')
  let leading := significant.length + exponent
  if significant.isEmpty || leading < 300 then false
  else if 320 < leading then true
  else
    let n := valueOfDigits 10 significant
    let limit := twoTo 1024 - twoTo 970
    if 0 ≤ exponent then limit ≤ n * tenTo exponent.toNat
    else limit * tenTo (-exponent).toNat ≤ n

/-- The fraction of a number and what follows it. -/
def fraction : Reader (List Char)
  | '.' :: rest => digits1 isDigit rest
  | s => some ([], s)

/-- The exponent of a number and what follows it. -/
def exponent : Reader (Option Int)
  | c :: rest =>
    if c = 'e' ∨ c = 'E' then do
      let (negative, rest) := sign rest
      let (digits, rest) ← digits1 isDigit rest
      let n : Int := valueOfDigits 10 digits
      return (some (if negative then -n else n), rest)
    else some (none, c :: rest)
  | [] => some (none, [])

/-- The integer with the given digits, if it has at most 64 bits with its sign. -/
def integerOf? (negative : Bool) (base : Nat) (digits : List Char) : Option Toml :=
  let magnitude : Int := valueOfDigits base digits
  let n := if negative then -magnitude else magnitude
  if fitsSigned n then some (.int n) else none

/-- An integer in another base, behind the mark of the base. -/
def basedInteger (base : Nat) (s : List Char) : Option (Toml × List Char) := do
  let (digits, rest) ← digits1 (fun c => (digitValue? base c).isSome) s
  return (← integerOf? false base digits, rest)

/-- A decimal number: without fraction and exponent an integer. -/
def decimal : Reader Toml := fun s => do
  let (negative, s) := sign s
  let (whole, s) ← wholeDigits s
  let (fraction, s') ← fraction s
  let (exponent, s') ← exponent s'
  if fraction.isEmpty && exponent.isNone then return (← integerOf? negative 10 whole, s)
  else if !negative && overflows (whole ++ fraction) (exponent.getD 0 - fraction.length) then none
  else return (.float, s')

def number : Reader Toml
  | '0' :: 'x' :: rest => basedInteger 16 rest
  | '0' :: 'o' :: rest => basedInteger 8 rest
  | '0' :: 'b' :: rest => basedInteger 2 rest
  | s =>
    match (sign s).2 with
    | 'i' :: 'n' :: 'f' :: rest => some (.float, rest)
    | 'n' :: 'a' :: 'n' :: rest => some (.float, rest)
    | _ => decimal s

/-! ### Points in time -/

/-- A number of exactly `count` digits within bounds. -/
def fixedNumber (count low high : Nat) : Reader Nat := fun s =>
  let digits := s.take count
  if digits.length = count ∧ digits.all isDigit then
    let n := valueOfDigits 10 digits
    if low ≤ n ∧ n ≤ high then some (n, s.drop count) else none
  else none

def literally (c : Char) : Reader Unit
  | d :: rest => if d = c then some ((), rest) else none
  | [] => none

def daysInMonth (year month : Nat) : Nat :=
  if month = 2 then
    if year % 4 = 0 ∧ (year % 100 ≠ 0 ∨ year % 400 = 0) then 29 else 28
  else if month = 4 ∨ month = 6 ∨ month = 9 ∨ month = 11 then 30
  else 31

/-- A date behind its year and the dash after it. -/
def restOfDate (year : Nat) : Reader Unit := fun s => do
  let (month, s) ← fixedNumber 2 1 12 s
  let ((), s) ← literally '-' s
  let (_, s) ← fixedNumber 2 1 (daysInMonth year month) s
  return ((), s)

/-- The minute and second of a time, behind its hour and the colon after it. -/
def restOfTime : Reader Unit := fun s => do
  let (_, s) ← fixedNumber 2 0 59 s
  let ((), s) ← literally ':' s
  let (_, s) ← fixedNumber 2 0 60 s
  match s with
  | '.' :: rest => (Reader.span1 isDigit rest).map fun (_, s) => ((), s)
  | _ => return ((), s)

/-- The hour at the front of a text, if a colon follows it. -/
def hour? (s : List Char) : Option (List Char) := do
  let (_, s) ← fixedNumber 2 0 23 s
  let ((), s) ← literally ':' s
  return s

/-- The distance of a time from the common one. -/
def offset : Reader Unit
  | 'Z' :: rest => some ((), rest)
  | 'z' :: rest => some ((), rest)
  | c :: rest =>
    if c = '+' ∨ c = '-' then do
      let s ← hour? rest
      let (_, s) ← fixedNumber 2 0 59 s
      return ((), s)
    else some ((), c :: rest)
  | [] => some ((), [])

/-- The time of a day behind a date, if there is one. -/
def timeOfDay (s : List Char) : Option (Unit × List Char) :=
  match s with
  | c :: rest =>
    if c = 'T' ∨ c = 't' ∨ c = ' ' then
      match hour? rest with
      | some rest => do
        let ((), rest) ← restOfTime rest
        offset rest
      | none => some ((), s)
    else some ((), s)
  | [] => some ((), s)

/-- The text behind a year and a dash at its front. -/
def year? (s : List Char) : Option (Nat × List Char) := do
  let (year, s) ← fixedNumber 4 0 9999 s
  let ((), s) ← literally '-' s
  return (year, s)

/-- A number or a point in time. -/
def numberOrTime : Reader Toml := fun s =>
  match year? s with
  | some (year, rest) => do
    let ((), rest) ← restOfDate year rest
    let ((), rest) ← timeOfDay rest
    return (.time, rest)
  | none =>
    match hour? s with
    | some rest => (restOfTime rest).map fun ((), rest) => (.time, rest)
    | none => number s

end NestedQuery.Toml
