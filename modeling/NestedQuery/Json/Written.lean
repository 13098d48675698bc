import NestedQuery.Text.Numeral
import NestedQuery.Text.Reader

/-!
# JSON text, taken apart

The grammar of JSON text alone: numbers and strings stay as they are written. Which of these texts
have a value is decided in `NestedQuery.Json.Reader`, so that a member nobody asks for may be
skipped without a look at its value.
-/

namespace NestedQuery.Json

open Text

/-- The parts of a written number. -/
structure WrittenNumber where
  negative : Bool
  whole : List Char
  fraction : List Char
  exponent : Option (Bool × List Char)
  deriving DecidableEq, Repr

/-- A piece of a written string: a character, or four hexadecimal digits of an escape. -/
inductive StringPiece where
  | char (c : Char)
  | unit (n : Nat)
  deriving DecidableEq, Repr

/-- A JSON text that obeys the grammar. -/
inductive Written where
  | null
  | bool (b : Bool)
  | number (n : WrittenNumber)
  | string (pieces : List StringPiece)
  | array (items : List Written)
  | object (members : List (List StringPiece × Written))
  deriving Repr, Inhabited

namespace Written

def isSpace (c : Char) : Bool := c == ' ' || c == '\n' || c == '\t' || c == '\r'

def skipSpace (s : List Char) : List Char := s.dropWhile isSpace

/-- The character that a one letter escape stands for. -/
def escaped? : Char → Option Char
  | '"' => some '"'
  | '\\' => some '\\'
  | '/' => some '/'
  | 'b' => some '\x08'
  | 'f' => some '\x0C'
  | 'n' => some '\n'
  | 'r' => some '\r'
  | 't' => some '\t'
  | _ => none

def unit? (a b c d : Char) : Option Nat := do
  return (((← digitValue? 16 a) * 16 + (← digitValue? 16 b)) * 16 + (← digitValue? 16 c)) * 16 +
    (← digitValue? 16 d)

/-- The pieces of a string and what follows its closing quote. -/
def stringBody : Reader (List StringPiece)
  | [] => none
  | '"' :: rest => some ([], rest)
  | '\\' :: 'u' :: a :: b :: c :: d :: rest => do
    let unit ← unit? a b c d
    let (pieces, rest) ← stringBody rest
    return (.unit unit :: pieces, rest)
  | '\\' :: c :: rest => do
    let char ← escaped? c
    let (pieces, rest) ← stringBody rest
    return (.char char :: pieces, rest)
  | c :: rest =>
    if c.toNat < 0x20 then none
    else do
      let (pieces, rest) ← stringBody rest
      return (.char c :: pieces, rest)

def readString : Reader (List StringPiece)
  | '"' :: rest => stringBody rest
  | _ => none

/-- A zero, or digits of which the first is not zero. -/
def wholeDigits : Reader (List Char)
  | '0' :: rest => if (rest.head?.map isDigit).getD false then none else some (['0'], rest)
  | s => Reader.span1 isDigit s

def fractionDigits : Reader (List Char)
  | '.' :: rest => Reader.span1 isDigit rest
  | s => some ([], s)

def exponentDigits : Reader (Option (Bool × List Char))
  | c :: rest =>
    if c = 'e' ∨ c = 'E' then do
      let (negative, rest) := match rest with
        | '-' :: rest => (true, rest)
        | '+' :: rest => (false, rest)
        | _ => (false, rest)
      let (digits, rest) ← Reader.span1 isDigit rest
      return (some (negative, digits), rest)
    else some (none, c :: rest)
  | [] => some (none, [])

def readNumber : Reader WrittenNumber := fun s => do
  let (negative, s) := match s with
    | '-' :: rest => (true, rest)
    | _ => (false, s)
  let (whole, s) ← wholeDigits s
  let (fraction, s) ← fractionDigits s
  let (exponent, s) ← exponentDigits s
  return (⟨negative, whole, fraction, exponent⟩, s)

/-- A key, a colon and a value. -/
def readPair (value : Reader Written) : Reader (List StringPiece × Written) := fun s => do
  let (key, s) ← readString s
  match skipSpace s with
  | ':' :: s =>
    let (value, s) ← value s
    return ((key, value), s)
  | _ => none

/-- A value in which containers are nested less than `fuel` deep. -/
def readValue : Nat → Reader Written
  | 0, _ => none
  | fuel + 1, s =>
    match skipSpace s with
    | [] => none
    | '[' :: rest =>
      (Reader.listUntil ']' skipSpace (readValue fuel) rest).map fun (items, s) => (.array items, s)
    | '\x7b' :: rest =>
      (Reader.listUntil '\x7d' skipSpace (readPair (readValue fuel)) rest).map fun (members, s) =>
        (.object members, s)
    | '"' :: rest => (stringBody rest).map fun (pieces, s) => (.string pieces, s)
    | c :: rest =>
      if c = 'n' then Reader.word "null" .null (c :: rest)
      else if c = 't' then Reader.word "true" (.bool true) (c :: rest)
      else if c = 'f' then Reader.word "false" (.bool false) (c :: rest)
      else (readNumber (c :: rest)).map fun (n, s) => (.number n, s)

/-- Takes a whole JSON text apart. -/
def ofText? (s : List Char) : Option Written := Reader.all skipSpace (readValue (s.length + 1)) s

end Written

end NestedQuery.Json
