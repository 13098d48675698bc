import NestedQuery.Pattern.Reader
import NestedQuery.Text.Cut

/-!
# Log filters

A log filter is a list of directives with commas between them. A directive is a level, a target, or
both with `=` between them; behind the target a span and a field may stand in brackets, and the
value of the field is a pattern. Logging has no other effect than its own output, so only whether a
filter can be read is of interest.

Where a part stands is counted from the first character that is not blank, but the part is taken
from the text with the blanks before it.
-/

namespace NestedQuery.LogFilter

open Text

/-- Why a filter cannot be read. -/
inductive Fault where
  | malformed
  | unknownLevel
  | badField (fault : Pattern.Fault)
  -- a part begins or ends inside a character
  | torn
  deriving DecidableEq, Repr

def Fault.message : Fault → String
  | malformed => "invalid filter directive"
  | unknownLevel =>
    "error parsing level filter: expected one of \"off\", \"error\", \"warn\", \"info\", " ++
      "\"debug\", \"trace\", or a number 0-5"
  | badField fault => "invalid field filter: " ++ fault.message
  | torn => "a part of a directive begins or ends inside a character"

/-! ### Parts -/

def levelNames : List String := ["off", "error", "warn", "info", "debug", "trace"]

/-- A level is given by its number or by its name in any case. -/
def isLevel (s : List Char) : Bool :=
  (naturalBelow? 6 s).isSome || levelNames.contains (.ofList (s.map Char.toLower))

/-- The first character of a target. -/
def isStart (c : Char) : Bool := c == '-' || c == ':' || c == '_' || isAlphanumeric c

/-- Why the value of a field cannot be searched for. Truth values and numbers are no patterns. -/
def valueFault? (value : List Char) : Option Pattern.Fault :=
  if value == "true".toList || value == "false".toList || isReal value then none
  else Pattern.fault? value

/-- Why a field cannot be searched for. Its value stands between the first equals sign and the next
one. -/
def fieldFault? (field : List Char) : Option Pattern.Fault :=
  ((pieces '=' field)[1]?).bind valueFault?

/-- The text behind a number of bytes. -/
def dropBytes : Nat → List Char → Option (List Char)
  | 0, s => some s
  | _ + 1, [] => none
  | n + 1, c :: rest => if c.utf8Size ≤ n + 1 then dropBytes (n + 1 - c.utf8Size) rest else none

/-- The front of a text that takes up a number of bytes. -/
def takeBytes : Nat → List Char → Option (List Char)
  | 0, _ => some []
  | _ + 1, [] => none
  | n + 1, c :: rest =>
    if c.utf8Size ≤ n + 1 then (takeBytes (n + 1 - c.utf8Size) rest).map (c :: ·) else none

/-- The part of a text from one byte to another. -/
def part (text : List Char) (first last : Nat) : Except Fault (List Char) :=
  match (dropBytes first text).bind (takeBytes (last - first)) with
  | some s => .ok s
  | none => .error .torn

/-! ### Directives -/

/-- Reads what may follow on a span: nothing, or a level, of which the place is given. -/
def behindSpan (site : Nat) : List Char → Except Fault (Option Nat)
  | [] => .ok none
  | '=' :: _ => .ok (some (site + 1))
  | _ => .error .malformed

/-- Reads a field that begins at `first`, and the end of the span. -/
def field (text : List Char) (first site : Nat) : List Char → Except Fault (Option Nat)
  | [] => .error .malformed
  | c :: rest =>
    if c = '\x7d' then do
      let content ← part text first site
      if content.isEmpty then .error .malformed
      else
        match fieldFault? content, rest with
        | some fault, _ => .error (.badField fault)
        | none, ']' :: rest => behindSpan (site + 2) rest
        | none, _ => .error .malformed
    else field text first (site + c.utf8Size) rest

/-- Reads a span that begins at `first`. -/
def span (text : List Char) (first site : Nat) : List Char → Except Fault (Option Nat)
  | [] => .error .malformed
  | c :: rest =>
    if c = ']' then (part text first site).bind fun _ => behindSpan (site + 1) rest
    else if c = '\x7b' then
      (part text first site).bind fun _ => field text (site + 1) (site + 1) rest
    else span text first (site + c.utf8Size) rest

/-- Reads a target, or a level that stands alone. -/
def target (text : List Char) (site : Nat) : List Char → Except Fault (Option Nat)
  | [] => .ok none
  | c :: rest =>
    if c = '=' then (part text 0 site).map fun _ => some (site + 1)
    else if c = '[' then (part text 0 site).bind fun _ => span text (site + 1) (site + 1) rest
    else target text (site + c.utf8Size) rest

/-- The place of the level that a directive gives to a target. -/
def levelSite (text : List Char) : Except Fault (Option Nat) :=
  match trim text with
  | '[' :: rest => span text 1 1 rest
  | c :: rest => if isStart c then target text c.utf8Size rest else .error .malformed
  | [] => .error .malformed

/-- Reads a directive. -/
def directive (text : List Char) : Except Fault Unit := do
  match ← levelSite text with
  | none => return ()
  | some site =>
    match dropBytes site text with
    | none => .error .torn
    | some level => if level.isEmpty || isLevel level then return () else .error .unknownLevel

/-- Reads a filter; nothing between two commas is no directive. -/
def check (filter : String) : Except Fault Unit :=
  ((pieces ',' filter.toList).filter fun s => !s.isEmpty).forM directive

end NestedQuery.LogFilter
