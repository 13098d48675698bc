import NestedQuery.Pattern.Support
import NestedQuery.Text.Alphabetic
import NestedQuery.Text.Blank
import NestedQuery.Text.Numeral
import NestedQuery.Text.Reader

/-!
# Reading patterns

A pattern is read from its text. Under the flag `x` blanks between its parts and notes from a number
sign to the end of the line do not count. A pattern holds no closing brace, so that an opening one
is out of place wherever it is not a character itself.
-/

namespace NestedQuery.Pattern

open Text

/-! ### Blanks -/

/-- Skips blanks and notes. -/
def skipNotes (inNote : Bool) : List Char → List Char
  | [] => []
  | c :: rest =>
    if inNote then skipNotes (c != '\n') rest
    else if isBlank c then skipNotes false rest
    else if c = '#' then skipNotes true rest
    else c :: rest

/-- Skips what does not count. -/
def skip (spaced : Bool) (s : List Char) : List Char := if spaced then skipNotes false s else s

/-- As `skip`, and something must be left. -/
def skipTo? (spaced : Bool) (s : List Char) : Option (List Char) :=
  let s := skip spaced s
  if s.isEmpty then none else some s

/-- The character behind a dash, as far as a range depends on it: behind a number sign only blanks
are skipped, and not the rest of the note. -/
def peek (spaced : Bool) (s : List Char) : Option Char :=
  if spaced then
    let behind := match s.dropWhile isBlank with
      | '#' :: rest => rest.dropWhile isBlank
      | rest => rest
    behind.head?.or s.head?
  else s.head?

/-! ### Characters -/

/-- A number of hexadecimal digits. -/
def hexDigits (spaced : Bool) : Nat → Reader (List Char)
  | 0, s => some ([], skip spaced s)
  | count + 1, s =>
    match skip spaced s with
    | [] => none
    | c :: rest =>
      if (digitValue? 16 c).isSome then
        (hexDigits spaced count rest).map fun (digits, rest) => (c :: digits, rest)
      else none

/-- The character of a number of hexadecimal digits. -/
def hexLetter (spaced : Bool) (count : Nat) : Reader Atom := fun s => do
  let (digits, rest) ← hexDigits spaced count s
  return (.letter ⟨← charOfDigits? digits, count == 2⟩, rest)

/-- Signs of ASCII but for angle brackets. -/
def isSign (c : Char) : Bool := c.toNat < 0x80 && !c.isAlphanum && c != '<' && c != '>'

/-- What a letter or sign behind a backslash stands for. -/
def escapedAtom? (c : Char) : Option Atom :=
  if isSign c then some (.letter ⟨c, false⟩)
  else if ['a', 'f', 'n', 'r', 't', 'v'].contains c then some (.letter ⟨controlOf c, false⟩)
  else if ['d', 's', 'w'].contains c then some (.kind false)
  else if ['D', 'S', 'W'].contains c then some (.kind true)
  else if ['A', 'z'].contains c then some .anchor
  else if ['b', 'B', '<', '>'].contains c then some .boundary
  else none
where
  -- the control character that a letter stands for
  controlOf (c : Char) : Char :=
    ([('a', '\x07'), ('f', '\x0C'), ('n', '\n'), ('r', '\r'), ('t', '\t')].lookup c).getD '\x0B'

/-- What a backslash and what follows it stand for. -/
def escape (spaced : Bool) : Reader Atom
  | [] => none
  | 'x' :: rest => hexLetter spaced 2 rest
  | 'u' :: rest => hexLetter spaced 4 rest
  | 'U' :: rest => hexLetter spaced 8 rest
  | c :: rest => (escapedAtom? c).map fun a => (a, rest)

/-- A part of a pattern that holds no others. -/
def atomAt (spaced : Bool) : Reader Atom
  | [] => none
  | '\\' :: rest => escape spaced rest
  | '.' :: rest => some (.dot, rest)
  | '^' :: rest => some (.anchor, rest)
  | '$' :: rest => some (.anchor, rest)
  | c :: rest => some (.letter ⟨c, false⟩, rest)

/-! ### Sets -/

/-- A character of a set, or what stands for some. -/
def setAtom (spaced : Bool) : Reader Atom
  | [] => none
  | '\\' :: rest => escape spaced rest
  | c :: rest => some (.letter ⟨c, false⟩, rest)

def memberOf? : Atom → Option CharSet
  | .letter l => some (.letter l)
  | .kind negated => some (.kind negated)
  | _ => none

def rangeOf? : Atom → Atom → Option CharSet
  | .letter first, .letter last =>
    if first.char ≤ last.char then some (.range first last) else none
  | _, _ => none

/-- A character or a range of a set. -/
def setMember (spaced : Bool) : Reader CharSet := fun s => do
  let (first, s) ← setAtom spaced s
  match ← skipTo? spaced s with
  | '-' :: rest =>
    if peek spaced rest = some ']' ∨ peek spaced rest = some '-' then
      return (← memberOf? first, '-' :: rest)
    else
      let (last, rest) ← setAtom spaced (← skipTo? spaced rest)
      return (← rangeOf? first last, rest)
  | s => return (← memberOf? first, s)

/-- The names of sets of ASCII characters. -/
def setNames : List String :=
  ["alnum", "alpha", "ascii", "blank", "cntrl", "digit", "graph", "lower", "print", "punct",
    "space", "upper", "word", "xdigit"]

/-- A set with a name, behind its bracket. -/
def namedSet? : Reader CharSet
  | ':' :: s =>
    let (negated, s) := match s with
      | '^' :: rest => (true, rest)
      | _ => (false, s)
    match s.dropWhile (· != ':') with
    | ':' :: ']' :: rest =>
      if setNames.contains (.ofList (s.takeWhile (· != ':'))) then some (.named negated, rest)
      else none
    | _ => none
  | _ => none

/-- Takes dashes off the front of a set. -/
def dashes (spaced : Bool) : Nat → Reader (List CharSet)
  | 0, _ => none
  | fuel + 1, s =>
    match s with
    | '-' :: rest => do
      let (more, rest) ← dashes spaced fuel (← skipTo? spaced rest)
      return (.letter ⟨'-', false⟩ :: more, rest)
    | s => some ([], s)

/-- The front of a set behind its bracket: whether it is negated, and the members that stand there
because a dash and a closing bracket are characters at this place. -/
def setFront (spaced : Bool) : Reader (Bool × List CharSet) := fun s => do
  let s ← skipTo? spaced s
  let (negated, s) ← match s with
    | '^' :: rest => (skipTo? spaced rest).map fun rest => (true, rest)
    | s => some (false, s)
  let (members, s) ← dashes spaced (s.length + 1) s
  match members, s with
  | [], ']' :: rest => return ((negated, [.letter ⟨']', false⟩]), ← skipTo? spaced rest)
  | _, _ => return ((negated, members), s)

/-- The set of some members, together with the set before them if an operation stands between. -/
def setOf (left : Option CharSet) (members : List CharSet) : CharSet :=
  match left with
  | none => .ofMembers members
  | some left => .combined left (.ofMembers members)

/-- Reads a set up to its closing bracket. -/
def setBody (spaced : Bool) :
    Nat → Option CharSet → List CharSet → List Char → Option (CharSet × List Char)
  | 0, _, _, _ => none
  | fuel + 1, left, members, s => do
    match ← skipTo? spaced s with
    | ']' :: rest => return (setOf left members, rest)
    | '&' :: '&' :: rest => setBody spaced fuel (some (setOf left members)) [] rest
    | '-' :: '-' :: rest => setBody spaced fuel (some (setOf left members)) [] rest
    | '~' :: '~' :: rest => setBody spaced fuel (some (setOf left members)) [] rest
    | '[' :: rest =>
      match namedSet? rest with
      | some (named, rest) => setBody spaced fuel left (members ++ [named]) rest
      | none =>
        let ((negated, front), rest) ← setFront spaced rest
        let (content, rest) ← setBody spaced fuel none front rest
        setBody spaced fuel left (members ++ [.bracket negated content]) rest
    | s =>
      let (member, rest) ← setMember spaced s
      setBody spaced fuel left (members ++ [member]) rest

/-- A set behind its bracket. -/
def charSet (spaced : Bool) : Reader CharSet := fun s => do
  let ((negated, front), rest) ← setFront spaced s
  let (content, rest) ← setBody spaced (rest.length + 1) none front rest
  return (.bracket negated content, rest)

/-! ### Groups -/

def flagLetters : List Char := ['-', 'i', 'm', 's', 'U', 'u', 'R', 'x']

/-- Flags, none of them twice, and what ends them. -/
def flagsAt (isOn : Bool) (seen : List Char) : List Char → Option (List Flag × Char × List Char)
  | [] => none
  | c :: rest =>
    if c = ':' ∨ c = ')' then
      if seen.head? = some '-' then none else some ([], c, rest)
    else if seen.contains c || !flagLetters.contains c then none
    else if c = '-' then flagsAt false (c :: seen) rest
    else (flagsAt isOn (c :: seen) rest).map fun (fs, e, rest) => (⟨c, isOn⟩ :: fs, e, rest)

def isNameStart (c : Char) : Bool := c == '_' || isAlphabetic c

def isNameChar (c : Char) : Bool := ['_', '.', '[', ']'].contains c || isAlphanumeric c

/-- The name of a group and the bracket behind it. -/
def groupName : Reader (List Char) := fun s =>
  match s.takeWhile (· != '>'), s.dropWhile (· != '>') with
  | c :: name, _ :: rest =>
    if isNameStart c && name.all isNameChar then some (c :: name, rest) else none
  | _, _ => none

/-- What an opening parenthesis begins. -/
inductive Opening where
  | flags (flags : List Flag)
  | group (name : Option (List Char)) (flags : List Flag)

/-- What follows on an opening parenthesis. -/
def opening (spaced : Bool) (s : List Char) : Option (Opening × List Char) :=
  match skip spaced s with
  | '?' :: 'P' :: '<' :: rest =>
    (groupName rest).map fun (name, rest) => (.group (some name) [], rest)
  | '?' :: '<' :: rest => (groupName rest).map fun (name, rest) => (.group (some name) [], rest)
  | '?' :: rest =>
    match flagsAt true [] rest with
    | none => none
    | some (fs, e, rest) =>
      if e = ':' then some (.group none fs, rest)
      else if fs.isEmpty then none
      else some (.flags fs, rest)
  | s => some (.group none [], s)

/-- Whether blanks do not count under further flags. -/
def isSpaced (spaced : Bool) (fs : List Flag) : Bool :=
  ((fs.find? fun flag => flag.letter = 'x').map (·.isOn)).getD spaced

/-- The parts with the last one repeated, if it can be. -/
def repeatLast? (items : List Pattern) : Option (List Pattern) :=
  match items.getLast? with
  | none | some (.flags _) => none
  | some p => some (items.dropLast ++ [.repeated p])

/-- Reads a pattern up to its end or to a closing parenthesis. -/
def body : Nat → Bool → List Pattern → List Pattern → List Char → Option (Pattern × List Char)
  | 0, _, _, _, _ => none
  | fuel + 1, spaced, branches, items, s => do
    match skip spaced s with
    | [] => return (.ofBranches (branches ++ [.ofItems items]), [])
    | ')' :: rest => return (.ofBranches (branches ++ [.ofItems items]), ')' :: rest)
    | '|' :: rest => body fuel spaced (branches ++ [.ofItems items]) [] rest
    | '{' :: _ => none
    | '[' :: rest =>
      let (s, rest) ← charSet spaced rest
      body fuel spaced branches (items ++ [.set s]) rest
    | '(' :: rest =>
      match ← opening spaced rest with
      | (.flags fs, rest) =>
        body fuel (isSpaced spaced fs) branches (items ++ [.flags fs]) rest
      | (.group name fs, rest) =>
        match ← body fuel (isSpaced spaced fs) [] [] rest with
        | (content, ')' :: rest) =>
          body fuel spaced branches (items ++ [.group name fs content]) rest
        | _ => none
    | c :: rest =>
      if c = '?' ∨ c = '*' ∨ c = '+' then
        let items ← repeatLast? items
        match rest with
        | '?' :: rest => body fuel spaced branches items rest
        | rest => body fuel spaced branches items rest
      else
        let (a, rest) ← atomAt spaced (c :: rest)
        body fuel spaced branches (items ++ [.atom a]) rest

/-- The pattern that a text stands for. -/
def ofText? (s : List Char) : Option Pattern :=
  match body (s.length + 1) false [] [] s with
  | some (p, []) => some p
  | _ => none

/-! ### Faults -/

/-- Why a pattern cannot be searched for. -/
inductive Fault where
  -- it cannot be read, or it asks for more than is known of characters
  | unbuildable
  | wordBoundary
  deriving DecidableEq, Repr

def Fault.message : Fault → String
  | unbuildable => "error building NFA"
  | wordBoundary =>
    "unsupported regex feature for DFAs: cannot build DFAs for regexes with Unicode word " ++
      "boundaries; switch to ASCII word boundaries, or heuristically enable Unicode word " ++
      "boundaries or use a different regex engine"

def heightLimit : Nat := 250

/-- Why the pattern that a text stands for cannot be searched for, if it cannot. -/
def fault? (s : List Char) : Option Fault :=
  match ofText? s with
  | none => some .unbuildable
  | some p =>
    if heightLimit < p.height || !decide p.names.Nodup then some .unbuildable
    else
      match (p.verdict .initial).2 with
      | .fine => none
      | .boundary => some .wordBoundary
      | .refused => some .unbuildable

end NestedQuery.Pattern
