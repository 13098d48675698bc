/-!
# Patterns

A pattern is made of characters, of sets of characters between brackets, and of words for kinds of
characters and for places in a text; it can be repeated, grouped and put beside alternatives. Its
height is the number of containers around its innermost part.
-/

namespace NestedQuery.Pattern

/-- A character of a pattern. One that is written by two hexadecimal digits may stand for a byte. -/
structure Letter where
  char : Char
  isByte : Bool
  deriving DecidableEq, Repr

/-- The parts of a pattern that hold no others. -/
inductive Atom where
  | letter (l : Letter)
  -- any character
  | dot
  -- the begin or the end of a line or of the text
  | anchor
  -- the begin or the end of a word, or no such place
  | boundary
  -- digits, blanks or the characters of words, or all others
  | kind (negated : Bool)
  deriving DecidableEq, Repr

/-- A set of characters. -/
inductive CharSet where
  | empty
  | letter (l : Letter)
  | range (first last : Letter)
  -- a set of ASCII characters with a name
  | named (negated : Bool)
  | kind (negated : Bool)
  | union (members : List CharSet)
  | bracket (negated : Bool) (content : CharSet)
  -- what two sets have in common, or what one has and the other has not
  | combined (left right : CharSet)
  deriving Repr

/-- A way of reading a pattern that is turned on or off. -/
structure Flag where
  letter : Char
  isOn : Bool
  deriving DecidableEq, Repr

end Pattern

inductive Pattern where
  | empty
  | atom (a : Pattern.Atom)
  | set (s : Pattern.CharSet)
  -- flags for what follows in the group
  | flags (flags : List Pattern.Flag)
  | repeated (p : Pattern)
  | group (name : Option (List Char)) (flags : List Pattern.Flag) (content : Pattern)
  | sequence (items : List Pattern)
  | choice (branches : List Pattern)
  deriving Repr

namespace Pattern

namespace CharSet

/-- The set of the members of a list. -/
def ofMembers : List CharSet → CharSet
  | [] => empty
  | [s] => s
  | members => union members

mutual

def height : CharSet → Nat
  | empty | letter _ | range _ _ | named _ | kind _ => 0
  | union members => 1 + heights members
  | bracket _ content => 1 + height content
  | combined left right => 1 + max (height left) (height right)

def heights : List CharSet → Nat
  | [] => 0
  | s :: rest => max (height s) (heights rest)

end

end CharSet

/-- The pattern of parts one behind the other. -/
def ofItems : List Pattern → Pattern
  | [] => empty
  | [p] => p
  | items => sequence items

/-- The pattern of alternatives. -/
def ofBranches : List Pattern → Pattern
  | [p] => p
  | branches => choice branches

mutual

def height : Pattern → Nat
  | empty | atom _ | flags _ => 0
  | set s => s.height
  | repeated p => 1 + height p
  | group _ _ content => 1 + height content
  | sequence items => 1 + heights items
  | choice branches => 1 + heights branches

def heights : List Pattern → Nat
  | [] => 0
  | p :: rest => max (height p) (heights rest)

end

mutual

/-- The names of the groups. -/
def names : Pattern → List (List Char)
  | empty | atom _ | set _ | flags _ => []
  | repeated p => names p
  | group name _ content => name.toList ++ names content
  | sequence items => namesOfAll items
  | choice branches => namesOfAll branches

def namesOfAll : List Pattern → List (List Char)
  | [] => []
  | p :: rest => names p ++ namesOfAll rest

end

end NestedQuery.Pattern
