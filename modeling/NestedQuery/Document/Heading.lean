import NestedQuery.Ordered
import NestedQuery.Text.Blank
import NestedQuery.Text.Cut

/-!
# Headings

The word before an opening brace is the heading of a node: a name, perhaps an output key and a
colon before it, and perhaps arguments in parentheses behind it.
-/

namespace NestedQuery

open Text

/-- Argument values by key; a key may stand without a value. -/
abbrev Arguments := Ordered (String × Option String) Prod.fst

namespace Arguments

def pair (s : List Char) : String × Option String :=
  match cutFirst ':' s with
  | some (key, value) => (.ofList (trim key), some (.ofList (trim value)))
  -- a bare key has no value
  | none => (.ofList s, none)

def written (s : List Char) : List (List Char) :=
  -- separators side by side leave nothing between them
  ((pieces ',' s).map trim).filter fun piece => !piece.isEmpty

/-- The arguments of a list with commas; of two with one key the later one holds. -/
def ofText (s : List Char) : Arguments := .ofList ((written s).map pair)

/-- The value of an argument that is given with one. -/
def value? (a : Arguments) (key : String) : Option String := (a.find? key).bind Prod.snd

end Arguments

structure Heading where
  outputKey : String
  name : String
  arguments : Arguments
  deriving DecidableEq, Repr

namespace Heading

def ofTitle (title : List Char) (arguments : Arguments) : Heading :=
  match cutFirst ':' title with
  | some (key, name) => ⟨.ofList (trim key), .ofList (trim name), arguments⟩
  -- without a colon the name is the output key as well
  | none => ⟨.ofList (trim title), .ofList (trim title), arguments⟩

/-- The parts of a heading. The arguments stand between its outermost parentheses. -/
def ofWord (w : List Char) : Heading :=
  match cutFirst '(' w with
  | none => ofTitle w .empty
  | some (before, rest) =>
    match cutLast ')' rest with
    | some (inside, behind) => ofTitle (before ++ behind) (.ofText inside)
    -- no parenthesis closes them: they reach to the end
    | none => ofTitle before (.ofText rest)

end Heading

end NestedQuery
