import NestedQuery.Text.Utf8
import NestedQuery.Value

/-!
# Select statements

A compiled query is kept as a statement of its own; its text is written from it in one place.
-/

namespace NestedQuery

inductive Condition where
  -- the column holds one of the values
  | isIn (column : String) (values : List Value)
  -- the column holds the text
  | equals (column content : String)
  | isNull (column : String)
  deriving DecidableEq, Repr

namespace Condition

def column : Condition → String
  | isIn column _ => column
  | equals column _ => column
  | isNull column => column

def literals (values : List Value) : List String := values.filterMap Value.literal?

/-- The text behind the column. -/
def test : Condition → String
  | isIn _ values => " IN (" ++ ",".intercalate (literals values) ++ ")"
  | equals _ content => " = " ++ Value.quote content
  | isNull _ => " IS NULL"

def render (c : Condition) : String := c.column ++ c.test

end Condition

/-- A query for columns of one table, with conditions that all must hold. -/
structure Select where
  columns : List String
  table : String
  conditions : List Condition
  limit : Option Nat
  offset : Option Nat
  deriving DecidableEq, Repr

namespace Select

def renderHead (s : Select) : String :=
  "SELECT " ++ ", ".intercalate s.columns ++ " FROM " ++ s.table

/-- The word before the first condition, and the one before any other. -/
def connective (first : Bool) : String := if first then " WHERE " else " AND "

def renderConditions (first : Bool) : List Condition → String
  | [] => ""
  | c :: rest => connective first ++ c.render ++ renderConditions false rest

def renderLimit (s : Select) : String :=
  match s.limit with
  | some n => " LIMIT " ++ toString n
  | none => ""

def renderOffset (s : Select) : String :=
  match s.offset with
  | some n => " OFFSET " ++ toString n
  | none => ""

def render (s : Select) : String :=
  s.renderHead ++ renderConditions true s.conditions ++ s.renderLimit ++ s.renderOffset

/-! ### Where columns stand in the text -/

def bytes (text : String) : Nat := text.utf8ByteSize

/-- The columns of a list and where each stands; the list begins at `start`. -/
def columnSites (start : Nat) : List String → List (String × Nat)
  | [] => []
  | c :: rest => (c, start) :: columnSites (start + bytes c + bytes ", ") rest

/-- The columns of conditions and where each stands; the first connective begins at `start`. -/
def conditionSites (first : Bool) (start : Nat) : List Condition → List (String × Nat)
  | [] => []
  | c :: rest =>
    let site := start + bytes (connective first)
    (c.column, site) :: conditionSites false (site + bytes c.render) rest

/-- Every column that the text names, with the byte at which it stands there. -/
def sites (s : Select) : List (String × Nat) :=
  columnSites (bytes "SELECT ") s.columns ++ conditionSites true (bytes s.renderHead) s.conditions

end Select

end NestedQuery
