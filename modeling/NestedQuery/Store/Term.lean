import NestedQuery.Store.Grammar
import NestedQuery.Store.Table

/-!
# What names stand for

A name in a statement is a column of the table, or else one of a few words that have a value in
every table: the number of a row, the two truth values, and null.
-/

namespace NestedQuery.Store

/-- What a name stands for. -/
structure Term where
  -- the name in the answer
  name : String
  affinity : Affinity
  -- the cell in a row
  cell : List Cell → Cell

namespace Table

def cell (row : List Cell) (place : Nat) : Cell := row[place]?.getD .null

def rowNumberNames : List String := ["rowid", "oid", "_rowid_"]

/-- Whether a name stands for the number of a row. -/
def isRowNumber (t : Table) (name : String) : Bool :=
  (t.column? name).isNone && Grammar.isIn rowNumberNames name

/-- The number of a row, under the name of the column that numbers the rows if there is one. -/
def rowNumber (t : Table) : Term where
  name := (t.columns[t.numberPlace]?.map (·.name)).getD "rowid"
  affinity := .integer
  cell := fun row => cell row t.numberPlace

/-- What a name stands for, if it stands for anything. -/
def term? (t : Table) (name : String) : Option Term :=
  if sameName name Grammar.nullWord then some ⟨name, .none, fun _ => .null⟩
  else
    match t.column? name with
    | some (place, c) => some ⟨c.name, c.affinity, fun row => cell row place⟩
    | none =>
      if Grammar.isIn rowNumberNames name then some t.rowNumber
      else if sameName name "true" then some ⟨name, .none, fun _ => .int 1⟩
      else if sameName name "false" then some ⟨name, .none, fun _ => .int 0⟩
      else none

end Table

end NestedQuery.Store
