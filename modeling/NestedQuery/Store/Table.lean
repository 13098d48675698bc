import NestedQuery.Store.NumberText
import NestedQuery.Text.Utf8
import NestedQuery.Value

/-!
# Tables

A store keeps tables of cells. What a cell holds may depend on the type of its column: a text column
keeps numbers as text, an integer column keeps text that looks like a number as a number. A cell is
compared with a literal after the literal was converted in the same way.
-/

namespace NestedQuery.Store

/-- What a store keeps in one place. The bytes of a text need not be well formed. -/
inductive Cell where
  | null
  | int (n : Int)
  | real (x : Binary64)
  | text (bytes : List UInt8)
  | blob (bytes : List UInt8)
  deriving DecidableEq, Repr, Inhabited

inductive Affinity where
  | text
  | integer
  -- keeps every value as it is
  | none
  deriving DecidableEq, Repr

namespace Affinity

def ofType (type : String) : Affinity :=
  if type == "TEXT" then .text else if type == "INTEGER" then .integer else .none

end Affinity

namespace Cell

/-- A cell that holds a value; there are no truth values and no NaN in a store. -/
def ofValue : Value → Cell
  | .null => null
  | .bool b => int (if b then 1 else 0)
  | .int n => int n
  | .real x => if x.isNaN then null else real x
  | .text s => text (Text.Utf8.encode s.toList)
  | .bytes b => blob b

/-- The cell that the literal of a value stands for; a number is read from the literal's text. -/
def ofLiteral (v : Value) : Cell :=
  match v with
  | .real _ =>
    match (v.literal?).bind fun text => Numeral.ofText? text.toList with
    | some n => real n.real
    | none => null
  | v => ofValue v

def toValue : Cell → Value
  | null => .null
  | int n => .int n
  | real x => .real x
  | text bytes => .text (.ofList (Text.Utf8.decodeLossy bytes))
  | blob bytes => .bytes bytes

/-- The characters of a text of ASCII; no other byte is a part of a number. -/
def asciiText (bytes : List UInt8) : List Char := bytes.map fun b => .ofNat b.toNat

def toText : Cell → Cell
  | int n => text (Text.Utf8.encode (toString n).toList)
  | real x => text (Text.Utf8.encode (realText x))
  | c => c

/-- The number of a text that looks like one. -/
def toNumber : Cell → Cell
  | text bytes =>
    match Numeral.ofText? (asciiText bytes) with
    | none => text bytes
    | some n =>
      match n.integer? with
      | some i => int i
      | none => real n.real
  | c => c

/-- A whole floating point number as an integer, but for the two ends of the range. -/
def toInteger : Cell → Cell
  | real x =>
    match x.toInt? with
    | some n => if -(twoTo 63 : Int) < n ∧ n < twoTo 63 - 1 then int n else real x
    | none => real x
  | c => c

/-- The cell that a column keeps. -/
def store (affinity : Affinity) (c : Cell) : Cell :=
  match affinity with
  | .text => c.toText
  | .integer => c.toNumber.toInteger
  | .none => c

/-- A literal as it is compared with the cells of a column. -/
def compared (affinity : Affinity) (c : Cell) : Cell :=
  match affinity with
  | .text => c.toText
  | .integer => c.toNumber
  | .none => c

/-- Equality of cells: numbers by value, nothing with null. -/
def equals : Cell → Cell → Bool
  | int m, int n => m == n
  | int m, real y => y.equalsInt m
  | real x, int n => x.equalsInt n
  | real x, real y => x.sameValue y
  | text a, text b => a == b
  | blob a, blob b => a == b
  | _, _ => false

end Cell

structure Column where
  name : String
  affinity : Affinity
  deriving DecidableEq, Repr

/-- Columns that refer to rows of a parent table. -/
structure ForeignKey where
  columns : List String
  parent : String
  -- the columns of the parent that are referred to; where none is named, its primary key
  targets : List String
  deriving DecidableEq, Repr

structure Table where
  name : String
  columns : List Column
  primaryKey : List String
  foreignKeys : List ForeignKey
  rows : List (List Cell)
  deriving DecidableEq, Repr

/-- The tables of a database in order of their creation. -/
abbrev Database := List Table

/-- Names are the same in any case of their ASCII letters. -/
def sameName (a b : String) : Bool := a.toList.map Char.toLower == b.toList.map Char.toLower

namespace Table

/-- The place of a column, and the column. -/
def column? (t : Table) (name : String) : Option (Nat × Column) :=
  (t.columns.zipIdx.find? fun (c, _) => sameName c.name name).map fun (c, i) => (i, c)

/-- A column's name as the table declares it. -/
def declaredName (t : Table) (name : String) : String :=
  ((t.column? name).map fun (_, c) => c.name).getD name

/-- The place of the column that numbers the rows: a primary key that is one integer column. -/
def numbering? (t : Table) : Option Nat :=
  match t.primaryKey with
  | [key] => (t.column? key).bind fun (i, c) => if c.affinity == .integer then some i else none
  | _ => none

/-- The place of the number of a row: in the column that numbers the rows, or behind all columns. -/
def numberPlace (t : Table) : Nat := t.numbering?.getD t.columns.length

def number (place : Nat) (row : List Cell) : Int :=
  match row[place]? with
  | some (.int n) => n
  | _ => 0

/-- Puts a row before all rows with greater numbers. -/
def insertByNumber (place : Nat) (row : List Cell) : List (List Cell) → List (List Cell)
  | [] => [row]
  | r :: rest =>
    if number place row < number place r then row :: r :: rest
    else r :: insertByNumber place row rest

/-- The cells of a row as the columns keep them. -/
def storeRow (t : Table) (row : List Cell) : List Cell :=
  List.zipWith (fun (c : Column) cell => cell.store c.affinity) t.columns row

/-- Adds a row: at its number where a column numbers the rows, otherwise behind the others with its
number as one more cell. -/
def insert (t : Table) (row : List Cell) : Table :=
  let row := t.storeRow row
  match t.numbering? with
  | none => { t with rows := t.rows ++ [row ++ [.int (t.rows.length + 1)]] }
  | some place =>
    -- without a number of its own a row comes behind the last one
    let row :=
      if row[place]? == some .null then
        row.set place (.int ((t.rows.getLast?.map (number place)).getD 0 + 1))
      else row
    { t with rows := insertByNumber place row t.rows }

def withRows (t : Table) (rows : List (List Cell)) : Table := rows.foldl insert t

end Table

end NestedQuery.Store
