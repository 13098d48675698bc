import NestedQuery.Select.Basic
import NestedQuery.Store.Term

/-!
# The order of rows

A table is read in the order of its rows. A primary key that does not number the rows has an index,
in which the rows stand in order of their keys. A statement that does not ask for rows by their
numbers is answered from the index if it has a condition on the first column of the key, or if the
key holds all that the statement asks for and takes up less room than a row.
-/

namespace NestedQuery.Store

namespace Cell

/-- Null comes before numbers, numbers before texts, and texts before other bytes. -/
def rank : Cell → Nat
  | null => 0
  | int _ => 1
  | real _ => 1
  | text _ => 2
  | blob _ => 3

/-- The value of a number in units of `2 ^ -1074`; infinite ones lie beyond all others. -/
def units : Cell → Int
  | int n => n * twoTo 1074
  | real x =>
    if x.isFinite then x.units else if x.isNegative then -(twoTo 2200 : Int) else twoTo 2200
  | _ => 0

def bytes : Cell → List UInt8
  | text b => b
  | blob b => b
  | _ => []

/-- Compares bytes from the first one on; what ends first comes first. -/
def compareBytes : List UInt8 → List UInt8 → Ordering
  | [], [] => .eq
  | [], _ :: _ => .lt
  | _ :: _, [] => .gt
  | a :: as, b :: bs => (compare a.toNat b.toNat).then (compareBytes as bs)

def order (a b : Cell) : Ordering :=
  ((compare a.rank b.rank).then (compare a.units b.units)).then (compareBytes a.bytes b.bytes)

/-- Compares keys from the first column on. -/
def orderOfKeys : List Cell → List Cell → Ordering
  | a :: as, b :: bs => (order a b).then (orderOfKeys as bs)
  | _, _ => .eq

end Cell

/-- The room that a column is expected to take, in words. -/
def Column.room (c : Column) : Nat := if c.affinity = .text then 5 else 1

/-- Ten times the binary logarithm of a number that is at least eight, by its first four bits. -/
def roughLog (n : Nat) : Nat :=
  let more := n.log2 - 3
  more * 10 + 30 + [0, 2, 3, 5, 6, 7, 8, 9].getD (n / twoTo more % 8) 0

/-- The room of columns and the number of a row. -/
def roomOf (columns : List Column) : Nat :=
  roughLog (4 * (columns.foldl (fun room c => room + c.room) 1))

namespace Table

/-- The columns of the index of the primary key, with their places; there is none where the key
numbers the rows. -/
def indexed (t : Table) : List (Nat × Column) :=
  if t.numbering?.isSome then [] else t.primaryKey.filterMap t.column?

/-- Whether a name is one of some columns. -/
def isAmong (columns : List (Nat × Column)) (name : String) : Bool :=
  columns.any fun (_, c) => sameName c.name name

/-- Whether a condition asks for rows by their numbers. -/
def isByNumber (t : Table) : Condition → Bool
  | .isIn name _ => t.isRowNumber name
  | .equals name _ => t.isRowNumber name
  | .isNull _ => false

/-- Whether a statement is answered from the index of the primary key. -/
def usesIndex (t : Table) (s : Select) : Bool :=
  let conditioned := s.conditions.map (·.column)
  let used := (s.columns ++ conditioned).filter fun name => (t.column? name).isSome
  match t.indexed with
  | [] => false
  | first :: rest =>
    -- rows that are asked for by number are found without an index
    !s.conditions.any t.isByNumber &&
      (conditioned.any (isAmong [first]) ||
        -- the key alone answers, and in less room
        (used.all (isAmong (first :: rest)) &&
          roomOf ((first :: rest).map (·.2)) < roomOf t.columns))

def keyOf (t : Table) (row : List Cell) : List Cell :=
  t.indexed.map fun (place, _) => cell row place

/-- The rows of a table in the order in which a statement reads them. -/
def rowsFor (t : Table) (s : Select) : List (List Cell) :=
  if t.usesIndex s then
    t.rows.mergeSort fun a b => (Cell.orderOfKeys (t.keyOf a) (t.keyOf b)).isLE
  else t.rows

end Table

end NestedQuery.Store
