import NestedQuery.Request.Execution
import NestedQuery.Store.Order

/-!
# Answering statements

A database answers a statement with the rows of the table, in order, that meet all conditions. It
refuses a statement that cannot be read, that names what the database does not have, or whose page
lies beyond the integers.

This is the store of the program and no description of every database: it knows columns of text, of
integers and of everything else but none of reals, an index for the primary key alone, whose one
integer column numbers the rows, and no names for the time of day. What is proved of requests to a
database is proved of any store that executes well-formed statements (`Database.Executes`) or that
answers as a database reads (`Database.Answers`), not of this one.
-/

namespace NestedQuery.Store

/-- Why a database refuses a statement. -/
inductive Refusal where
  | unreadable (reason : Unreadable)
  | noTable (name : String)
  | tooManyColumns
  | noColumn (name : String) (site : Nat)
  -- a number of a page is no integer of 64 bits
  | mismatch
  deriving DecidableEq, Repr

def Refusal.message (text : String) (refusal : Refusal) : String :=
  let place (site : Nat) : String := " in " ++ text ++ " at offset " ++ toString site
  match refusal with
  | unreadable (.misplaced m) => "near \"" ++ m.word ++ "\": syntax error" ++ place m.site
  | unreadable (.unclosed m) => "unrecognized token: \"" ++ m.word ++ "\"" ++ place m.site
  | unreadable .tooDeep =>
    "Expression tree is too large (maximum depth " ++ toString depthLimit ++ ")"
  | noTable name => "no such table: " ++ name
  | tooManyColumns => "too many columns in result set"
  | noColumn name site => "no such column: " ++ name ++ place site
  | mismatch => "datatype mismatch"

namespace Table

def meets (t : Table) (row : List Cell) (condition : Condition) : Bool :=
  match t.term? condition.column with
  | none => false
  | some term =>
    -- the literal takes the type of the column, the cell has it already
    let holds (v : Value) : Bool :=
      ((Cell.ofLiteral v).compared term.affinity).equals (term.cell row)
    match condition with
    | .isIn _ values => values.any holds
    | .equals _ content => holds (.text content)
    | .isNull _ => term.cell row == .null

/-- The record of a row: the named columns, under the names that the table declares. -/
def record (t : Table) (columns : List String) (row : List Cell) : Record :=
  .ofList <| columns.filterMap fun name =>
    (t.term? name).map fun term => (term.name, (term.cell row).toValue)

end Table

/-! ### Refusals -/

/-- Columns that are too many for one answer. -/
def columnLimit : Nat := 2000

/-- The first name of a statement that stands for nothing in the table. -/
def missingColumn? (t : Table) (s : Select) : Option Refusal :=
  (s.sites.find? fun (name, _) => (t.term? name).isNone).map fun (name, site) =>
    .noColumn name site

/-- Whether a page has a number too great to be an integer. -/
def overflows (s : Select) : Bool :=
  -- behind a limit of zero the offset is not looked at
  s.limit.any (!fitsSigned ·) || (s.limit != some 0 && s.offset.any (!fitsSigned ·))

/-- Why a statement on a table is refused, if it is. -/
def refusal? (t : Table) (s : Select) : Option Refusal :=
  if columnLimit < s.columns.length then some .tooManyColumns
  else (missingColumn? t s).or (if overflows s then some .mismatch else none)

/-! ### Answers -/

def page {α : Type} (limit offset : Option Nat) (items : List α) : List α :=
  let items := items.drop (offset.getD 0)
  match limit with
  | some n => items.take n
  | none => items

namespace Database

def table? (db : Database) (name : String) : Option Table := db.find? fun t => sameName t.name name

def answer (db : Database) (s : Select) : Except Refusal (List Record) :=
  match unreadable? s with
  | some reason => .error (.unreadable reason)
  | none =>
    match table? db s.table with
    | none => .error (.noTable s.table)
    | some t =>
      match refusal? t s with
      | some refusal => .error refusal
      | none =>
        let rows := (t.rowsFor s).filter fun row => s.conditions.all (t.meets row)
        .ok ((page s.limit s.offset rows).map (t.record s.columns))

/-- A database as a store of queries. -/
def engine (db : Database) : Engine := fun _ s => (answer db s).mapError (·.message s.render)

/-- The store of a database that cannot be read: a statement is read before the database is. -/
def unreadableEngine (reason : String) : Engine := fun _ s =>
  match unreadable? s with
  | some u => .error ((Refusal.unreadable u).message s.render)
  | none => .error reason

end Database

end NestedQuery.Store
