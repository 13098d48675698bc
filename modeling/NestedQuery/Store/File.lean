import NestedQuery.Json.Reader
import NestedQuery.Store.Table
import NestedQuery.Value.Exact

/-!
# Databases as JSON text

A database is a list of tables, each an object with its name, its columns with their types, its rows
and, if there are any, its primary key and its foreign keys. The values of the rows are written
exactly; a text may be given by its bytes as well, which need not be well formed.
-/

namespace NestedQuery.Store

namespace Cell

/-- The cell that JSON stands for exactly. -/
def ofExactJson? : Json → Option Cell
  | .obj [("t", v)] => (Value.bytesOfJson? v).map text
  | j => (Value.ofExactJson? j).map ofValue

end Cell

namespace Column

def ofJson? (j : Json) : Option Column :=
  (j.pair? Json.string? Json.string?).map fun (name, type) => ⟨name, .ofType type⟩

end Column

namespace ForeignKey

def ofJson? (j : Json) : Option ForeignKey := do
  return {
    columns := ← j.field? "columns" (Json.listOf? Json.string?)
    parent := ← j.field? "parent" Json.string?
    targets := ← j.listField? "targets" Json.string? }

end ForeignKey

namespace Table

/-- The table that JSON stands for. Its rows are inserted one after the other. -/
def ofJson? (j : Json) : Option Table := do
  let t : Table := {
    name := ← j.field? "name" Json.string?
    columns := ← j.field? "columns" (Json.listOf? Column.ofJson?)
    primaryKey := ← j.listField? "pk" Json.string?
    foreignKeys := ← j.listField? "fks" ForeignKey.ofJson?
    rows := [] }
  return t.withRows (← j.listField? "rows" (Json.listOf? Cell.ofExactJson?))

end Table

namespace Database

def ofJson? (j : Json) : Option Database := j.listOf? Table.ofJson?

def ofText? (text : String) : Option Database := (Json.ofText? text).bind ofJson?

end Database

end NestedQuery.Store
