import NestedQuery.Request.Reading
import NestedQuery.Toml.Decode
import NestedQuery.Toml.Reader

/-!
# Configuration

A configuration names the database, the catalog, the log filter and the default identifier, and sets
the limit of nesting. Every part may be left out, and there are no other parts.
-/

namespace NestedQuery

structure Config where
  database : Option String
  catalog : Option String
  log : Option String
  idField : Option String
  maxDepth : Nat
  deriving DecidableEq, Repr

namespace Config

def default : Config := ⟨none, none, none, none, defaultMaxDepth⟩

/-- The limit of nesting in the table of limits. -/
def limitOfToml? (v : Toml) : Option (Option Nat) :=
  match v with
  | .table members =>
    if members.all fun m => m.1 == "max_depth" then
      Toml.optional? Toml.natural? (Toml.find? "max_depth" members)
    else none
  | .arr (v :: _) => (Toml.natural? v).map some
  | _ => none

/-- The names of the parts of a configuration. -/
def keys : List String := ["database", "catalog", "log", "id_field", "limits"]

/-- The configuration that a text stands for. -/
def ofToml? (text : String) : Option Config := do
  let members ← Toml.ofText? text
  if members.any fun m => !keys.contains m.1 then none
  else
    let read (key : String) := Toml.optional? Toml.string? (Toml.find? key members)
    let limit ← match Toml.find? "limits" members with
      | none => some none
      | some v => limitOfToml? v
    return {
      database := ← read "database"
      catalog := ← read "catalog"
      log := ← read "log"
      idField := ← read "id_field"
      maxDepth := limit.getD defaultMaxDepth }

end Config

end NestedQuery
