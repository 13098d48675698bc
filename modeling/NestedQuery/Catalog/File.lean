import NestedQuery.Catalog
import NestedQuery.Toml.Decode
import NestedQuery.Toml.Printer
import NestedQuery.Toml.Reader

/-!
# Catalogs in TOML

A catalog is written as an array of tables, one for each entity. A catalog that is read must
describe every entity once, and every relationship must lead to an entity it describes.
-/

namespace NestedQuery

/-- Why the text of a catalog was refused. -/
inductive CatalogFault where
  -- the text is no TOML, or not the TOML of a catalog
  | unreadable
  | declaredTwice (entity : String)
  | dangling (entity relationship target : String)
  deriving DecidableEq, Repr

namespace CatalogFault

/-- The message about a catalog, which may stand in a file. -/
def message (file : Option String) : CatalogFault → String
  | unreadable =>
    "failed to parse catalog" ++ (file.map (" " ++ ·)).getD "" ++ ": TOML parse error"
  | declaredTwice entity => "invalid catalog: entity '" ++ entity ++ "' is declared twice"
  | dangling entity relationship target =>
    "invalid catalog: relationship '" ++ entity ++ "." ++ relationship ++
      "' points at unknown entity '" ++ target ++ "'"

end CatalogFault

namespace Relationship

def ofToml? (v : Toml) : Option Relationship := do
  let fields ← Toml.Fields.of? v
  return {
    name := ← (fields.get? "name" 0).bind Toml.string?
    entity := ← (fields.get? "entity" 1).bind Toml.string?
    joinField := ← (fields.get? "join_field" 2).bind Toml.string? }

def listOfToml? : Toml → Option (List Relationship)
  | .arr items => items.mapM ofToml?
  | _ => none

/-- The lines of a relationship. -/
def toToml (r : Relationship) : String :=
  "\n[[entity.children]]\n" ++ Toml.writeLine "name" (Toml.writeString r.name) ++
    Toml.writeLine "entity" (Toml.writeString r.entity) ++
    Toml.writeLine "join_field" (Toml.writeString r.joinField)

end Relationship

namespace Entity

def ofToml? (v : Toml) : Option Entity := do
  let fields ← Toml.Fields.of? v
  let name ← (fields.get? "name" 0).bind Toml.string?
  let names ← (fields.get? "fields" 1).bind Toml.strings?
  let idField ← Toml.optional? Toml.string? (fields.get? "id_field" 2)
  let children ← Toml.optional? Relationship.listOfToml? (fields.get? "children" 3)
  return ⟨name, .ofList names, idField.getD defaultIdField, children.getD []⟩

/-- The entities of the table of a document. -/
def listOfToml? (members : List (String × Toml)) : Option (List Entity) :=
  match Toml.find? "entity" members with
  | none => some []
  | some (.arr items) => items.mapM ofToml?
  | some _ => none

/-- The lines of an entity. -/
def toToml (e : Entity) : String :=
  "[[entity]]\n" ++ Toml.writeLine "name" (Toml.writeString e.name) ++
    Toml.writeLine "fields" (Toml.writeStrings e.fields.toList) ++
    Toml.writeLine "id_field" (Toml.writeString e.idField) ++
    if e.children.isEmpty then "children = []\n" else String.join (e.children.map (·.toToml))

end Entity

namespace Catalog

/-- The text of a catalog in TOML. -/
def toToml (c : Catalog) : String :=
  if c.toList.isEmpty then "entity = []\n"
  else "\n".intercalate (c.toList.map (·.toToml))

/-- Adds entities one after the other, none of them under a name that is taken. -/
def addAll : Catalog → List Entity → Except CatalogFault Catalog
  | c, [] => .ok c
  | c, e :: rest =>
    if c.contains e.name then .error (.declaredTwice e.name) else addAll (c.insert e) rest

/-- The first relationship that leads to no entity of the catalog. -/
def dangling? (c : Catalog) : Option (Entity × Relationship) :=
  c.toList.findSome? fun e =>
    (e.children.find? fun r => !c.contains r.entity).map fun r => (e, r)

/-- The catalog of a list of entities. -/
def ofEntities (entities : List Entity) : Except CatalogFault Catalog :=
  match addAll .empty entities with
  | .error fault => .error fault
  | .ok c =>
    match c.dangling? with
    | some (e, r) => .error (.dangling e.name r.name r.entity)
    | none => .ok c

/-- The catalog that a text stands for. -/
def ofToml (text : String) : Except CatalogFault Catalog :=
  match (Toml.ofText? text).bind Entity.listOfToml? with
  | none => .error .unreadable
  | some entities => ofEntities entities

end Catalog

end NestedQuery
