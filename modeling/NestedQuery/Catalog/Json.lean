import NestedQuery.Catalog
import NestedQuery.Json.Decode

/-!
# Catalogs in JSON

A catalog is the list of its entities in order of their names. An entity and a relationship are
written as objects; lists of their fields in order are read as well.
-/

namespace NestedQuery

def Relationship.toJson (r : Relationship) : Json :=
  .obj [("name", .str r.name), ("entity", .str r.entity), ("join_field", .str r.joinField)]

def Relationship.ofJson? (j : Json) : Option Relationship :=
  if j.isRecord 3 then do
    return {
      name := ← (j.part? "name" 0).bind Json.string?
      entity := ← (j.part? "entity" 1).bind Json.string?
      joinField := ← (j.part? "join_field" 2).bind Json.string? }
  else none

def Entity.toJson (e : Entity) : Json :=
  .obj [("name", .str e.name), ("fields", .strings e.fields.toList), ("id_field", .str e.idField),
    ("children", .arr (e.children.map (·.toJson)))]

def Entity.ofJson? (j : Json) : Option Entity :=
  if j.isRecord 4 then do
    let name ← (j.part? "name" 0).bind Json.string?
    let fields ← (j.part? "fields" 1).bind (Json.listOf? Json.string?)
    let idField ← Json.optional? Json.string? (j.part? "id_field" 2)
    let children ← Json.optional? (Json.listOf? Relationship.ofJson?) (j.part? "children" 3)
    return ⟨name, .ofList fields, idField.getD defaultIdField, children.getD []⟩
  else none

def Catalog.toJson (c : Catalog) : Json := .arr (c.toList.map (·.toJson))

end NestedQuery
