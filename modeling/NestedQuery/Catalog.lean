import NestedQuery.Ordered

/-!
# Entities and catalogs

The entities that a query may name are described by the fields of each, the field that identifies
its records, and its relationships to child entities. Whatever describes entities may be asked for
them (`Metadata`). A catalog keeps them in a list; names are unique in it, and a later description
of an entity replaces an earlier one.
-/

namespace NestedQuery

/-- A link from a parent entity to the records of a child entity. -/
structure Relationship where
  -- the name by which a query nests the children
  name : String
  entity : String
  -- the field of the child that holds the identifier of the parent
  joinField : String
  deriving DecidableEq, Repr, Inhabited

abbrev FieldSet := Ordered String id

/-- The field that identifies the records of an entity that names none. -/
def defaultIdField : String := "Id"

structure Entity where
  name : String
  fields : FieldSet
  idField : String
  children : List Relationship
  deriving DecidableEq, Repr, Inhabited

/-- The relationship of that name, or else the first one to an entity of that name. -/
def Relationship.find? (relationships : List Relationship) (name : String) :
    Option Relationship :=
  (relationships.find? fun r => r.name == name).or (relationships.find? fun r => r.entity == name)

theorem Relationship.mem_of_find? {relationships : List Relationship} {name : String}
    {r : Relationship} (h : Relationship.find? relationships name = some r) :
    r ∈ relationships := by
  rcases Option.or_eq_some_iff.mp h with h | ⟨_, h⟩ <;> exact List.mem_of_find?_eq_some h

namespace Entity

/-- The relationship by which a query that nests `name` reaches its children. -/
def relationship? (e : Entity) (name : String) : Option Relationship :=
  Relationship.find? e.children name

/-- The field of the children nested by `name` that holds the identifier of the parent. -/
def joinField? (e : Entity) (name : String) : Option String :=
  (e.relationship? name).map (·.joinField)

end Entity

/-- What a query may name: every name of an entity is described or unknown. -/
structure Metadata where
  describe : String → Option Entity

/-- Every entity is described under its own name. -/
def Metadata.Named (m : Metadata) : Prop :=
  ∀ name e, m.describe name = some e → e.name = name

/-- The entities that a query may name, in order of their names. -/
abbrev Catalog := Ordered Entity Entity.name

namespace Catalog

def describe (c : Catalog) (name : String) : Option Entity := c.find? name

theorem name_of_describe {c : Catalog} {name : String} {e : Entity}
    (h : c.describe name = some e) : e.name = name := Ordered.key_of_find?_eq_some h

abbrev metadata (c : Catalog) : Metadata := ⟨c.describe⟩

instance : Coe Catalog Metadata := ⟨metadata⟩

theorem named (c : Catalog) : c.metadata.Named := fun _ _ => name_of_describe

end Catalog

end NestedQuery
