import NestedQuery.Request.Node

/-!
# Putting the data together

The records of a forest become nested JSON. A record of a child node stands in every record of its
parent whose identifier has the key of the child's join field.
-/

namespace NestedQuery

/-- The members of a JSON object, each key once. -/
abbrev Members := List (String × Json)

namespace Record

/-- The key of a column, by which parents and children are matched. -/
def key? (r : Record) (column : String) : Option String := (r.get? column).bind Value.key?

def json (r : Record) (column : String) : Json :=
  -- a column that the record lacks is null
  ((r.get? column).map Value.toJson).getD .null

end Record

namespace Node

def fieldMembers (n : Node) (r : Record) : Members := n.outputFields.map fun f => (f, r.json f)

/-- The records of a child node that belong to a record of this one. -/
def matching (n : Node) (r : Record) (child : Node) : List Record :=
  match r.key? n.entity.idField, n.entity.joinField? child.name with
  | some key, some field => child.records.filter fun c => c.key? field == some key
  -- a record without an identifier has no children
  | _, _ => []

end Node

namespace Tree

mutual

/-- The object of one record: its output fields, then the records of every child. -/
def assemble : Tree Node → Record → Members
  | .node n cs, r => assembleBelow n r cs (n.fieldMembers r)

def assembleBelow (parent : Node) (r : Record) : List (Tree Node) → Members → Members
  | [], members => members
  | c :: cs, members =>
    let children := (parent.matching r c.label).map fun child => Json.obj (assemble c child)
    -- a child may take the place of a field
    assembleBelow parent r cs (Keyed.put Prod.fst (c.label.outputKey, .arr children) members)

end

def assembleAll (t : Tree Node) : Json := .arr (t.label.records.map fun r => .obj (t.assemble r))

end Tree

/-- The data of a forest: a member for every root. -/
def Forest.assemble (forest : Forest) : Members :=
  Keyed.ofList Prod.fst (forest.map fun t => (t.label.outputKey, t.assembleAll))

end NestedQuery
