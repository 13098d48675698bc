import NestedQuery.Catalog
import NestedQuery.Document.Heading
import NestedQuery.Keyed
import NestedQuery.Request.Error
import NestedQuery.Request.Tree
import NestedQuery.Value

/-!
# Request nodes

A node asks for records of one entity. Its children in the tree ask for records of child entities;
the trees of a document form a forest in which the output keys of siblings differ.
-/

namespace NestedQuery

/-- A record of a store: values by column. -/
abbrev Record := Ordered (String × Value) Prod.fst

def Record.get? (r : Record) (column : String) : Option Value := (r.find? column).map Prod.snd

/-- One entity asked for by a query. -/
structure Node where
  -- the key of its records in the response
  outputKey : String
  -- in the query: the name of an entity or of a relationship
  name : String
  entity : Entity
  arguments : Arguments
  -- in order and with repetitions
  requested : List String
  -- what a run found, and by what it finds the children
  records : List Record
  identifiers : List Value
  deriving DecidableEq, Repr, Inhabited

abbrev Forest := List (Tree Node)

namespace Node

/-- A node that was not run yet. -/
def asked (outputKey name : String) (entity : Entity) (arguments : Arguments) : Node :=
  ⟨outputKey, name, entity, arguments, [], [], []⟩

/-- The fields asked for that the entity has, each once. -/
def outputFields (n : Node) : List String :=
  (n.requested.filter n.entity.fields.contains).eraseDups

def argument? (n : Node) (key : String) : Option String := n.arguments.value? key

/--
Reads a heading: at the top the name is that of an entity, and below a node it is that of a
relationship of its entity.
-/
def resolve (catalog : Metadata) (parent : Option Node) (word : List Char) :
    Except RequestError Node :=
  let heading := Heading.ofWord word
  if heading.name.isEmpty then
    .error (.malformed ("missing entity name in '" ++ .ofList word ++ "'"))
  else
    -- an empty key is none
    let outputKey := if heading.outputKey.isEmpty then heading.name else heading.outputKey
    let entityName : Except RequestError String :=
      match parent with
      | none => .ok heading.name
      | some parent =>
        match parent.entity.relationship? heading.name with
        | some relationship => .ok relationship.entity
        | none =>
          -- the wrong place for an entity, or no entity at all
          if (catalog.describe heading.name).isSome then
            .error (.unknownRelationship heading.name parent.entity.name)
          else .error (.unknownEntity heading.name)
    match entityName with
    | .error e => .error e
    | .ok entityName =>
      match catalog.describe entityName with
      | none => .error (.unknownEntity heading.name)
      | some entity => .ok (.asked outputKey heading.name entity heading.arguments)

end Node

namespace Forest

/-- Adds a tree, or replaces the sibling with its output key at that place. -/
def put (tree : Tree Node) (forest : Forest) : Forest :=
  Keyed.put (fun t => t.label.outputKey) tree forest

def find? (forest : Forest) (outputKey : String) : Option (Tree Node) :=
  Keyed.find? (fun t : Tree Node => t.label.outputKey) outputKey forest

end Forest

end NestedQuery
