import NestedQuery.Request.Node
import NestedQuery.Select.Argument
import NestedQuery.Select.Basic

/-!
# The statement of a node

A node selects the fields asked for, the field by which it is joined to its parent, and its own
identifier where children or nothing else need it. Arguments named like a selected field are
conditions, except for the two that ask for a page of the records.
-/

namespace NestedQuery

/-- How the records of a node belong to those of its parent. -/
structure Link where
  -- the field that holds the identifier of the parent
  joinField : String
  -- those of the records of the parent
  identifiers : List Value
  deriving DecidableEq, Repr

/-- The values that a join can ask for. -/
def Link.values (link : Link) : List Value := link.identifiers.filter (·.literal?.isSome)

/-- A statement, and whether it is not worth sending because the parent has no records. -/
structure Compiled where
  select : Select
  skipped : Bool
  deriving DecidableEq, Repr

def Compiled.text (c : Compiled) : String := c.select.render

namespace Node

def limitKey : String := "limit"

def offsetKey : String := "offset"

def addField (fields : List String) (field : String) : List String :=
  if fields.contains field then fields else fields ++ [field]

def joinedFields (n : Node) (joinField : Option String) : List String :=
  match joinField with
  | some field => addField n.outputFields field
  | none => n.outputFields

def selectFields (n : Node) (hasChildren : Bool) (joinField : Option String) : List String :=
  let fields := n.joinedFields joinField
  -- children are found by the identifiers, and a statement selects something
  if fields.isEmpty || hasChildren then addField fields n.entity.idField else fields

def condition? (n : Node) (field : String) : Option Condition :=
  -- a field of this name cannot be asked for a value
  if field == limitKey || field == offsetKey then none
  else (n.arguments.find? field).map fun (_, value) =>
    match value with
    | some raw => .equals field (Argument.content raw)
    | none => .isNull field

def joinConditions : Option Link → List Condition
  | none => []
  | some link =>
    -- the statement is on record without the condition, but it is not sent
    if (link.values).isEmpty then [] else [.isIn link.joinField (link.values)]

def page (n : Node) (key : String) : Except RequestError (Option Nat) :=
  match n.argument? key with
  | none => .ok none
  | some raw =>
    let content := Argument.content raw
    match Text.naturalBelow? (twoTo 64) content.toList with
    | some number => .ok (some number)
    | none =>
      .error <| .invalidArgument n.entity.name key
        ("must be a non-negative integer (got '" ++ content ++ "')")

/-- The statement of a node that has children or not, below a parent or at the top. -/
def compile (n : Node) (hasChildren : Bool) (link : Option Link) :
    Except RequestError Compiled :=
  let joinField := link.map (·.joinField)
  match n.page limitKey with
  | .error e => .error e
  | .ok limit =>
    match n.page offsetKey with
    | .error e => .error e
    | .ok offset =>
      .ok {
        select := {
          columns := n.selectFields hasChildren joinField
          table := n.entity.name
          conditions :=
            joinConditions link ++ (n.joinedFields joinField).filterMap n.condition?
          limit := limit
          offset := offset }
        skipped := link.any fun link => (link.values).isEmpty }

end Node

end NestedQuery
