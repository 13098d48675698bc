import NestedQuery.Keyed
import NestedQuery.Number.Binary64

/-!
# JSON values

Objects keep their members in the order in which the keys were first written.
-/

namespace NestedQuery

inductive Json where
  | null
  | bool (b : Bool)
  | int (n : Int)
  | real (x : Binary64)
  | str (s : String)
  | arr (items : List Json)
  | obj (members : List (String × Json))
  deriving BEq, Repr, Inhabited

namespace Json

/-- The object with the given members: a key keeps its first place and takes its last value. -/
def ofMembers (members : List (String × Json)) : Json := .obj (Keyed.ofList Prod.fst members)

/-- The member of an object with the given key. -/
def member? (key : String) : Json → Option Json
  | .obj members => (Keyed.find? Prod.fst key members).map Prod.snd
  | _ => none

def strings (items : List String) : Json := .arr (items.map .str)

/-- A string, or null where there is none. -/
def ofString? (s : Option String) : Json := (s.map .str).getD .null

end Json

end NestedQuery
