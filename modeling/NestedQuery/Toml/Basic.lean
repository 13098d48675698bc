/-!
# TOML values

Floating point numbers and points in time are told apart from other values but not looked into.
-/

namespace NestedQuery

inductive Toml where
  | str (s : String)
  | int (n : Int)
  | float
  | bool (b : Bool)
  | time
  | arr (items : List Toml)
  | table (members : List (String × Toml))
  deriving Repr, Inhabited

namespace Toml

/-- The member of a table with the given key. -/
def find? (key : String) (members : List (String × Toml)) : Option Toml :=
  (members.find? fun m => m.1 == key).map Prod.snd

end Toml

end NestedQuery
