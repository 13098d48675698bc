import NestedQuery.Toml.Basic

/-!
# Records in TOML

A record with named fields is written as a table. A list of its fields in order is read as well;
items behind the last field are not looked at.
-/

namespace NestedQuery.Toml

/-- The fields of a record: by name, or by their order. -/
inductive Fields where
  | named (members : List (String × Toml))
  | listed (items : List Toml)

namespace Fields

def of? : Toml → Option Fields
  | .table members => some (named members)
  | .arr items => some (listed items)
  | _ => none

/-- The field with a name, which is also the one at a place. -/
def get? (fields : Fields) (name : String) (place : Nat) : Option Toml :=
  match fields with
  | named members => Toml.find? name members
  | listed items => items[place]?

end Fields

def string? : Toml → Option String
  | .str s => some s
  | _ => none

def strings? : Toml → Option (List String)
  | .arr items => items.mapM string?
  | _ => none

/-- An integer that is not negative. -/
def natural? : Toml → Option Nat
  | .int n => if 0 ≤ n then some n.toNat else none
  | _ => none

/-- Reads a value that need not be there. -/
def optional? {α : Type} (read? : Toml → Option α) : Option Toml → Option (Option α)
  | none => some none
  | some v => (read? v).map some

end NestedQuery.Toml
