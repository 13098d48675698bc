import NestedQuery.Json.Basic

/-!
# Reading data off JSON values
-/

namespace NestedQuery.Json

def string? : Json → Option String
  | .str s => some s
  | _ => none

def items? : Json → Option (List Json)
  | .arr items => some items
  | _ => none

/-- Reads every item of a list. -/
def listOf? {α : Type} (read? : Json → Option α) (j : Json) : Option (List α) :=
  j.items?.bind (·.mapM read?)

/-- Reads a member that must be there. -/
def field? {α : Type} (key : String) (read? : Json → Option α) (j : Json) : Option α :=
  (j.member? key).bind read?

/-- Reads a list that is empty where it is left out. -/
def listField? {α : Type} (key : String) (read? : Json → Option α) (j : Json) : Option (List α) :=
  match j.member? key with
  | none | some .null => some []
  | some v => v.listOf? read?

/-- Reads a list of two. -/
def pair? {α β : Type} (first? : Json → Option α) (second? : Json → Option β) :
    Json → Option (α × β)
  | .arr [a, b] => do return (← first? a, ← second? b)
  | _ => none

/-- Whether a value is a record of some fields: an object, or a list of at most that many items. -/
def isRecord (fields : Nat) : Json → Bool
  | .obj _ => true
  | .arr items => items.length ≤ fields
  | _ => false

/-- A field of a record: the member with a name, or the item at a place. -/
def part? (name : String) (place : Nat) : Json → Option Json
  | .arr items => items[place]?
  | j => j.member? name

/-- Reads a value that need not be there. -/
def optional? {α : Type} (read? : Json → Option α) : Option Json → Option (Option α)
  | none => some none
  | some v => (read? v).map some

end NestedQuery.Json
