import NestedQuery.Json.Reader
import NestedQuery.Service

/-!
# Requests as JSON text

A request is an object with the members `query` and `variables`, or a list of the two in this
order; the variables may be left out. Other members of the object are not looked at, and none of
the two may stand twice.
-/

namespace NestedQuery.Request

open Json

def stringOf? : Written → Option String
  | .string pieces => unescape? pieces
  | _ => none

/-- The variables of a request that stands inside `depth` containers. -/
def variablesOf? (depth : Nat) : Written → Option Variables
  | .object members => do
    let members ← Written.members? (Json.maxDepth - depth - 1) members
    return .ofList members
  | _ => none

/-- What was found of a request so far. -/
structure Found where
  query : Option String
  bindings : Option Variables

/-- Takes up one member of a request after the other. -/
def Found.members? (found : Found) : List (List StringPiece × Written) → Option Found
  | [] => some found
  | (key, value) :: rest => do
    match ← unescape? key with
    | "query" =>
      if found.query.isSome then none
      else members? { found with query := some (← stringOf? value) } rest
    | "variables" =>
      if found.bindings.isSome then none
      else members? { found with bindings := some (← variablesOf? 1 value) } rest
    | _ => members? found rest

/-- The request that a JSON text stands for. -/
def ofWritten? : Written → Option Request
  | .object members => do
    let found ← Found.members? ⟨none, none⟩ members
    return ⟨← found.query, found.bindings.getD .empty⟩
  | .array [query] => do return ⟨← stringOf? query, .empty⟩
  | .array [query, bindings] => do return ⟨← stringOf? query, ← variablesOf? 1 bindings⟩
  | _ => none

def ofText? (text : String) : Option Request := (Written.ofText? text.toList).bind ofWritten?

/-- The request in JSON, the variables in order of their names. -/
def toJson (r : Request) : Json :=
  .obj [("query", .str r.query), ("variables", .obj r.bindings.toList)]

end NestedQuery.Request
