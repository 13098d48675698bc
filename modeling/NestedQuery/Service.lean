import NestedQuery.Request.Assembly
import NestedQuery.Request.Execution
import NestedQuery.Request.Reading
import NestedQuery.Request.Variables

/-!
# Serving requests

A service answers requests over one catalog and one store. Whatever goes wrong in a part of a
request is reported beside the data of the other parts; there is no data only if no node could be
read or resolved.
-/

namespace NestedQuery

structure Request where
  query : String
  bindings : Variables
  deriving Repr

structure Response where
  data : Option Members
  errors : List String
  queries : List String
  deriving Repr

namespace Response

def dataJson (r : Response) : Json := (r.data.map Json.obj).getD .null

def toJson (r : Response) : Json :=
  .obj [("data", r.dataJson), ("errors", .strings r.errors), ("queries", .strings r.queries)]

end Response

/-- Every request finds the store as it is at the beginning: one that has changed since is another
engine. -/
structure Service where
  catalog : Metadata
  engine : Engine
  maxDepth : Nat

namespace Service

/-- Runs a forest and puts its data together, unless it is empty. -/
def answer (service : Service) (forest : Forest) : Option Members × Log :=
  -- every root was dropped: there is no data, not even an empty object
  if forest.isEmpty then (none, [])
  else
    let (forest, log) := Forest.run service.engine forest
    (some forest.assemble, log ++ [.assembled])

/-- The data of a request, and all that happened while it was served. -/
def serve (service : Service) (request : Request) : Option Members × Log :=
  -- references stand for text, not for tokens
  let query := request.bindings.substitute request.query.toList
  match Forest.report (Forest.ofText service.catalog service.maxDepth query) with
  | (none, log) => (none, log ++ [.parsed])
  | (some forest, log) =>
    let (data, logBehind) := service.answer forest
    (data, log ++ .parsed :: logBehind)

/-- All that the store is sent while a request is served. -/
def received (service : Service) (request : Request) : List Select :=
  match Forest.ofText service.catalog service.maxDepth (request.bindings.substitute
      request.query.toList) with
  | .error _ => []
  | .ok (forest, _) => forest.received service.engine

def handle (service : Service) (request : Request) : Response :=
  let (data, log) := service.serve request
  ⟨data, log.errors.map (·.message), log.queries⟩

end Service

end NestedQuery
