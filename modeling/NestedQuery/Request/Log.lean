import NestedQuery.Request.Error

/-!
# The log of a request

Everything that happens while a request is served, in order. Its errors, the queries that were
compiled, those that were sent and the counts of the stages are views of this one list.
-/

namespace NestedQuery

inductive Event where
  -- a document was read
  | parsed
  -- a node was taken up to be compiled
  | visited
  | compiled (query : String)
  | sent (query : String)
  -- the data of a response was put together
  | assembled
  | failed (error : RequestError)
  deriving DecidableEq, Repr

abbrev Log := List Event

namespace Log

def errors (log : Log) : List RequestError :=
  log.filterMap fun | .failed e => some e | _ => none

/-- The compiled queries, whether they were sent or not. -/
def queries (log : Log) : List String :=
  log.filterMap fun | .compiled q => some q | _ => none

def sent (log : Log) : List String :=
  log.filterMap fun | .sent q => some q | _ => none

@[simp] theorem errors_append (a b : Log) : errors (a ++ b) = errors a ++ errors b :=
  List.filterMap_append

@[simp] theorem queries_append (a b : Log) : queries (a ++ b) = queries a ++ queries b :=
  List.filterMap_append

@[simp] theorem sent_append (a b : Log) : sent (a ++ b) = sent a ++ sent b :=
  List.filterMap_append

end Log

/-- How often the stages of the pipeline ran. -/
structure Profile where
  parsed : Nat
  compiled : Nat
  executed : Nat
  assembled : Nat
  deriving DecidableEq, Repr, Inhabited

namespace Profile

def zero : Profile := ⟨0, 0, 0, 0⟩

def add (a b : Profile) : Profile :=
  ⟨a.parsed + b.parsed, a.compiled + b.compiled, a.executed + b.executed,
    a.assembled + b.assembled⟩

instance : Add Profile := ⟨add⟩

def ofLog (log : Log) : Profile where
  parsed := log.countP (· == .parsed)
  -- a node counts also if it could not be compiled
  compiled := log.countP (· == .visited)
  executed := log.countP fun | .sent _ => true | _ => false
  assembled := log.countP (· == .assembled)

@[simp] theorem ofLog_append (a b : Log) : ofLog (a ++ b) = ofLog a + ofLog b := by
  change _ = add _ _
  simp [ofLog, add]

end Profile

end NestedQuery
