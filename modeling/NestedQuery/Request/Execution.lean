import NestedQuery.Request.Log
import NestedQuery.Select.OfNode

/-!
# Running a forest

Every node is taken up once, a node before its children. One statement is sent for each, in which
the identifiers of the parent's records stand; below a node without identifiers nothing is sent.

A store may change while a forest is run: it says to a statement what it says, and is only known by
the statements that it was sent.
-/

namespace NestedQuery

/-- A store answers a statement with records, or refuses it with a message. What it says may depend
on the statements that it was sent before. -/
abbrev Engine := List Select → Select → Except String (List Record)

namespace Engine

/-- An engine that sees of a statement its text alone, and does not remember any. -/
def ofText (answer : String → Except String (List Record)) : Engine :=
  fun _ select => answer select.render

/-- What the engine says to a statement, and all that it was sent by then. -/
def ask (engine : Engine) (received : List Select) (select : Select) :
    Except String (List Record) × List Select :=
  (engine received select, received ++ [select])

end Engine

/-- A node as a visit left it, what happened at the visit, and all that the store was sent until
then. -/
structure Visit where
  node : Node
  log : Log
  received : List Select

namespace Node

/-- Keeps the values that have a literal, and of those with one literal the first. -/
def distinctLiterals : List String → List Value → List Value
  | _, [] => []
  | seen, v :: rest =>
    match v.literal? with
    | none => distinctLiterals seen rest
    | some literal =>
      if seen.contains literal then distinctLiterals seen rest
      else v :: distinctLiterals (literal :: seen) rest

/-- The identifiers of records by which their children are asked for. -/
def identifiersOf (idField : String) (records : List Record) : List Value :=
  distinctLiterals [] (records.filterMap fun r => r.get? idField)

def answered (n : Node) (records : List Record) : Node :=
  { n with records := records, identifiers := identifiersOf n.entity.idField records }

/-- Compiles the statement of a node and records it, or what is wrong with the arguments. -/
def compileIn (n : Node) (hasChildren : Bool) (link : Option Link) (log : Log) :
    Option Compiled × Log :=
  match n.compile hasChildren link with
  | .error e => (none, log ++ [.failed e])
  -- a query is on record before it is sent, and if it is not
  | .ok compiled => (some compiled, log ++ [.compiled compiled.text])

/-- Sends what was compiled, if it is worth sending, and keeps the records of the answer. -/
def send (engine : Engine) (received : List Select) (n : Node) : Option Compiled × Log → Visit
  | (none, log) => ⟨n.answered [], log, received⟩
  | (some compiled, log) =>
    if compiled.skipped then ⟨n.answered [], log, received⟩
    else
      let (answer, received) := engine.ask received compiled.select
      match answer with
      | .ok records => ⟨n.answered records, log ++ [.sent compiled.text], received⟩
      | .error message =>
        ⟨n.answered [], log ++ [.sent compiled.text, .failed (.execution message)], received⟩

/-- Takes up a node: its statement is compiled and sent. -/
def run (engine : Engine) (received : List Select) (link : Option Link) (hasChildren : Bool)
    (n : Node) : Visit :=
  n.send engine received (n.compileIn hasChildren link [.visited])

end Node

namespace Tree

mutual

/-- Takes up the nodes of a tree. The store was sent some statements before, and at the end some
more. -/
def run (engine : Engine) (received : List Select) (link : Option Link) :
    Tree Node → Tree Node × Log × List Select
  | .node n cs =>
    let v := n.run engine received link (!cs.isEmpty)
    let (cs, logBelow, received) := runBelow engine v.received v.node cs
    (.node v.node cs, v.log ++ logBelow, received)

def runBelow (engine : Engine) (received : List Select) (parent : Node) :
    List (Tree Node) → List (Tree Node) × Log × List Select
  | [] => ([], [], received)
  | c :: cs =>
    let (c, log, received) := match parent.entity.joinField? c.label.name with
      | some field => run engine received (some ⟨field, parent.identifiers⟩) c
      -- a child that is unrelated to its parent is left as it is
      | none => (c, [.failed (.unknownRelationship c.label.name parent.entity.name)], received)
    let (cs, logBehind, received) := runBelow engine received parent cs
    (c :: cs, log ++ logBehind, received)

end

end Tree

namespace Forest

def runFrom (engine : Engine) (received : List Select) : Forest → Forest × Log × List Select
  | [] => ([], [], received)
  | t :: rest =>
    let (t, log, received) := t.run engine received none
    let (rest, logBehind, received) := runFrom engine received rest
    (t :: rest, log ++ logBehind, received)

/-- Runs a forest against a store that was sent nothing before. -/
def run (engine : Engine) (forest : Forest) : Forest × Log :=
  let (forest, log, _) := forest.runFrom engine []
  (forest, log)

/-- All that a store is sent while a forest is run. -/
def received (engine : Engine) (forest : Forest) : List Select := (forest.runFrom engine []).2.2

end Forest

end NestedQuery
