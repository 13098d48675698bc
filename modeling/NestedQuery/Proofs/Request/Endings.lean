import Mathlib.Data.List.Forall2
import NestedQuery.Proofs.Request.Runs

/-!
# How visits end

A visit of a node ends in one of three ways. An argument of the node is at fault and nothing is
compiled, or the query of the node is on record but is not sent, or it is sent.

## Main result

`Forest.run_endings`: the log of a run is written by one ending for every node, in preorder. Which
nodes are rejected is decided by their arguments alone (`Node.fault?`), whatever the store answers.
-/

namespace NestedQuery

inductive Ending where
  | rejected (error : RequestError)
  | skipped (query : String)
  -- a store that refuses the query says why
  | executed (query : String) (refusal : Option String)

namespace Ending

/-- What a visit with this ending writes to the log. -/
def log : Ending → Log
  | rejected e => [.visited, .failed e]
  | skipped q => [.visited, .compiled q]
  | executed q none => [.visited, .compiled q, .sent q]
  | executed q (some message) => [.visited, .compiled q, .sent q, .failed (.execution message)]

def query? : Ending → Option String
  | rejected _ => none
  | skipped q => some q
  | executed q _ => some q

def isExecuted : Ending → Bool
  | executed _ _ => true
  | _ => false

def fault? : Ending → Option RequestError
  | rejected e => some e
  | _ => none

theorem queries_log (ending : Ending) : ending.log.queries = ending.query?.toList := by
  cases ending with
  | rejected e => rfl
  | skipped q => rfl
  | executed q refusal => cases refusal <;> rfl

theorem sent_log (ending : Ending) :
    ending.log.sent = if ending.isExecuted then ending.query?.toList else [] := by
  cases ending with
  | rejected e => rfl
  | skipped q => rfl
  | executed q refusal => cases refusal <;> rfl

theorem queries_flatMap_log (endings : List Ending) :
    Log.queries (endings.flatMap log) = endings.filterMap query? := by
  induction endings with
  | nil => rfl
  | cons ending rest ih =>
    rw [List.flatMap_cons, Log.queries_append, queries_log, ih, List.filterMap_cons]
    cases ending.query? <;> rfl

theorem sent_flatMap_log (endings : List Ending) :
    Log.sent (endings.flatMap log) = (endings.filter isExecuted).filterMap query? := by
  induction endings with
  | nil => rfl
  | cons ending rest ih =>
    rw [List.flatMap_cons, Log.sent_append, sent_log, ih, List.filter_cons]
    by_cases h : ending.isExecuted
    · rw [if_pos h, if_pos h, List.filterMap_cons]
      cases ending.query? <;> rfl
    · rw [if_neg h, if_neg h, List.nil_append]

end Ending

namespace Ending

/-- An ending that a visit of `n` can have: a query is one that `n` compiles to, and an error is
about an argument of `n`. -/
inductive Of (n : Node) : Ending → Prop where
  | rejected {key reason : String}
      (fault : n.fault? = some (.invalidArgument n.entity.name key reason)) :
      Of n (.rejected (.invalidArgument n.entity.name key reason))
  | skipped {hasChildren : Bool} {link : Option Link} {compiled : Compiled}
      (compiles : n.compile hasChildren link = .ok compiled) (skipped : compiled.skipped = true) :
      Of n (.skipped compiled.text)
  | executed {hasChildren : Bool} {link : Option Link} {compiled : Compiled}
      (compiles : n.compile hasChildren link = .ok compiled) (sent : compiled.skipped = false)
      (refusal : Option String) : Of n (.executed compiled.text refusal)

theorem Of.fault?_eq {n : Node} {ending : Ending} (h : Of n ending) : ending.fault? = n.fault? := by
  cases h with
  | rejected fault => exact fault.symm
  | skipped compiles _ => exact (Node.fault?_of_compile_ok compiles).symm
  | executed compiles _ _ => exact (Node.fault?_of_compile_ok compiles).symm

end Ending

theorem Node.exists_ending (engine : Engine) (received : List Select) (link : Option Link)
    (hasChildren : Bool) (n : Node) :
    ∃ ending, Ending.Of n ending ∧ (n.run engine received link hasChildren).log = ending.log := by
  obtain ⟨e, hcompile, hrun⟩ | ⟨compiled, hcompile, hskipped, hrun⟩ |
    ⟨compiled, records, hcompile, hsent, -, hrun⟩ |
    ⟨compiled, message, hcompile, hsent, -, hrun⟩ := n.run_cases engine received link hasChildren
  · have hfault := fault?_of_compile_error hcompile
    obtain ⟨key, reason, rfl⟩ := eq_invalidArgument_of_fault? hfault
    exact ⟨_, .rejected hfault, congrArg Visit.log hrun⟩
  · exact ⟨_, .skipped hcompile hskipped, congrArg Visit.log hrun⟩
  · exact ⟨_, .executed hcompile hsent none, congrArg Visit.log hrun⟩
  · exact ⟨_, .executed hcompile hsent (some message), congrArg Visit.log hrun⟩

/-- The nodes of a stretch of a run have their endings one after the other. -/
theorem Ending.composes : Stretch.Composes fun _ nodes log _ =>
    ∃ endings, List.Forall₂ Ending.Of nodes endings ∧ log = endings.flatMap Ending.log where
  nil _ := ⟨[], .nil, rfl⟩
  append := by
    rintro r s t ns ms a b ⟨first, hfirst, rfl⟩ ⟨rest, hrest, rfl⟩
    exact ⟨first ++ rest, List.rel_append hfirst hrest, List.flatMap_append.symm⟩

theorem Ending.map_fault? {nodes : List Node} {endings : List Ending}
    (h : List.Forall₂ Ending.Of nodes endings) :
    endings.map Ending.fault? = nodes.map Node.fault? := by
  induction h with
  | nil => rfl
  | cons hof _ ih => rw [List.map_cons, List.map_cons, hof.fault?_eq, ih]

namespace Forest

/-- A run takes up every node once, in preorder, and changes nothing but what the nodes found. The
queries on record are those of the visits that are not rejected, and of these the ones that are sent
are those of the visits that are executed, in the same order; they are the texts of what the store
receives. The rejected nodes are those with a fault in their arguments. -/
theorem run_endings {catalog : Metadata} {forest : Forest} (read : forest.IsRead catalog)
    (engine : Engine) :
    (Forest.run engine forest).1.map (Tree.map Node.unanswered) = forest ∧
    ∃ endings : List Ending,
      List.Forall₂ Ending.Of (Tree.preorderAll forest) endings ∧
      (Forest.run engine forest).2 = endings.flatMap Ending.log ∧
      (Forest.run engine forest).2.queries = endings.filterMap Ending.query? ∧
      (Forest.run engine forest).2.sent =
        (endings.filter Ending.isExecuted).filterMap Ending.query? ∧
      (Forest.received engine forest).map Select.render = (Forest.run engine forest).2.sent ∧
      (Forest.received engine forest).length ≤ (Tree.preorderAll forest).length ∧
      endings.map Ending.fault? = (Tree.preorderAll forest).map Node.fault? := by
  have single (n received link hasChildren) : ∃ endings, List.Forall₂ Ending.Of [n] endings ∧
      (n.run engine received link hasChildren).log = endings.flatMap Ending.log := by
    obtain ⟨ending, hof, hlog⟩ := n.exists_ending engine received link hasChildren
    exact ⟨[ending], .cons hof .nil, hlog.trans (List.flatMap_singleton _ _).symm⟩
  obtain ⟨endings, hof, hlog⟩ := stretch_run_of_step read Ending.composes single
  have hsent : (Forest.run engine forest).2.sent =
      (endings.filter Ending.isExecuted).filterMap Ending.query? := by
    rw [hlog, Ending.sent_flatMap_log]
  have hreceived := sent_run read engine
  refine ⟨unanswered_run read engine, endings, hof, hlog, ?_, hsent, hreceived.symm, ?_,
    Ending.map_fault? hof⟩
  · rw [hlog, Ending.queries_flatMap_log]
  · rw [← List.length_map (f := Select.render), ← hreceived, hsent, hof.length_eq]
    exact Nat.le_trans (List.length_filterMap_le _ _) (List.length_filter_le _ _)

end Forest

/-! ### A roster that cannot be asked for -/

namespace Roster

def player : Entity := ⟨"Player", .ofList ["Id", "Name", "TeamId"], "Id", []⟩

def team : Entity := ⟨"Team", .ofList ["Id", "City"], "Id", [⟨"Players", player.name, "TeamId"⟩]⟩

def catalog : Catalog := .ofList [team, player]

/-- The tokens of `Team { City Players(limit:all) { Name } } Player { Name }` and of the brace
behind it. -/
def tokens : List Token :=
  [.word "Team".toList, .opening, .word "City".toList, .word "Players(limit:all)".toList, .opening,
    .word "Name".toList, .closing, .closing, .word "Player".toList, .opening, .word "Name".toList,
    .closing, .closing]

def teams : Node := { Node.asked "Team" "Team" team .empty with requested := ["City"] }

def players (name : String) (arguments : Arguments) : Node :=
  { Node.asked name name player arguments with requested := ["Name"] }

def forest : Forest :=
  [.node teams [.node (players "Players" (.ofList [("limit", some "all")])) []],
    .node (players "Player" .empty) []]

theorem isRead : forest.IsRead catalog := ⟨32, tokens, [], by decide +kernel⟩

end Roster

open Roster in
/-- The limit of the players below a team cannot be read, whatever the store says. -/
theorem Forest.run_endings_roster :
    ∃ endings : List Ending,
      (Forest.run (fun _ _ => .error "closed") forest).2 = endings.flatMap Ending.log ∧
      endings.map Ending.fault? =
        [none,
          some (.invalidArgument "Player" "limit" "must be a non-negative integer (got 'all')"),
          none] := by
  obtain ⟨-, endings, -, hlog, -, -, -, -, hfaults⟩ :=
    Forest.run_endings isRead fun _ _ => .error "closed"
  exact ⟨endings, hlog, hfaults.trans (by decide +kernel)⟩

end NestedQuery
