import NestedQuery.Request.Execution
import NestedQuery.Text.Blank
import NestedQuery.Text.Cut

/-!
# Scripted stores

A store that answers from a list of rules. The first rule that fits the text of a query gives the
answer; without one there are no records. Conditions and pages in the query change nothing.
-/

namespace NestedQuery.Store

open Text

/-- What a scripted store answers to which queries. -/
structure Rule where
  -- the whole text of the query, if the rule is for one text only
  query : Option String
  -- the table of the query, if the rule is for one table only
  table : Option String
  outcome : Except String (List Record)

namespace Rule

/-- The table that the text of a query names: the first word behind ` FROM `. -/
def tableOf (query : String) : String :=
  let mark := " FROM ".toList
  match cutAt mark query.toList with
  | (_, some rest) => .ofList (firstWord (cutAt mark rest).1)
  | (_, none) => ""

def fits (rule : Rule) (query : String) : Bool :=
  rule.query.all (· == query) && rule.table.all (· == tableOf query)

end Rule

/-- The answer of a scripted store to the text of a query. -/
def scripted (rules : List Rule) (query : String) : Except String (List Record) :=
  match rules.find? (·.fits query) with
  | some rule => rule.outcome
  | none => .ok []

end NestedQuery.Store
