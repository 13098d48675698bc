import NestedQuery.Select.Basic
import NestedQuery.Store.Table

/-!
# The grammar of statements

Names stand in the text of a statement as they are. A name that is a word of the grammar makes the
statement unreadable: the word is out of place itself, or it opens something else and what follows
it is out of place. Nothing is read behind a zero byte, so that a text with one is never closed. A
statement is read from the left, and the first such word is reported.
-/

namespace NestedQuery.Store

/-- A word of a text that stands where the grammar has none, and the byte at which it stands. -/
structure Misplaced where
  word : String
  site : Nat
  deriving DecidableEq, Repr

/-- Conditions that are too many to be nested in each other. -/
def depthLimit : Nat := 1000

/-- Why the text of a statement cannot be read. -/
inductive Unreadable where
  | misplaced (m : Misplaced)
  -- a literal is not closed, and nothing follows it
  | unclosed (literal : Misplaced)
  | tooDeep
  deriving DecidableEq, Repr

namespace Grammar

/-- Words that are no names. -/
def reserved : List String :=
  ["add", "alter", "and", "as", "autoincrement", "between", "check", "collate", "commit",
    "constraint", "create", "default", "deferrable", "delete", "drop", "else", "escape", "except",
    "foreign", "from", "group", "having", "in", "index", "insert", "intersect", "into", "is",
    "isnull", "join", "limit", "nothing", "notnull", "on", "or", "order", "primary", "references",
    "returning", "select", "set", "table", "then", "to", "transaction", "union", "unique", "update",
    "using", "values", "when", "where"]

/-- Words that may stand before the first column. -/
def quantifiers : List String := ["all", "distinct"]

/-- Words with which a value begins, and which are no names of tables. -/
def openers : List String := ["case", "exists", "not"]

/-- Words with which a value begins, and which may name tables. -/
def functions : List String := ["cast", "raise"]

def nullWord : String := "null"

def isIn (words : List String) (name : String) : Bool := words.any (sameName name)

/-- What is out of place at a column, with the word and the site that follow it. -/
def column? (isFirst : Bool) (name : String) (site : Nat) (next : Misplaced) : Option Misplaced :=
  if isIn reserved name || (!isFirst && isIn quantifiers name) then some ⟨name, site⟩
  else if isIn (quantifiers ++ openers ++ functions) name then some next
  else none

/-- What is out of place at the table. -/
def table? (name : String) (site : Nat) : Option Misplaced :=
  if isIn (nullWord :: reserved ++ quantifiers ++ openers) name then some ⟨name, site⟩ else none

/-- The first misplaced word of columns that begin at `site` and end before the table. -/
def columns? (isFirst : Bool) (site : Nat) : List String → Option Misplaced
  | [] => none
  | [name] => column? isFirst name site ⟨"FROM", site + Select.bytes name + Select.bytes " "⟩
  | name :: rest =>
    let behind := site + Select.bytes name
    (column? isFirst name site ⟨",", behind⟩).or
      (columns? false (behind + Select.bytes ", ") rest)

/-- The word behind the column of a condition. -/
def relation : Condition → String
  | .isIn _ _ => "IN"
  | .equals _ _ => "="
  | .isNull _ => "IS"

/-- What is read of a literal that stands at `site`, if it has a zero byte. -/
def unclosed? (literal : String) (site : Nat) : Option Misplaced :=
  let read := literal.toList.takeWhile (· != '\x00')
  if read.length < literal.length then some ⟨.ofList read, site⟩ else none

/-- The first literal of a list that is not closed; the list begins at `site`. -/
def unclosedAmong? (site : Nat) : List String → Option Misplaced
  | [] => none
  | literal :: rest =>
    (unclosed? literal site).or
      (unclosedAmong? (site + Select.bytes literal + Select.bytes ",") rest)

/-- The literal of a condition that is not closed; the text behind the column begins at `site`. -/
def unclosedIn? (site : Nat) : Condition → Option Misplaced
  | .isIn _ values => unclosedAmong? (site + Select.bytes " IN (") (Condition.literals values)
  | .equals _ content => unclosed? (Value.quote content) (site + Select.bytes " = ")
  | .isNull _ => none

/-- Why conditions cannot be read, of which the first connective begins at `site`. -/
def conditions? (isFirst : Bool) (site : Nat) : List Condition → Option Unreadable
  | [] => none
  | c :: rest =>
    let site := site + Select.bytes (Select.connective isFirst)
    let behind := site + Select.bytes c.column
    let next := ⟨relation c, behind + Select.bytes " "⟩
    ((column? false c.column site next).map .misplaced).or <|
      ((unclosedIn? behind c).map .unclosed).or <|
        conditions? false (site + Select.bytes c.render) rest

/-- An offset belongs behind a limit. Without one it is out of place behind conditions, and right
behind the table it is taken for another name of the table, so that its number is out of place. -/
def orphanOffset? (s : Select) : Option Misplaced :=
  match s.limit, s.offset with
  | none, some n =>
    let site := Select.bytes s.renderHead + Select.bytes (Select.renderConditions true s.conditions)
    if s.conditions.isEmpty then some ⟨toString n, site + Select.bytes " OFFSET "⟩
    else some ⟨"OFFSET", site + Select.bytes " "⟩
  | _, _ => none

end Grammar

/-- Why the text of a statement cannot be read, if it cannot. -/
def unreadable? (s : Select) : Option Unreadable :=
  let columns := Grammar.columns? true (Select.bytes "SELECT ") s.columns
  let table := Grammar.table? s.table (Select.bytes s.renderHead - Select.bytes s.table)
  ((columns.or table).map .misplaced).or <|
    (Grammar.conditions? true (Select.bytes s.renderHead) (s.conditions.take depthLimit)).or <|
      if depthLimit ≤ s.conditions.length then some .tooDeep
      else (Grammar.orphanOffset? s).map .misplaced

end NestedQuery.Store
