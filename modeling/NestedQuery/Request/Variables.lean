import NestedQuery.Json.Printer
import NestedQuery.Ordered
import NestedQuery.Text.Percent

/-!
# Variables

A reference in a query is a dollar sign and the name of a variable. All references to the longest
name are replaced first, so that no name is mistaken for the beginning of a longer one. What takes
the place of a reference is percent encoded and can neither be read as part of the document's
structure nor hold a reference.
-/

namespace NestedQuery

open Text

abbrev Variables := Ordered (String × Json) Prod.fst

namespace Variables

/-- Replaces every reference to `name` by `value`. -/
def replace (name value : List Char) : List Char → List Char
  | [] => []
  | c :: rest =>
    if c = '$' ∧ name <+: rest then value ++ replace name value (rest.drop name.length)
    else c :: replace name value rest
termination_by s => s.length
decreasing_by all_goals simp only [List.length_drop, List.length_cons]; omega

def render : Json → String
  -- a string stands for itself, without quotes
  | .str s => s
  | value => value.compact

def encoded (value : Json) : List Char := Percent.encode (render value).toList

/-- Puts a variable before all that have shorter names, behind the others. -/
def insertByLength (v : String × Json) : List (String × Json) → List (String × Json)
  | [] => [v]
  | w :: rest =>
    if w.1.utf8ByteSize < v.1.utf8ByteSize then v :: w :: rest else w :: insertByLength v rest

/-- The variables, those with longer names first and those of one length by name. -/
def longestFirst (vars : Variables) : List (String × Json) :=
  vars.toList.foldl (fun acc v => insertByLength v acc) []

def substitute (vars : Variables) (query : List Char) : List Char :=
  vars.longestFirst.foldl (fun q (name, value) => replace name.toList (encoded value) q) query

end Variables

end NestedQuery
