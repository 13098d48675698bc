import NestedQuery.Text.Blank
import NestedQuery.Text.Percent

/-!
# Argument values

An argument value is percent encoded, may have blanks at its ends, and may stand between a pair of
quotes of one kind.
-/

namespace NestedQuery

open Text

namespace Argument

/-- The text without a pair of quotes of one kind at its ends. -/
def unquote : List Char → List Char
  | q :: rest =>
    if (q = '\'' ∨ q = '"') ∧ rest.getLast? = some q then rest.dropLast else q :: rest
  | [] => []

def decode (raw : List Char) : List Char :=
  -- an encoded blank at the ends is trimmed as well, and encoded quotes are taken off
  unquote (trim (Percent.decode raw))

/-- The text that an argument value stands for. -/
def content (raw : String) : String := .ofList (decode raw.toList)

end Argument

end NestedQuery
