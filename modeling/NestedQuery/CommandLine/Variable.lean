import NestedQuery.Json.Reader
import NestedQuery.Text.Blank
import NestedQuery.Text.Cut

/-!
# Variables on the command line

A variable is given as `NAME=VALUE`. The value is read as JSON, or else taken as it stands.
-/

namespace NestedQuery.CommandLine

open Text

/-- Reads a variable, or says what is wrong with it. -/
def parseVariable (raw : String) : Except String (String × Json) :=
  match cutFirst '=' raw.toList with
  | none => .error ("expected NAME=VALUE, got '" ++ raw ++ "'")
  | some (name, value) =>
    let name := (trim name).dropWhile (· == '$')
    if name.isEmpty then .error ("variable name missing in '" ++ raw ++ "'")
    else
      let value := String.ofList value
      .ok (.ofList name, (Json.ofText? value).getD (.str value))

end NestedQuery.CommandLine
