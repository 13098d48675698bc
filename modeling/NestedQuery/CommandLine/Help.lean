import NestedQuery.CommandLine.Setting

/-!
# Help texts

A help text names what may be given at a level. Descriptions begin in one column.
-/

namespace NestedQuery.CommandLine

def programName : String := "nestql"

def versionText : String := programName ++ " 0.1.0\n"

namespace Help

/-! ### Lines -/

def padded (width : Nat) (text : String) : String := text.pushn ' ' (width - text.length)

/-- A name and its description, whose lines all begin behind a column of names. -/
def entry (indent nameWidth : Nat) (name description : String) : String :=
  let column := indent + nameWidth + 2
  "".pushn ' ' indent ++ padded (nameWidth + 2) name ++
    ("\n".pushn ' ' column).intercalate (description.splitOn "\n") ++ "\n"

/-! ### Settings -/

def settingName (s : Setting) : String := "--" ++ s.name ++ " <" ++ s.placeholder ++ ">"

/-- The description of a setting with where its value comes from otherwise. -/
def settingText (environment : Option String) (s : Setting) : String :=
  s.description ++
    match s with
    | .config => " [env: NESTQL_CONFIG=" ++ environment.getD "" ++ "]"
    | .format => " [default: text] [possible values: text, json]"
    | _ => ""

def nameWidth (level : Level) : Nat :=
  (level.settings.map fun s => (settingName s).length).foldl max 0

def settingsText (environment : Option String) (level : Level) : String :=
  let width := nameWidth level
  "Options:\n" ++
    String.join (level.settings.map fun s =>
      entry 6 width (settingName s) (settingText environment s)) ++
    entry 2 (width + 4) "-h, --help" "Print help" ++
    if level = .program then entry 2 (width + 4) "-V, --version" "Print version" else ""

/-! ### Levels -/

def about : Level → String
  | .program => "Run nested queries against a SQLite database"
  | .query => "Run a query document"
  | .schema => "Print the entity catalog"

def usage : Level → String
  | .program => programName ++ " [OPTIONS] <COMMAND>"
  | .query => programName ++ " query [OPTIONS] <QUERY>"
  | .schema => programName ++ " schema [OPTIONS]"

/-- What else than settings a level takes. -/
def operands : Level → String
  | .program =>
    "Commands:\n" ++ entry 2 6 "query" (about .query) ++ entry 2 6 "schema" (about .schema) ++ "\n"
  | .query => "Arguments:\n" ++ entry 2 7 "<QUERY>" "Query document, or '-' to read stdin" ++ "\n"
  | .schema => ""

/-- The help text of a level. -/
def text (environment : Option String) (level : Level) : String :=
  about level ++ "\n\nUsage: " ++ usage level ++ "\n\n" ++ operands level ++
    settingsText environment level

end Help

end NestedQuery.CommandLine
