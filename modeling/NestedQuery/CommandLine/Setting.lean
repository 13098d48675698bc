/-!
# Settings on the command line

The settings that a command line may give, and at which of its levels: before the command, or behind
one of the two commands.
-/

namespace NestedQuery.CommandLine

inductive Setting where
  | config
  | log
  | format
  | database
  | catalog
  | assignment
  deriving DecidableEq, Repr

namespace Setting

/-- The name of a setting behind its two dashes. -/
def name : Setting → String
  | config => "config"
  | log => "log"
  | format => "format"
  | database => "db"
  | catalog => "catalog"
  | assignment => "var"

/-- What stands for the value in a description. -/
def placeholder : Setting → String
  | config | database | catalog => "FILE"
  | log => "FILTER"
  | format => "FORMAT"
  | assignment => "NAME=VALUE"

def description : Setting → String
  | config => "Config file (defaults to <config dir>/nestql/config.toml)"
  | log => "Log filter, e.g. nestql=debug"
  | format => "Output format for structured responses"
  | database => "SQLite database to query"
  | catalog => "TOML catalog to use instead of introspecting the database"
  | assignment => "Query variable; VALUE is read as JSON, falling back to a string"

end Setting

/-- Where on a command line a setting stands. -/
inductive Level where
  | program
  | query
  | schema
  deriving DecidableEq, Repr

namespace Level

/-- The settings that may be given at a level, in the order of their description. -/
def settings : Level → List Setting
  | program => [.config, .log, .format]
  | query => [.config, .database, .catalog, .log, .format, .assignment]
  | schema => [.config, .database, .catalog, .log, .format]

def setting? (level : Level) (name : String) : Option Setting :=
  level.settings.find? fun s => s.name == name

/-- The level behind the name of a command. -/
def ofCommand? (name : String) : Option Level :=
  if name == "query" then some query else if name == "schema" then some schema else none

end Level

end NestedQuery.CommandLine
