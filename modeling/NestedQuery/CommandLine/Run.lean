import NestedQuery.Catalog.File
import NestedQuery.Catalog.Json
import NestedQuery.CommandLine.Arguments
import NestedQuery.CommandLine.Help
import NestedQuery.CommandLine.Place
import NestedQuery.Config
import NestedQuery.LogFilter
import NestedQuery.Service

/-!
# Running the program

A run reads the configuration, opens the database, takes the catalog from a file or else from the
database, and then answers a query or prints the catalog. What cannot be set up ends the run; what
goes wrong in the query is part of its answer.
-/

namespace NestedQuery.CommandLine

/-- Why a run fails. -/
inductive Failure where
  | wrongCommandLine
  | unreadableConfig (path reason : String)
  | badConfig (path : String)
  | badFilter (fault : LogFilter.Fault)
  | noDatabase
  | badDatabase (reason : String)
  | unreadableCatalog (reason : String)
  | badCatalog (path : String) (fault : CatalogFault)

namespace Failure

/-- The exit code. A filter with a torn part gives up the run at once. -/
def code : Failure → Nat
  | wrongCommandLine => 2
  | badFilter .torn => 101
  | _ => 1

def message : Failure → Option String
  | wrongCommandLine => none
  | badFilter .torn => none
  | unreadableConfig path reason => some ("failed to read config " ++ path ++ ": " ++ reason)
  | badConfig path => some ("failed to parse config " ++ path ++ ": TOML parse error")
  | badFilter fault => some ("invalid argument: Invalid log filter: " ++ fault.message)
  | noDatabase => some "no database given; pass --db or set `database` in the config"
  | badDatabase reason => some ("sqlite error: " ++ reason)
  | unreadableCatalog reason => some ("I/O error: " ++ reason)
  | badCatalog path fault => some (fault.message (some path))

end Failure

/-! ### Output -/

def lines (head : String) (texts : List String) : String :=
  String.join (texts.map fun text => head ++ text ++ "\n")

def writeResponse (format : Format) (r : Response) : String :=
  match format with
  | .json => r.toJson.pretty ++ "\n"
  | .text => r.dataJson.pretty ++ "\n" ++ lines "query: " r.queries ++ lines "error: " r.errors

def writeCatalog (format : Format) (c : Catalog) : String :=
  match format with
  | .json => c.toJson.pretty ++ "\n"
  | .text => c.toToml

/-! ### Setting up -/

/-- A run gives something unless it fails. -/
abbrev Run (m : Type → Type) := ExceptT Failure m

section

variable {m : Type → Type} [Monad m]

/-- The configuration in a file; without the file it is the default one. -/
def readConfig (path : String) : Entry → Except Failure Config
  | .absent _ => .ok .default
  | entry =>
    match entry.read with
    | .error reason => .error (.unreadableConfig path reason)
    | .ok text =>
      match Config.ofToml? text with
      | some config => .ok config
      | none => .error (.badConfig path)

/-- The configuration that is named, or else the one in the directory of configurations. -/
def loadConfig (place : Place m) (named : Option String) : Run m Config := do
  match named.or (place.configDirectory.map (· ++ "/nestql/config.toml")) with
  | none => return .default
  | some path => readConfig path (← place.entryAt path)

def checkFilter (filter : Option String) : Except Failure Unit :=
  match filter with
  | none => .ok ()
  | some filter => (LogFilter.check filter).mapError .badFilter

/-- The catalog in a file. -/
def readCatalog (path : String) (entry : Entry) : Except Failure Catalog :=
  match entry.read with
  | .error reason => .error (.unreadableCatalog reason)
  | .ok text => (Catalog.ofToml text).mapError (.badCatalog path)

def notOpened (path : String) : Failure :=
  .badDatabase ("unable to open database file: " ++ path)

/-- What is in the file of a database, which need not be one. -/
def openFile (place : Place m) (name : String) (location : Store.Location) : Run m Entry := do
  match ← place.stepsTo location.path with
  | none => throw (notOpened name)
  | some [] => throw (notOpened name)
  | some (first :: rest) =>
    match ← place.find (absolutePath (first :: rest)) with
    | .absent .missing =>
      match location.access, ← place.find (absolutePath (first :: rest).dropLast) with
      | .create, .directory => return .database []
      | _, _ => throw (notOpened name)
    | .absent _ => throw (notOpened name)
    | .directory =>
      if location.access = .readOnly then throw (.badDatabase "disk I/O error")
      else throw (notOpened name)
    | entry => return entry

/-- The database with a name. No name and the word for memory lead to a new database; a file that is
none can be opened, but its tables cannot be read. -/
def openDatabase (place : Place m) (name : String) : Run m (Option Store.Database) := do
  match name.toList.findIdx? (· == '\x00') with
  | some index =>
    let site := Text.Utf8.size (name.toList.take index)
    throw (.badDatabase ("nul byte found in provided data at position: " ++ toString site))
  | none =>
    match Store.Location.ofName name with
    | .error fault => throw (.badDatabase fault.message)
    | .ok location =>
      if location.isPrivate then return some []
      else return (← openFile place name location).tables?

def noDatabaseFile : String := "file is not a database"

/-- The store of the tables of a file. -/
def engineOf : Option Store.Database → Engine
  | some tables => Store.Database.engine tables
  | none => Store.Database.unreadableEngine noDatabaseFile

/-- The catalog in the file at `path`, or else of the tables. -/
def loadCatalog (place : Place m) (path : Option String) (idField : Option String)
    (tables : Option Store.Database) : Run m Catalog := do
  match path, tables with
  | some path, _ => readCatalog path (← place.entryAt path)
  | none, some tables => return Store.Database.catalog tables (idField.getD defaultIdField)
  | none, none => throw (.badDatabase noDatabaseFile)

/-! ### Running -/

/-- What a command prints over a catalog and a store. -/
def perform (place : Place m) (config : Config) (format : Format) (catalog : Catalog)
    (engine : Engine) : Command → m String
  | .schema => return writeCatalog format catalog
  | .query document bindings => do
    let document ← if document == "-" then place.input else pure document
    let service : Service := ⟨catalog, engine, config.maxDepth⟩
    return writeResponse format (service.handle ⟨document, .ofList bindings⟩)

/-- What an invocation prints. -/
def invoke (place : Place m) (i : Invocation) : Run m String := do
  let config ← loadConfig place i.config
  checkFilter (i.log.or config.log)
  match i.database.or config.database with
  | none => throw .noDatabase
  | some path =>
    let tables ← openDatabase place path
    let catalog ← loadCatalog place (i.catalog.or config.catalog) config.idField tables
    ExceptT.lift (perform place config i.format catalog (engineOf tables) i.command)

/-- What a command line prints. -/
def run (place : Place m) (words : List String) : Run m String :=
  match read place.environment words with
  | .ok invocation => invoke place invocation
  | .error .wrong => throw .wrongCommandLine
  | .error .version => return versionText
  | .error (.help level) => return Help.text place.environment level

end

end NestedQuery.CommandLine
