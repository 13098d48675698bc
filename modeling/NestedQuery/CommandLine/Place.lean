import NestedQuery.Store.Answer
import NestedQuery.Store.Location
import NestedQuery.Store.Schema

/-!
# Where the program runs

The program finds files by their paths, reads its standard input and knows two things of its
environment. A place gives all this; a directory whose content is known is such a place.
-/

namespace NestedQuery.CommandLine

/-- Why a path leads nowhere. -/
inductive PathFault where
  | missing
  -- a file stands where a directory is needed
  | notDirectory
  | nameTooLong
  | denied
  | zeroByte
  deriving DecidableEq, Repr

def PathFault.message : PathFault → String
  | missing => "No such file or directory (os error 2)"
  | notDirectory => "Not a directory (os error 20)"
  | nameTooLong => "File name too long (os error 36)"
  | denied => "Permission denied (os error 13)"
  | zeroByte => "file name contained an unexpected NUL byte"

/-- What a path leads to. -/
inductive Entry where
  | absent (fault : PathFault)
  | directory
  | text (content : String)
  -- a file that is neither text nor a database
  | binary
  | database (tables : Store.Database)

namespace Entry

/-- The text of a file, or why it cannot be read. A database without tables is an empty file. -/
def read : Entry → Except String String
  | absent fault => .error fault.message
  | directory => .error "Is a directory (os error 21)"
  | text content => .ok content
  | binary => .error "stream did not contain valid UTF-8"
  | database tables =>
    if tables.isEmpty then .ok "" else .error "stream did not contain valid UTF-8"

/-- The database in a file, unless the file is no database. An empty file is an empty database. -/
def tables? : Entry → Option Store.Database
  | text content => if content.isEmpty then some [] else none
  | database tables => some tables
  | _ => none

end Entry

/-- What the program finds where it runs. -/
structure Place (m : Type → Type) where
  find : String → m Entry
  -- the steps from the root to the directory in which the program runs
  here : List String
  input : m String
  -- the directory of configurations
  configDirectory : Option String
  -- the configuration that the environment names
  environment : Option String

def steps (path : String) : List String := path.splitOn "/"

/-- The path from the root over some steps. -/
def absolutePath (steps : List String) : String := "/" ++ "/".intercalate steps

namespace Place

variable {m : Type → Type} [Monad m]

/-- What a path leads to; no path has a zero byte. -/
def entryAt (place : Place m) (path : String) : m Entry :=
  if path.toList.contains '\x00' then pure (.absent .zeroByte) else place.find path

/-- Follows steps from a directory without looking where they lead: a step back takes away the step
before it. Only a step behind a file, or a name that is too long, is noticed. -/
def follow (place : Place m) (done : List String) : List String → m (Option (List String))
  | [] => return some done
  | step :: rest =>
    if step == "" || step == "." then follow place done rest
    else if step == ".." then follow place done.dropLast rest
    else do
      match ← place.find (absolutePath (done ++ [step])) with
      | .absent .missing => follow place (done ++ [step]) rest
      | .absent _ => return none
      | _ => follow place (done ++ [step]) rest

/-- The steps from the root that a path to a database stands for. -/
def stepsTo (place : Place m) (path : String) : m (Option (List String)) :=
  follow place (if path.startsWith "/" then [] else place.here) (steps path)

end Place

/-! ### Known directories -/

/-- A directory in which a program runs, and files anywhere, by the steps that lead to them from the
root. -/
structure Directory where
  -- how paths from the root to the directory are written
  name : String
  home : List String
  files : List (List String × Entry)

namespace Directory

/-- What steps without detours lead to; a directory lies on the way to a file. -/
def entryAt (d : Directory) (place : List String) : Entry :=
  match d.files.find? fun (file, _) => file == place with
  | some (_, entry) => entry
  | none =>
    if place.isPrefixOf d.home || d.files.any fun (file, _) => place.isPrefixOf file then .directory
    else .absent .missing

def nameLimit : Nat := 255

def pathLimit : Nat := 4096

/-- What further steps lead to. They may stay or go back, and each starts at a directory. -/
def walk (d : Directory) (place : List String) : List String → Entry
  | [] => d.entryAt place
  | step :: rest =>
    match d.entryAt place with
    | .absent fault => .absent fault
    | .directory =>
      if step == "" || step == "." then walk d place rest
      else if step == ".." then walk d place.dropLast rest
      else if nameLimit < step.utf8ByteSize then .absent .nameTooLong
      else walk d (place ++ [step]) rest
    | _ => .absent .notDirectory

def find (d : Directory) (path : String) : Entry :=
  if path.isEmpty then .absent .missing
  else if pathLimit ≤ path.utf8ByteSize then .absent .nameTooLong
  else
    match Text.dropMark? (d.name ++ "/").toList path.toList with
    | some rest => d.walk d.home (steps (.ofList rest))
    | none => d.walk (if path.startsWith "/" then [] else d.home) (steps path)

end Directory

end NestedQuery.CommandLine
