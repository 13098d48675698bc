import NestedQuery.Text.Cut
import NestedQuery.Text.Percent

/-!
# Where databases are kept

A database is named by the path of its file. A name that begins with `file:` holds a path, behind it
and a question mark parameters with `&` between them, and a number sign ends it. In a path and in a
parameter `%` and two hexadecimal digits are a byte, and behind a zero byte nothing counts. A
database is opened for reading, and the parameters cannot ask for more than that; they can ask for
an empty database in memory.
-/

namespace NestedQuery.Store

open Text

/-- What may be done with a database. -/
inductive Access where
  | readOnly
  | readWrite
  -- as `readWrite`, and a file that is missing is created
  | create
  -- nothing is kept in a file
  | memory
  deriving DecidableEq, Repr

namespace Access

def ofName? (name : String) : Option Access :=
  [("ro", readOnly), ("rw", readWrite), ("rwc", create), ("memory", memory)].lookup name

/-- Whether a database that is opened with some access can be opened with another one instead. -/
def permits : Access → Access → Bool
  | readOnly, wanted => wanted == readOnly || wanted == memory
  | readWrite, wanted => wanted != create
  | create, _ => true
  | memory, _ => true

end Access

/-- Where a database is kept and how it is opened. -/
structure Location where
  path : String
  access : Access
  deriving DecidableEq, Repr

namespace Location

/-- Why a name leads nowhere. -/
inductive Fault where
  | foreignAuthority (authority : String)
  | unknownCache (mode : String)
  | unknownAccess (mode : String)
  | deniedAccess (mode : String)
  | unknownSystem (name : String)
  deriving DecidableEq, Repr

def Fault.message : Fault → String
  | foreignAuthority authority => "invalid uri authority: " ++ authority
  | unknownCache mode => "no such cache mode: " ++ mode
  | unknownAccess mode => "no such access mode: " ++ mode
  | deniedAccess mode => "access mode not allowed: " ++ mode
  | unknownSystem name => "no such vfs: " ++ name

/-- The names of the systems that keep files. -/
def fileSystems : List String := ["unix", "unix-none", "unix-dotfile", "unix-excl"]

def memorySystem : String := "memdb"

/-- The text of a path, or of the name or value of a parameter. -/
def decoded (s : List Char) : String :=
  .ofList (Utf8.decodeLossy ((Percent.decodeBytes (Utf8.encode s)).takeWhile (· != 0)))

/-- The name and the value of a parameter. -/
def parameter (s : List Char) : String × String :=
  match cutFirst '=' s with
  | some (name, value) => (decoded name, decoded value)
  | none => (decoded s, "")

/-- The parameters of a location; those without a name do not count. -/
def parameters (s : List Char) : List (String × String) :=
  ((pieces '&' s).map parameter).filter fun (name, _) => !name.isEmpty

/-- What a location was opened with so far, and on which system. -/
structure Opening where
  access : Access
  system : Option String

def Opening.set (o : Opening) (name value : String) : Except Fault Opening :=
  if name == "vfs" then .ok { o with system := some value }
  else if name == "cache" then
    if value == "shared" || value == "private" then .ok o else .error (.unknownCache value)
  else if name == "mode" then
    match Access.ofName? value with
    | none => .error (.unknownAccess value)
    | some access =>
      if o.access.permits access then .ok { o with access := access }
      else .error (.deniedAccess value)
  -- other parameters are not for this store
  else .ok o

def Opening.setAll (o : Opening) : List (String × String) → Except Fault Opening
  | [] => .ok o
  | (name, value) :: rest => (o.set name value).bind fun o => o.setAll rest

/-- The access of an opening on the system that is asked for. -/
def Opening.settle (o : Opening) : Except Fault Access :=
  match o.system with
  | none => .ok o.access
  | some system =>
    if fileSystems.contains system then .ok o.access
    else if system == memorySystem then .ok .memory
    else .error (.unknownSystem system)

/-- What follows the authority at the front of a location, which must be this machine. -/
def dropAuthority : List Char → Except Fault (List Char)
  | '/' :: '/' :: rest =>
    let authority := String.ofList (rest.takeWhile (· != '/'))
    if authority.isEmpty || authority == "localhost" then .ok (rest.dropWhile (· != '/'))
    else .error (.foreignAuthority authority)
  | s => .ok s

/-- The location behind `file:`. -/
def ofReference (s : List Char) : Except Fault Location :=
  match dropAuthority s with
  | .error fault => .error fault
  | .ok s =>
    let s := s.takeWhile (· != '#')
    let (path, parts) := (cutFirst '?' s).getD (s, [])
    match (Opening.mk .readOnly none).setAll (parameters parts) with
    | .error fault => .error fault
    | .ok opening => opening.settle.map fun access => ⟨decoded path, access⟩

def ofName (name : String) : Except Fault Location :=
  match dropMark? "file:".toList name.toList with
  | some rest => ofReference rest
  | none => .ok ⟨name, .readOnly⟩

/-- Whether a location keeps nothing in a file. -/
def isPrivate (l : Location) : Bool :=
  l.access == .memory || l.path.isEmpty || l.path == ":memory:"

end Location

end NestedQuery.Store
