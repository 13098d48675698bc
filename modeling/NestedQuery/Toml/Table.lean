import NestedQuery.Toml.Scalar

/-!
# TOML tables in the making

While a document is read, a table remembers how it came to be: by a header, by the dots of a key, or
only as a part of the path to another table. On this depends what may be added to it. Every key is
given once.
-/

namespace NestedQuery.Toml

/-- How a table came to be. -/
inductive TableOrigin where
  -- by a header, or as the table of the whole document
  | header
  -- by the dots of a key
  | dots
  -- as a part of the path of a header
  | path
  deriving DecidableEq, Repr

/-- A table, array of tables or other value while the document is read. -/
inductive Draft where
  | value (v : Toml)
  | table (origin : TableOrigin) (members : List (String × Draft))
  | tables (all : List (List (String × Draft)))
  deriving Inhabited

namespace Draft

/-- The members of a table while the document is read. -/
abbrev DraftMembers := List (String × Draft)

def find? (key : String) (members : DraftMembers) : Option Draft :=
  (members.find? fun m => m.1 == key).map Prod.snd

/-- Replaces the member with a key, or adds it behind the others. -/
def put (key : String) (d : Draft) : DraftMembers → DraftMembers
  | [] => [(key, d)]
  | m :: rest => if m.1 = key then (key, d) :: rest else m :: put key d rest

/-- Applies a change to the last item of a list. -/
def changeLast {α : Type} (change : α → Option α) : List α → Option (List α)
  | [] => none
  | [a] => (change a).map fun a => [a]
  | a :: rest => (changeLast change rest).map (a :: ·)

/--
Changes the table at a path, making the tables on the way. A path of dots, given with `dotted`,
must not enter a table that has a header.
-/
def changeAt (dotted : Bool)
    (change : TableOrigin → DraftMembers → Option (TableOrigin × DraftMembers)) :
    List String → TableOrigin → DraftMembers → Option (TableOrigin × DraftMembers)
  | [], origin, members => change origin members
  | key :: path, origin, members => do
    let below := changeAt dotted change path
    match find? key members with
    | none =>
      let (o, ms) ← below (if dotted then .dots else .path) []
      return (origin, put key (.table o ms) members)
    | some (.value _) => none
    | some (.tables all) =>
      let all ← changeLast (fun ms => (below .header ms).map Prod.snd) all
      return (origin, put key (.tables all) members)
    | some (.table o ms) =>
      if dotted && o == .header then none
      else
        let (o, ms) ← below o ms
        return (origin, put key (.table o ms) members)

/-- Adds a value at a key with dots. Only the last table on the way may have come to be by dots. -/
def addValue (path : List String) (key : String) (v : Toml) (origin : TableOrigin)
    (members : DraftMembers) : Option (TableOrigin × DraftMembers) :=
  changeAt true (fun o ms =>
    if (o == .dots) == path.isEmpty then none
    else if (find? key ms).isSome then none
    else some (o, ms ++ [(key, .value v)])) path origin members

mutual

/-- The value of a draft. -/
def finished : Draft → Toml
  | .value v => v
  | .table _ members => .table (finishedMembers members)
  | .tables all => .arr (finishedTables all)

def finishedMembers : DraftMembers → List (String × Toml)
  | [] => []
  | (k, d) :: rest => (k, finished d) :: finishedMembers rest

def finishedTables : List DraftMembers → List Toml
  | [] => []
  | ms :: rest => .table (finishedMembers ms) :: finishedTables rest

end

end Draft

/-- Splits the last key off a path. -/
def splitLast : List String → Option (List String × String)
  | [] => none
  | [k] => some ([], k)
  | k :: rest => (splitLast rest).map fun (path, last) => (k :: path, last)

/-- The table of keys and values between braces. -/
def inlineTable (pairs : List (List String × Toml)) : Option Toml := do
  let step := fun (state : TableOrigin × Draft.DraftMembers) (pair : List String × Toml) => do
    let (path, key) ← splitLast pair.1
    Draft.addValue path key pair.2 state.1 state.2
  let (_, members) ← pairs.foldlM step (.header, [])
  return .table (Draft.finishedMembers members)

end NestedQuery.Toml
