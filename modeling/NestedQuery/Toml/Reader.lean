import NestedQuery.Toml.Table

/-!
# TOML documents, read

A document is a sequence of lines: a key with a value, the header of a table or of an item of an
array of tables, a comment, or nothing.
-/

namespace NestedQuery.Toml

open Text

/-! ### Values -/

/-- At most `fuel` items of an array and its closing bracket; the last may have a comma too. -/
def arrayItems (item : Reader Toml) : Nat → Reader (List Toml)
  | 0, _ => none
  | fuel + 1, s =>
    match skipAll s with
    | ']' :: rest => some ([], rest)
    | s => do
      let (v, s) ← item s
      match skipAll s with
      | ',' :: s =>
        let (more, s) ← arrayItems item fuel s
        return (v :: more, s)
      | ']' :: s => return ([v], s)
      | _ => none

/-- A key, an equals sign and a value. -/
def keyValue (item : Reader Toml) : Reader (List String × Toml) := fun s => do
  let (path, s) ← key s
  match s with
  | '=' :: s =>
    let (v, s) ← item (skipSpace s)
    return ((path, v), s)
  | _ => none

/-- A value in which containers are nested less than `depth` deep. -/
def readValue : Nat → Reader Toml
  | depth, s =>
    match s with
    | [] => none
    | c :: rest =>
      if c = '"' ∨ c = '\'' then (string s).map fun (v, s) => (.str v, s)
      else if c = '[' then
        match depth with
        | 0 => none
        | depth + 1 =>
          (arrayItems (readValue depth) (rest.length + 1) rest).map fun (items, s) =>
            (.arr items, s)
      else if c = '\x7b' then
        match depth with
        | 0 => none
        | depth + 1 => do
          let (pairs, s) ← Reader.listUntil '\x7d' skipSpace (keyValue (readValue depth)) rest
          return (← inlineTable pairs, s)
      else if c = 't' then Reader.word "true" (.bool true) s
      else if c = 'f' then Reader.word "false" (.bool false) s
      else if c = 'i' then Reader.word "inf" .float s
      else if c = 'n' then Reader.word "nan" .float s
      else numberOrTime s

/-! ### Lines -/

inductive Line where
  | blank
  | pair (path : List String) (v : Toml)
  | header (path : List String)
  | arrayHeader (path : List String)

/-- What stands on a line before its end. -/
def lineContent : Reader Line := fun s =>
  match skipSpace s with
  | '[' :: '[' :: rest => do
    let (path, s) ← key rest
    match s with
    | ']' :: ']' :: s => return (.arrayHeader path, s)
    | _ => none
  | '[' :: rest => do
    let (path, s) ← key rest
    match s with
    | ']' :: s => return (.header path, s)
    | _ => none
  | [] => some (.blank, [])
  | c :: rest =>
    if c = '#' || (lineEnd? (c :: rest)).isSome then some (.blank, c :: rest)
    else (keyValue (readValue (depthLimit - 1)) (c :: rest)).map fun ((path, v), s) =>
      (.pair path v, s)

/-- At most `fuel` lines. -/
def readLines : Nat → List Char → Option (List Line)
  | 0, _ => none
  | fuel + 1, s => do
    let (line, s) ← lineContent s
    let s ← closeLine? s
    if s.isEmpty then return [line] else return line :: (← readLines fuel s)

/-! ### Documents -/

/-- A document as far as it is read: its tables but for the last, and the last one. -/
structure Document where
  root : Draft.DraftMembers
  -- the path of the last header, and whether it adds to an array of tables
  path : List String
  inArray : Bool
  -- the members of the table of the last header
  current : Draft.DraftMembers

namespace Document

def empty : Document := ⟨[], [], false, []⟩

/-- Changes the table in which the table at a path stands. -/
def changeParent (path : List String)
    (change : String → Draft.DraftMembers → Option Draft.DraftMembers)
    (root : Draft.DraftMembers) : Option Draft.DraftMembers := do
  let (outer, last) ← splitLast path
  let (_, root) ← Draft.changeAt false
    (fun o ms => (change last ms).map fun ms => (o, ms)) outer .header root
  return root

/-- Puts the table of the last header at its place. -/
def close (d : Document) : Option Draft.DraftMembers :=
  if d.path.isEmpty then some d.current
  else
    changeParent d.path (fun key ms =>
      if d.inArray then
        match Draft.find? key ms with
        | some (.tables all) => some (Draft.put key (.tables (all ++ [d.current])) ms)
        | _ => none
      else some (Draft.put key (.table .header d.current) ms)) d.root

/-- The table that the header of a path finds there: one that has no header and no dots. -/
def found? (path : List String) (root : Draft.DraftMembers) :
    Option (Option Draft.DraftMembers) := do
  let (outer, last) ← splitLast path
  go outer last root
where
  go (outer : List String) (last : String) (members : Draft.DraftMembers) :
      Option (Option Draft.DraftMembers) :=
    match outer with
    | [] =>
      match Draft.find? last members with
      | none => some none
      | some (.table .path ms) => some (some ms)
      | some _ => none
    | key :: outer =>
      match Draft.find? key members with
      | none => some none
      | some (.value _) => none
      | some (.table _ ms) => go outer last ms
      | some (.tables all) => go outer last (all.getLast?.getD [])

/-- Takes up the next line. -/
def add (d : Document) : Line → Option Document
  | .blank => some d
  | .pair path v => do
    let (outer, key) ← splitLast path
    let (_, current) ← Draft.addValue outer key v .header d.current
    return { d with current := current }
  | .header path => do
    let root ← d.close
    let found ← found? path root
    return ⟨root, path, false, found.getD []⟩
  | .arrayHeader path => do
    let root ← d.close
    let root ← changeParent path (fun key ms =>
      match Draft.find? key ms with
      | none => some (ms ++ [(key, .tables [])])
      | some (.tables _) => some ms
      | some _ => none) root
    return ⟨root, path, true, []⟩

end Document

/-- The members of the table that a TOML text stands for. -/
def ofText? (s : String) : Option (List (String × Toml)) := do
  let s := match s.toList with
    | '\uFEFF' :: rest => rest
    | s => s
  let lines ← readLines (s.length + 1) s
  let document ← lines.foldlM Document.add .empty
  return Draft.finishedMembers (← document.close)

end NestedQuery.Toml
