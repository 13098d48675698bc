import NestedQuery.Document.Outline
import NestedQuery.Request.Log
import NestedQuery.Request.Node

/-!
# Reading a document

The tokens of a document become a forest of request nodes. Nodes that are still open wait on a
stack; a node joins its siblings when it is closed. A heading that cannot be resolved costs its
whole branch and one error.
-/

namespace NestedQuery

/-- The deepest nesting of nodes that is read unless a limit is given. -/
def defaultMaxDepth : Nat := 32

/-- A node whose closing brace was not read yet, and its children so far. -/
structure OpenNode where
  node : Node
  children : Forest

/-- A forest as far as it was read. -/
structure Reading where
  -- the open nodes, the innermost first
  stack : List OpenNode
  roots : Forest
  errors : List RequestError

namespace Reading

def start : Reading := ⟨[], [], []⟩

/-- The node around what is read next. -/
def parent? (r : Reading) : Option Node := r.stack.head?.map (·.node)

def enter (node : Node) (r : Reading) : Reading := { r with stack := ⟨node, []⟩ :: r.stack }

def fail (error : RequestError) (r : Reading) : Reading := { r with errors := r.errors ++ [error] }

def field (word : List Char) (r : Reading) : Reading :=
  match r.stack with
  | [] => r
  | ⟨node, children⟩ :: outer =>
    { r with
      stack := ⟨{ node with requested := node.requested ++ [.ofList word] }, children⟩ :: outer }

def leave (r : Reading) : Reading :=
  match r.stack with
  | [] => r
  | ⟨node, children⟩ :: [] =>
    { r with stack := [], roots := Forest.put (.node node children) r.roots }
  | ⟨node, children⟩ :: ⟨parent, siblings⟩ :: outer =>
    { r with stack := ⟨parent, Forest.put (.node node children) siblings⟩ :: outer }

/-- Reads the tokens of a document that form an outline. -/
def read (catalog : Metadata) (r : Reading) : List Token → Reading
  | [] => r
  | .word w :: .opening :: rest =>
    -- a word is a heading just before a brace
    match Node.resolve catalog r.parent? w with
    | .ok node => read catalog (r.enter node) rest
    -- the whole branch is left unread
    | .error e => read catalog (r.fail e) (Outline.skipBranch 0 rest)
  | .word w :: rest => read catalog (r.field w) rest
  | .closing :: rest => read catalog r.leave rest
  -- an outline has no brace without a word before it
  | .opening :: rest => read catalog r rest
termination_by tokens => tokens.length
decreasing_by
  all_goals simp only [List.length_cons]
  all_goals first
    | omega
    | exact Nat.lt_succ_of_lt (Nat.lt_succ_of_le (Outline.length_skipBranch_le 0 rest))

end Reading

namespace Forest

/-- The forest of a sequence of tokens and the errors of its headings. -/
def ofTokens (catalog : Metadata) (maxDepth : Nat) (tokens : List Token) :
    Except DocumentFault (Forest × List RequestError) :=
  match Outline.check maxDepth tokens with
  | .error fault => .error fault
  | .ok () =>
    let r := Reading.start.read catalog tokens
    .ok (r.roots, r.errors)

def ofFlat (catalog : Metadata) (maxDepth : Nat) (flat : List Char) :
    Except DocumentFault (Forest × List RequestError) :=
  ofTokens catalog maxDepth (Token.scan flat)

def ofText (catalog : Metadata) (maxDepth : Nat) (text : List Char) :
    Except DocumentFault (Forest × List RequestError) :=
  let trimmed := Text.trim text
  match trimmed with
  | [] => .error .empty
  | c :: _ =>
    if c = '\x7b' then ofFlat catalog maxDepth (Document.flatten trimmed)
    else .error .noOpeningBrace

/-- The forest of a reading, and what the reading adds to the log: one error for a document that
cannot be read, and otherwise those of its headings. -/
def report : Except DocumentFault (Forest × List RequestError) → Option Forest × Log
  | .error fault => (none, [.failed (.malformed fault.message)])
  | .ok (forest, errors) => (some forest, errors.map .failed)

end Forest

end NestedQuery
