import NestedQuery.Document.Token

/-!
# Outlines

The braces of a document form an outline: one or more nodes and the brace that closes the document;
a node is a word, an opening brace, its fields and nodes, and a closing brace. `Outline.check` goes
through the tokens once and names the first fault.
-/

namespace NestedQuery

/-- Why a document cannot be read as a whole. -/
inductive DocumentFault where
  | empty
  | noOpeningBrace
  | trailingContent
  | unnamedBrace
  | tooDeep (limit : Nat)
  | strayField (word : List Char)
  | unclosed
  deriving DecidableEq, Repr

def DocumentFault.message : DocumentFault → String
  | empty => "query is empty"
  | noOpeningBrace => "query must start with '\x7b'"
  | trailingContent => "unexpected content after the closing '\x7d'"
  | unnamedBrace => "'\x7b' must follow an entity name"
  | tooDeep limit => "query nesting exceeds " ++ toString limit ++ " levels"
  | strayField word => "field '" ++ .ofList word ++ "' is outside of any entity"
  | unclosed => "unbalanced braces: missing '\x7d'"

namespace Outline

/-- Checks the tokens behind `depth` open braces, the one of the document included. -/
def checkFrom (maxDepth depth : Nat) (afterWord : Bool) : List Token → Except DocumentFault Unit
  | [] => if 0 < depth then .error .unclosed else .ok ()
  | token :: rest =>
    -- the brace of the document is closed already
    if depth = 0 then .error .trailingContent
    else
      match token with
      | .opening =>
        if !afterWord then .error .unnamedBrace
        -- the brace of the document opens no node
        else if maxDepth < depth then .error (.tooDeep maxDepth)
        else checkFrom maxDepth (depth + 1) false rest
      | .closing => checkFrom maxDepth (depth - 1) false rest
      | .word w =>
        -- beside the roots there are no fields
        if depth = 1 ∧ rest.head? ≠ some .opening then .error (.strayField w)
        else checkFrom maxDepth depth true rest

/-- Checks that the tokens of a document, without its first brace, form an outline. -/
def check (maxDepth : Nat) (tokens : List Token) : Except DocumentFault Unit :=
  -- only braces that close: the document is blank
  if tokens.all (· == .closing) then .error .empty else checkFrom maxDepth 1 false tokens

/-- What follows the brace that closes the branch; `depth` more braces are open inside it. -/
def skipBranch : Nat → List Token → List Token
  | _, [] => []
  | 0, .closing :: rest => rest
  | depth + 1, .closing :: rest => skipBranch depth rest
  | depth, .opening :: rest => skipBranch (depth + 1) rest
  | depth, .word _ :: rest => skipBranch depth rest

theorem length_skipBranch_le (depth : Nat) (tokens : List Token) :
    (skipBranch depth tokens).length ≤ tokens.length := by
  fun_induction skipBranch depth tokens with
  | case1 => exact Nat.le_refl _
  | case2 rest => exact Nat.le_succ _
  | case3 depth rest ih => exact Nat.le_succ_of_le ih
  | case4 depth rest ih => exact Nat.le_succ_of_le ih
  | case5 depth w rest ih => exact Nat.le_succ_of_le ih

end Outline

end NestedQuery
