import NestedQuery.Document.Outline

/-!
# Selections

What stands between two braces of a document is a selection: fields and nodes in any order, where a
node has a heading and a selection of its own. The tokens of a selection pass the check of the
outline up to the brace that closes it, if it is not nested too deep (`Outline.checkFrom_tokens`).
-/

namespace NestedQuery

/-- Fields and nodes in order; a node has a heading and the selection inside it. -/
inductive Selection (α : Type) where
  | nil
  | field (name : String) (rest : Selection α)
  | node (heading : α) (inner rest : Selection α)

namespace Selection

variable {α β : Type}

def map (f : α → β) : Selection α → Selection β
  | nil => nil
  | field name rest => field name (rest.map f)
  | node heading inner rest => node (f heading) (inner.map f) (rest.map f)

/-- The fields outside of any node. -/
def fields : Selection α → List String
  | nil => []
  | field name rest => name :: rest.fields
  | node _ _ rest => rest.fields

/-- The number of nodes on the longest way down. -/
def height : Selection α → Nat
  | nil => 0
  | field _ rest => rest.height
  | node _ inner rest => max (inner.height + 1) rest.height

/-- `P` holds of every heading. -/
def Each (P : α → Prop) : Selection α → Prop
  | nil => True
  | field _ rest => rest.Each P
  | node heading inner rest => P heading ∧ inner.Each P ∧ rest.Each P

/-- The tokens of a selection in which headings are words. -/
def tokens : Selection (List Char) → List Token
  | nil => []
  | field name rest => .word name.toList :: rest.tokens
  | node word inner rest => .word word :: .opening :: (inner.tokens ++ .closing :: rest.tokens)

@[simp] theorem fields_map (f : α → β) (s : Selection α) : (s.map f).fields = s.fields := by
  induction s with
  | nil => rfl
  | field name rest ih => simp [map, fields, ih]
  | node heading inner rest _ ih => simp [map, fields, ih]

@[simp] theorem height_map (f : α → β) (s : Selection α) : (s.map f).height = s.height := by
  induction s with
  | nil => rfl
  | field name rest ih => simp [map, height, ih]
  | node heading inner rest ihi ihr => simp [map, height, ihi, ihr]

/-- What follows a word in a selection is no opening brace. -/
theorem head?_tokens (s : Selection (List Char)) (rest : List Token) :
    (s.tokens ++ .closing :: rest).head? ≠ some .opening := by
  cases s with
  | nil => simp [tokens]
  | field name s => simp [tokens]
  | node word inner s => simp [tokens]

end Selection

namespace Outline

/-- The tokens of a selection lead to the brace that closes it, behind which the check goes on one
level up. -/
theorem checkFrom_tokens (s : Selection (List Char)) {maxDepth depth : Nat} (hpos : 0 < depth)
    (hheight : s.height + depth ≤ maxDepth + 1) (hfields : depth = 1 → s.fields = [])
    (afterWord : Bool) (rest : List Token) :
    checkFrom maxDepth depth afterWord (s.tokens ++ .closing :: rest) =
      checkFrom maxDepth (depth - 1) false rest := by
  induction s generalizing depth afterWord rest with
  | nil =>
    rw [Selection.tokens, List.nil_append, checkFrom, if_neg (Nat.ne_of_gt hpos)]
  | field name s ih =>
    -- a field stands inside of a node
    have hdepth : depth ≠ 1 := by
      intro hone
      cases hfields hone
    rw [Selection.tokens, List.cons_append, checkFrom, if_neg (Nat.ne_of_gt hpos),
      if_neg fun hone => hdepth hone.1]
    exact ih hpos hheight (fun hone => absurd hone hdepth) true rest
  | node word inner s ihinner ih =>
    rw [Selection.height] at hheight
    have hin : inner.height + (depth + 1) ≤ maxDepth + 1 := by omega
    have hout : s.height + depth ≤ maxDepth + 1 := by omega
    -- the heading and its brace lead one level down
    rw [Selection.tokens, List.cons_append, List.cons_append, checkFrom,
      if_neg (Nat.ne_of_gt hpos), if_neg (by simp), checkFrom, if_neg (Nat.ne_of_gt hpos),
      if_neg (by decide), if_neg (by omega), List.append_assoc, List.cons_append,
      ihinner (Nat.succ_pos depth) hin (by omega) false]
    exact ih hpos hout hfields false rest

/-- A document of nodes that are not nested too deep passes the check. -/
theorem check_tokens (s : Selection (List Char)) {maxDepth : Nat} (hheight : s.height ≤ maxDepth)
    (hfields : s.fields = []) (hne : s.height ≠ 0) :
    check maxDepth (s.tokens ++ [.closing]) = .ok () := by
  have hword : (s.tokens ++ [Token.closing]).all (· == Token.closing) = false := by
    cases s with
    | nil => exact absurd rfl hne
    | field name rest => cases hfields
    | node word inner rest => rfl
  rw [check, hword, if_neg (by decide),
    checkFrom_tokens s Nat.one_pos (Nat.succ_le_succ hheight) fun _ => hfields]
  rfl

end Outline

end NestedQuery
