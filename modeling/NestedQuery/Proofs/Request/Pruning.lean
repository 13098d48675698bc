import Mathlib.Data.List.Forall2
import NestedQuery.Proofs.Request.Meaning

/-!
# Branches that cannot be resolved

A heading that cannot be resolved costs its whole branch, and nothing but this branch: the document
without these branches is read as the same forest, and without an error.

`Selection.unresolved` lists the branches, and `Selection.pruned` is the selection without them.

## Main result

`Forest.ofTokens_pruned`: a reading of the whole document has one error for each branch that is
lost, and the forest of the pruned document, if anything is left of that.
-/

namespace NestedQuery

/-! ### Deleted runs of tokens -/

/-- `left` is what remains of `all` without the given runs of tokens, which stand in it in this
order. -/
inductive Token.Deletes : List (List Token) → List Token → List Token → Prop where
  | nil : Deletes [] [] []
  | keep {runs : List (List Token)} {all left : List Token} (token : Token)
      (rest : Deletes runs all left) : Deletes runs (token :: all) (token :: left)
  | delete {runs : List (List Token)} {all left : List Token} (run : List Token)
      (rest : Deletes runs all left) : Deletes (run :: runs) (run ++ all) left

namespace Token

variable {runs runs' : List (List Token)} {all all' left left' : List Token}

theorem Deletes.refl (tokens : List Token) : Deletes [] tokens tokens := by
  induction tokens with
  | nil => exact .nil
  | cons token rest ih => exact .keep token ih

theorem Deletes.append (h : Deletes runs all left) (h' : Deletes runs' all' left') :
    Deletes (runs ++ runs') (all ++ all') (left ++ left') := by
  induction h with
  | nil => exact h'
  | keep token _ ih => exact .keep token ih
  | delete run _ ih =>
    rw [List.append_assoc]
    exact .delete run ih

end Token

/-! ### The branches and the document without them -/

/-- A node of a document, and the node around it. -/
structure Branch where
  parent : Option Node
  word : List Char
  inner : Selection (List Char)

/-- The tokens of a branch, from its heading to its closing brace. -/
def Branch.tokens (b : Branch) : List Token :=
  .word b.word :: .opening :: (b.inner.tokens ++ [.closing])

namespace Selection

/-- The outermost nodes whose headings cannot be resolved inside of `parent`, or at the top, in
order. -/
def unresolved (catalog : Metadata) (parent : Option Node) : Selection (List Char) → List Branch
  | nil => []
  | field _ rest => rest.unresolved catalog parent
  | node word inner rest =>
    match Node.resolve catalog parent word with
    | .error _ => ⟨parent, word, inner⟩ :: rest.unresolved catalog parent
    | .ok n =>
      inner.unresolved catalog (some { n with requested := inner.fields }) ++
        rest.unresolved catalog parent

/-- The selection without its unresolved nodes. -/
def pruned (catalog : Metadata) (parent : Option Node) :
    Selection (List Char) → Selection (List Char)
  | nil => nil
  | field name rest => field name (rest.pruned catalog parent)
  | node word inner rest =>
    match Node.resolve catalog parent word with
    | .error _ => rest.pruned catalog parent
    | .ok n =>
      node word (inner.pruned catalog (some { n with requested := inner.fields }))
        (rest.pruned catalog parent)

variable {catalog : Metadata} {parent : Option Node}

theorem fields_pruned (s : Selection (List Char)) :
    (s.pruned catalog parent).fields = s.fields := by
  induction s with
  | nil => rfl
  | field name rest ih => rw [pruned, fields, fields, ih]
  | node word inner rest _ ih =>
    rw [pruned, fields]
    split
    · exact ih
    · exact ih

theorem height_pruned_le (s : Selection (List Char)) :
    (s.pruned catalog parent).height ≤ s.height := by
  induction s generalizing parent with
  | nil => exact Nat.le_refl _
  | field name rest ih => exact ih
  | node word inner rest ihinner ih =>
    rw [pruned, height]
    split
    · exact Nat.le_trans ih (Nat.le_max_right _ _)
    · next n _ =>
      have hinner : (inner.pruned catalog (some { n with requested := inner.fields })).height ≤
          inner.height := ihinner
      have hrest : (rest.pruned catalog parent).height ≤ rest.height := ih
      rw [height]
      omega

/-- The pruned selection means the same trees. -/
theorem trees_pruned (s : Selection (List Char)) :
    (s.pruned catalog parent).trees catalog parent = s.trees catalog parent := by
  induction s generalizing parent with
  | nil => rfl
  | field name rest ih => exact ih
  | node word inner rest ihinner ih =>
    rw [pruned, trees]
    cases hresolve : Node.resolve catalog parent word with
    | error e => exact ih
    | ok n =>
      simp only
      rw [trees, hresolve]
      simp only
      rw [fields_pruned, ihinner, ih]

theorem errors_pruned (s : Selection (List Char)) :
    (s.pruned catalog parent).errors catalog parent = [] := by
  induction s generalizing parent with
  | nil => rfl
  | field name rest ih => exact ih
  | node word inner rest ihinner ih =>
    rw [pruned]
    cases hresolve : Node.resolve catalog parent word with
    | error e => exact ih
    | ok n =>
      simp only
      rw [errors, hresolve]
      simp only
      rw [fields_pruned, ihinner, ih]
      rfl

/-- Every error is that of one unresolved branch, in order. -/
theorem errors_unresolved (s : Selection (List Char)) :
    List.Forall₂ (fun b e => Node.resolve catalog b.parent b.word = .error e)
      (s.unresolved catalog parent) (s.errors catalog parent) := by
  induction s generalizing parent with
  | nil => exact .nil
  | field name rest ih => exact ih
  | node word inner rest ihinner ih =>
    rw [unresolved, errors]
    cases hresolve : Node.resolve catalog parent word with
    | error e => exact .cons hresolve ih
    | ok n => exact List.rel_append ihinner ih

/-- Pruning deletes the tokens of the unresolved branches and no others. -/
theorem deletes_tokens (s : Selection (List Char)) :
    Token.Deletes ((s.unresolved catalog parent).map Branch.tokens) s.tokens
      (s.pruned catalog parent).tokens := by
  induction s generalizing parent with
  | nil => exact .nil
  | field name rest ih => exact .keep _ ih
  | node word inner rest ihinner ih =>
    rw [unresolved, pruned]
    cases hresolve : Node.resolve catalog parent word with
    | error e =>
      have htokens : (node word inner rest).tokens =
          Branch.tokens ⟨parent, word, inner⟩ ++ rest.tokens := by
        simp [tokens, Branch.tokens]
      rw [htokens]
      exact .delete _ ih
    | ok n =>
      simp only [tokens, List.map_append]
      exact .keep _ (.keep _ (ihinner.append (.keep _ ih)))

end Selection

namespace Forest

/-- Every unresolved branch costs one error and its own tokens. -/
theorem ofTokens_pruned (catalog : Metadata) {maxDepth : Nat} {tokens : List Token}
    (accepted : Outline.check maxDepth tokens = .ok ()) :
    ∃ s : Selection (List Char), (∀ s', s'.document = tokens ↔ s' = s) ∧
      Token.Deletes ((s.unresolved catalog none).map Branch.tokens) tokens
        (s.pruned catalog none).document ∧
      ∃ (roots : Forest) (errors : List RequestError),
        ofTokens catalog maxDepth tokens = .ok (roots, errors) ∧
        List.Forall₂ (fun b e => Node.resolve catalog b.parent b.word = .error e)
          (s.unresolved catalog none) errors ∧
        (s.pruned catalog none ≠ .nil →
          ofTokens catalog maxDepth (s.pruned catalog none).document = .ok (roots, [])) ∧
        (s.pruned catalog none = .nil → roots = []) := by
  obtain ⟨s, hs, rfl⟩ := Outline.check_eq_ok_iff.mp accepted
  have hforest : (s.pruned catalog none).forest catalog = s.forest catalog := by
    rw [Selection.forest, Selection.trees_pruned, Selection.forest]
  have hdeletes : Token.Deletes ((s.unresolved catalog none).map Branch.tokens) s.document
      (s.pruned catalog none).document := by
    simpa [Selection.document] using s.deletes_tokens.append (Token.Deletes.refl [.closing])
  refine ⟨s, fun _ => Selection.document_inj, hdeletes, s.forest catalog, s.errors catalog none,
    ofTokens_document catalog hs, s.errors_unresolved, ?_, ?_⟩
  · intro hne
    -- what is left of a document is one, as long as that is any node
    have hpruned : (s.pruned catalog none).IsDocument maxDepth :=
      ⟨s.fields_pruned.trans hs.nodes, hne, Nat.le_trans s.height_pruned_le hs.height_le⟩
    rw [ofTokens_document catalog hpruned, hforest, Selection.errors_pruned]
  · intro hnil
    rw [← hforest, hnil]
    rfl

end Forest

/-! ### Authors and their books without what means nothing -/

namespace Authors

/-- The document `last:Book{Id} Author{Name Books{Title} Born Books(limit:3){Year} Name}
last:Author{Name}`. -/
def kept : Selection (List Char) :=
  .node "last:Book".toList (.field "Id" .nil)
    (.node "Author".toList
      (.field "Name"
        (.node "Books".toList (.field "Title" .nil)
          (.field "Born" (.node "Books(limit:3)".toList (.field "Year" .nil) (.field "Name" .nil)))))
      (.node "last:Author".toList (.field "Name" .nil) .nil))

end Authors

theorem Forest.ofTokens_pruned_authors :
    Outline.check 3 Authors.selection.document = .ok () ∧
      ∃ (roots : Forest) (errors : List RequestError),
        Forest.ofTokens Authors.catalog 3 Authors.selection.document = .ok (roots, errors) ∧
        errors.length = 4 ∧
        Forest.ofTokens Authors.catalog 3 Authors.kept.document = .ok (roots, []) := by
  have accepted : Outline.check 3 Authors.selection.document = .ok () := by decide
  obtain ⟨s, hs, -, roots, errors, hread, herrors, hpruned, -⟩ :=
    Forest.ofTokens_pruned Authors.catalog accepted
  obtain rfl : Authors.selection = s := (hs Authors.selection).mp rfl
  have hkept : Authors.selection.pruned Authors.catalog none = Authors.kept := by rfl
  have hlength : (Authors.selection.unresolved Authors.catalog none).length = 4 := by rfl
  refine ⟨accepted, roots, errors, hread, herrors.length_eq ▸ hlength, ?_⟩
  rw [hkept] at hpruned
  exact hpruned (by simp [Authors.kept])

end NestedQuery
