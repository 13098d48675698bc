import NestedQuery.Proofs.Document.Grammar
import NestedQuery.Proofs.Keyed
import NestedQuery.Request.Reading

/-!
# What a document asks for

A document that follows the grammar asks for one tree for every node whose heading can be resolved.
What a selection means is said by recursion on it: `Selection.trees` gives the trees, each with the
fields and the trees of its own selection, and `Selection.errors` the errors of the headings that
cannot be resolved.

## Main results

- `Forest.report_ofTokens`: a reading gives a forest for the documents of the grammar, and for all
  other tokens nothing but one error.
- `Forest.ofTokens_eq_meaning`: the forest and the errors are those that the document means.

The reader keeps the open nodes on a stack instead. `Reading.read_tokens_eq_take` says what the
tokens of a whole selection do to that stack, whatever was read before and whatever follows.
-/

namespace NestedQuery

namespace Node

/-- Of the node around it a heading needs only the entity. -/
theorem resolve_congr {catalog : Metadata} {parent parent' : Option Node}
    (h : parent.map (·.entity) = parent'.map (·.entity)) (word : List Char) :
    resolve catalog parent word = resolve catalog parent' word := by
  cases parent with
  | none =>
    cases parent' with
    | none => rfl
    | some parent' => cases h
  | some parent =>
    cases parent' with
    | none => cases h
    | some parent' =>
      have hentity : parent.entity = parent'.entity := Option.some.inj h
      simp only [resolve, hentity]

theorem requested_of_resolve {catalog : Metadata} {parent : Option Node} {word : List Char}
    {n : Node} (h : resolve catalog parent word = .ok n) : n.requested = [] := by
  unfold resolve at h
  simp only at h
  split at h
  · cases h
  · split at h
    · cases h
    · split at h
      · cases h
      · cases h
        rfl

/-- What cannot be resolved is at fault as a text, or stands for nothing in the catalog. -/
theorem code_of_resolve {catalog : Metadata} {parent : Option Node} {word : List Char}
    {e : RequestError} (h : resolve catalog parent word = .error e) :
    e.code = "ParseError" ∨ e.code = "UnknownEntityError" := by
  unfold resolve at h
  simp only at h
  split at h
  · cases h
    exact .inl rfl
  · right
    split at h
    · next he =>
      cases h
      split at he
      · cases he
      · split at he
        · cases he
        · split at he
          · cases he
            rfl
          · cases he
            rfl
    · split at h
      · cases h
        rfl
      · cases h

end Node

/-! ### The meaning of a selection -/

namespace Selection

/-- The trees of the nodes that can be resolved inside of `parent`, or at the top, in order. A node
asks for the fields of its selection. Where trees inside of it share an output key, the last of them
stands at the place of the first. -/
def trees (catalog : Metadata) (parent : Option Node) : Selection (List Char) → Forest
  | nil => []
  | field _ rest => rest.trees catalog parent
  | node word inner rest =>
    match Node.resolve catalog parent word with
    | .error _ => rest.trees catalog parent
    | .ok n =>
      let n := { n with requested := inner.fields }
      .node n (Keyed.lastOfEach (fun t => t.label.outputKey) (inner.trees catalog (some n))) ::
        rest.trees catalog parent

/-- The errors of the headings that cannot be resolved inside of `parent`, or at the top, in order.
Inside of a node without a meaning nothing is looked at. -/
def errors (catalog : Metadata) (parent : Option Node) : Selection (List Char) → List RequestError
  | nil => []
  | field _ rest => rest.errors catalog parent
  | node word inner rest =>
    match Node.resolve catalog parent word with
    | .error e => e :: rest.errors catalog parent
    | .ok n =>
      inner.errors catalog (some { n with requested := inner.fields }) ++
        rest.errors catalog parent

/-- The forest of a document: of roots with one output key the last one at the first place. -/
def forest (catalog : Metadata) (s : Selection (List Char)) : Forest :=
  Keyed.lastOfEach (fun t => t.label.outputKey) (s.trees catalog none)

variable {catalog : Metadata} {parent parent' : Option Node}

theorem trees_congr (h : parent.map (·.entity) = parent'.map (·.entity))
    (s : Selection (List Char)) : s.trees catalog parent = s.trees catalog parent' := by
  induction s with
  | nil => rfl
  | field name rest ih => exact ih
  | node word inner rest _ ih => rw [trees, trees, Node.resolve_congr h, ih]

theorem errors_congr (h : parent.map (·.entity) = parent'.map (·.entity))
    (s : Selection (List Char)) : s.errors catalog parent = s.errors catalog parent' := by
  induction s with
  | nil => rfl
  | field name rest ih => exact ih
  | node word inner rest _ ih => rw [errors, errors, Node.resolve_congr h, ih]

theorem code_of_mem_errors {s : Selection (List Char)} {e : RequestError}
    (h : e ∈ s.errors catalog parent) : e.code = "ParseError" ∨ e.code = "UnknownEntityError" := by
  induction s generalizing parent with
  | nil => cases h
  | field name rest ih => exact ih h
  | node word inner rest ihinner ih =>
    rw [errors] at h
    cases hresolve : Node.resolve catalog parent word with
    | error e' =>
      rw [hresolve] at h
      rcases List.mem_cons.mp h with rfl | h
      · exact Node.code_of_resolve hresolve
      · exact ih h
    | ok n =>
      rw [hresolve] at h
      rcases List.mem_append.mp h with h | h
      · exact ihinner h
      · exact ih h

end Selection

/-! ### The reading of a selection -/

namespace Outline

/-- Skipping the tokens of a selection leads behind the brace that closes it. -/
theorem skipBranch_tokens (s : Selection (List Char)) (depth : Nat) (rest : List Token) :
    skipBranch depth (s.tokens ++ .closing :: rest) = skipBranch depth (.closing :: rest) := by
  induction s generalizing depth rest with
  | nil => rfl
  | field name s ih =>
    rw [Selection.tokens, List.cons_append, skipBranch]
    exact ih depth rest
  | node word inner s ihinner ih =>
    -- inside of the node one more brace is open
    rw [Selection.tokens, List.cons_append, List.cons_append, skipBranch, skipBranch,
      List.append_assoc, List.cons_append, ihinner, skipBranch]
    exact ih depth rest

end Outline

namespace Reading

/-- Adds what was read of a selection: the fields to the innermost open node, the trees one after
the other to what stands in it, or to the roots, and the errors behind those before. -/
def take (fields : List String) (trees : Forest) (errors : List RequestError) (r : Reading) :
    Reading :=
  match r.stack with
  | [] =>
    { r with
      roots := trees.foldl (fun acc t => Forest.put t acc) r.roots
      errors := r.errors ++ errors }
  | ⟨node, children⟩ :: outer =>
    { r with
      stack := ⟨{ node with requested := node.requested ++ fields },
        trees.foldl (fun acc t => Forest.put t acc) children⟩ :: outer
      errors := r.errors ++ errors }

theorem take_nil (r : Reading) : r.take [] [] [] = r := by
  obtain ⟨stack, roots, errors⟩ := r
  cases stack with
  | nil => simp [take]
  | cons o outer => simp [take]

theorem take_take (r : Reading) (fields fields' : List String) (trees trees' : Forest)
    (errors errors' : List RequestError) :
    (r.take fields trees errors).take fields' trees' errors' =
      r.take (fields ++ fields') (trees ++ trees') (errors ++ errors') := by
  obtain ⟨stack, roots, errs⟩ := r
  cases stack with
  | nil => simp [take]
  | cons o outer => simp [take]

theorem parent?_take (r : Reading) (fields : List String) (trees : Forest)
    (errors : List RequestError) :
    (r.take fields trees errors).parent?.map (·.entity) = r.parent?.map (·.entity) := by
  obtain ⟨stack, roots, errs⟩ := r
  cases stack with
  | nil => rfl
  | cons o outer => rfl

theorem field_eq_take (r : Reading) (word : List Char) :
    r.field word = r.take [.ofList word] [] [] := by
  obtain ⟨stack, roots, errors⟩ := r
  cases stack with
  | nil => simp [field, take]
  | cons o outer => simp [field, take]

theorem fail_eq_take (r : Reading) (e : RequestError) : r.fail e = r.take [] [] [e] := by
  obtain ⟨stack, roots, errors⟩ := r
  cases stack with
  | nil => simp [fail, take]
  | cons o outer => simp [fail, take]

/-- A node that was opened, filled and closed is one more tree. -/
theorem leave_take_enter (r : Reading) {n : Node} (hn : n.requested = []) (fields : List String)
    (trees : Forest) (errors : List RequestError) :
    ((r.enter n).take fields trees errors).leave =
      r.take [] [.node { n with requested := fields }
        (Keyed.lastOfEach (fun t => t.label.outputKey) trees)] errors := by
  rw [← Keyed.ofList_eq_lastOfEach]
  obtain ⟨stack, roots, errs⟩ := r
  cases stack with
  | nil => simp [enter, take, leave, hn, Keyed.ofList, Forest.put]
  | cons o outer => simp [enter, take, leave, hn, Keyed.ofList, Forest.put]

variable {catalog : Metadata}

theorem read_word_of_head? (r : Reading) (word : List Char) {tokens : List Token}
    (h : tokens.head? ≠ some .opening) :
    r.read catalog (.word word :: tokens) = (r.field word).read catalog tokens := by
  rw [read]
  rintro rest rfl
  exact h rfl

/-- The tokens of a selection add what it means, up to the brace that closes it. -/
theorem read_tokens_eq_take (s : Selection (List Char)) (r : Reading) (rest : List Token) :
    r.read catalog (s.tokens ++ .closing :: rest) =
      (r.take s.fields (s.trees catalog r.parent?) (s.errors catalog r.parent?)).read catalog
        (.closing :: rest) := by
  induction s generalizing r rest with
  | nil => rw [Selection.tokens, Selection.fields, Selection.trees, Selection.errors, take_nil]; rfl
  | field name s ih =>
    have hparent := parent?_take r [name] [] []
    rw [Selection.tokens, List.cons_append, read_word_of_head? r _ (s.head?_tokens rest),
      field_eq_take, String.ofList_toList, ih, take_take, Selection.trees_congr hparent,
      Selection.errors_congr hparent]
    rfl
  | node word inner s ihinner ih =>
    have htokens : (Selection.node word inner s).tokens ++ .closing :: rest =
        .word word :: .opening :: (inner.tokens ++ .closing :: (s.tokens ++ .closing :: rest)) := by
      simp [Selection.tokens]
    rw [htokens, read, Selection.fields, Selection.trees, Selection.errors]
    cases hresolve : Node.resolve catalog r.parent? word with
    | error e =>
      -- the whole branch is skipped, and what follows it is read as if it were not there
      have hparent := parent?_take r [] [] [e]
      simp only
      rw [fail_eq_take, Outline.skipBranch_tokens, Outline.skipBranch, ih, take_take,
        Selection.trees_congr hparent, Selection.errors_congr hparent]
      rfl
    | ok n =>
      -- the selection inside is read into the open node, which its brace puts in its place
      have hinside : (r.enter n).parent?.map (·.entity) =
          (some { n with requested := inner.fields }).map (·.entity) := rfl
      have hparent := parent?_take r []
      simp only
      rw [ihinner, read, leave_take_enter r (Node.requested_of_resolve hresolve), ih, take_take,
        Selection.trees_congr hinside, Selection.errors_congr hinside,
        Selection.trees_congr (hparent _ _), Selection.errors_congr (hparent _ _)]
      rfl

end Reading

namespace Forest

/-- A document of the grammar is read as what it means. -/
theorem ofTokens_document (catalog : Metadata) {maxDepth : Nat} {s : Selection (List Char)}
    (h : s.IsDocument maxDepth) :
    ofTokens catalog maxDepth s.document = .ok (s.forest catalog, s.errors catalog none) := by
  have hcheck : Outline.check maxDepth s.document = .ok () :=
    Outline.check_eq_ok_iff.mpr ⟨s, h, rfl⟩
  have hroots : (s.trees catalog none).foldl (fun acc t => Forest.put t acc) [] =
      s.forest catalog := Keyed.ofList_eq_lastOfEach _ _
  rw [ofTokens, hcheck, Selection.document, Reading.read_tokens_eq_take, Reading.read, Reading.read]
  simp only [Reading.take, Reading.start, Reading.leave, Reading.parent?, List.head?_nil,
    Option.map_none, List.nil_append, hroots]

/-- A reading ends in one of two ways, and the grammar decides in which. A document of the grammar
is given a forest, with the errors of its headings; any other sequence of tokens is given none, and
costs one error of the document as a whole. -/
theorem report_ofTokens (catalog : Metadata) (maxDepth : Nat) (tokens : List Token) :
    (Outline.check maxDepth tokens = .ok () ↔
      ∃ s : Selection (List Char), s.IsDocument maxDepth ∧ s.document = tokens) ∧
    match Outline.check maxDepth tokens with
    | .ok () => ∃ (forest : Forest) (errors : List RequestError),
      report (ofTokens catalog maxDepth tokens) = (some forest, errors.map .failed)
    | .error _ => ∃ e : RequestError, e.code = "ParseError" ∧
      report (ofTokens catalog maxDepth tokens) = (none, [.failed e]) := by
  refine ⟨Outline.check_eq_ok_iff, ?_⟩
  cases hcheck : Outline.check maxDepth tokens with
  | ok =>
    obtain ⟨s, hs, rfl⟩ := Outline.check_eq_ok_iff.mp hcheck
    refine ⟨s.forest catalog, s.errors catalog none, ?_⟩
    rw [ofTokens_document catalog hs, report]
  | error fault =>
    refine ⟨.malformed fault.message, rfl, ?_⟩
    rw [ofTokens, hcheck, report]

/-- The forest that is read from a document, and the errors of its headings in order, are those that
its one derivation means. -/
theorem ofTokens_eq_meaning (catalog : Metadata) {maxDepth : Nat} {tokens : List Token}
    (accepted : Outline.check maxDepth tokens = .ok ()) :
    ∃ s : Selection (List Char), (∀ s', s'.document = tokens ↔ s' = s) ∧
      ofTokens catalog maxDepth tokens = .ok (s.forest catalog, s.errors catalog none) := by
  obtain ⟨s, hs, rfl⟩ := Outline.check_eq_ok_iff.mp accepted
  exact ⟨s, fun _ => Selection.document_inj, ofTokens_document catalog hs⟩

end Forest

/-! ### Authors and their books -/

namespace Authors

def book : Entity := ⟨"Book", .ofList ["Id", "Title", "Year"], "Id", []⟩

def author : Entity := ⟨"Author", .ofList ["Id", "Name"], "Id", [⟨"Books", book.name, "AuthorId"⟩]⟩

def catalog : Catalog := .ofList [author, book]

/-- The document `last:Book{Id Shelf{}} Author{Name Books{Title Shelf{Row}} Born Books(limit:3){Year}
Author{} Name} last:Author{Name} none:{}`, in which the first root and the first child are replaced
later, each with a heading inside of it that means nothing. -/
def selection : Selection (List Char) :=
  .node "last:Book".toList (.field "Id" (.node "Shelf".toList .nil .nil))
    (.node "Author".toList
      (.field "Name"
        (.node "Books".toList (.field "Title" (.node "Shelf".toList (.field "Row" .nil) .nil))
          (.field "Born"
            (.node "Books(limit:3)".toList (.field "Year" .nil)
              (.node "Author".toList .nil (.field "Name" .nil))))))
      (.node "last:Author".toList (.field "Name" .nil) (.node "none:".toList .nil .nil)))

def books : Node := { Node.asked "Books" "Books" book (.ofList [("limit", some "3")]) with
  requested := ["Year"] }

def authors : Node := { Node.asked "Author" "Author" author .empty with
  requested := ["Name", "Born", "Name"] }

def last : Node := { Node.asked "last" "Author" author .empty with requested := ["Name"] }

def errors : List RequestError :=
  [.unknownEntity "Shelf", .unknownEntity "Shelf", .unknownRelationship "Author" "Author",
    .malformed "missing entity name in 'none:'"]

end Authors

theorem Forest.ofTokens_authors :
    Outline.check 3 Authors.selection.document = .ok () ∧
      Forest.ofTokens Authors.catalog 3 Authors.selection.document =
        .ok ([.node Authors.last [], .node Authors.authors [.node Authors.books []]],
          Authors.errors) := by
  have accepted : Outline.check 3 Authors.selection.document = .ok () := by decide
  obtain ⟨s, hs, h⟩ := Forest.ofTokens_eq_meaning Authors.catalog accepted
  -- the selection is the only derivation of its own tokens
  obtain rfl : Authors.selection = s := (hs Authors.selection).mp rfl
  refine ⟨accepted, h.trans ?_⟩
  rfl

end NestedQuery
