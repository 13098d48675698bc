import NestedQuery.Proofs.Keyed
import NestedQuery.Proofs.Request.Documents
import NestedQuery.Proofs.Request.Shape

/-!
# Consistent forests

Headings are resolved once, when a document is read, but the relationship between a node and its
child is looked up two more times: for the statement of the child, and to find the child's records
for a record of the node. For a forest that was read both find the relationship that the heading was
resolved by, whether the heading has its name or that of its entity.

## Main result

`Forest.ofText_consistent`: every node of a forest that was read, and of one that was run
afterwards, is consistent with its children and the catalog (`Forest.ConsistentAt`), so that a run
takes up every node.
-/

namespace NestedQuery

namespace Tree

variable {α β : Type}

theorem heightAll_le_iff {trees : List (Tree α)} {bound : Nat} :
    heightAll trees ≤ bound ↔ ∀ t ∈ trees, t.height ≤ bound := by
  induction trees with
  | nil => simp [heightAll]
  | cons t rest ih => rw [heightAll, Nat.max_le, ih, List.forall_mem_cons]

theorem label_map (f : α → β) (t : Tree α) : (t.map f).label = f t.label := by
  obtain ⟨a, cs⟩ := t
  rfl

end Tree

/-! ### Names -/

namespace Node

/-- The node can be told from its siblings and looked up in the catalog. -/
structure Named (n : Node) : Prop where
  name : n.name ≠ ""
  outputKey : n.outputKey ≠ ""

theorem named_of_resolve {catalog : Catalog} {parent : Option Node} {word : List Char} {n : Node}
    (h : resolve catalog parent word = .ok n) : n.Named := by
  unfold resolve at h
  simp only at h
  split at h
  · cases h
  next hname =>
  have hname : (Heading.ofWord word).name ≠ "" := by simpa using hname
  split at h
  · cases h
  split at h
  · cases h
  cases h
  refine ⟨hname, ?_⟩
  rw [asked]
  -- an empty key is none, and then the name is the key
  split
  · exact hname
  next hkey => simpa using hkey

end Node

namespace Selection

variable {catalog : Catalog}

theorem named_trees (s : Selection (List Char)) (parent : Option Node) :
    ∀ t ∈ s.trees catalog parent, t.Everywhere fun n _ => n.Named := by
  induction s generalizing parent with
  | nil => exact fun t ht => nomatch ht
  | field name rest ih => exact ih parent
  | node word inner rest ihinner ih =>
    rw [trees]
    cases hresolve : Node.resolve catalog parent word with
    | error e => exact ih parent
    | ok n =>
      have named := Node.named_of_resolve hresolve
      rw [List.forall_mem_cons]
      refine ⟨.node ⟨named.name, named.outputKey⟩ fun c hc => ?_, ih parent⟩
      exact ihinner _ c (Keyed.mem_of_mem_lastOfEach hc)

/-- The trees of a selection are not higher than the selection: a branch may be dropped. -/
theorem height_trees_le (s : Selection (List Char)) (parent : Option Node) :
    ∀ t ∈ s.trees catalog parent, t.height ≤ s.height := by
  induction s generalizing parent with
  | nil => exact fun t ht => nomatch ht
  | field name rest ih => exact ih parent
  | node word inner rest ihinner ih =>
    have hrest : ∀ t ∈ rest.trees catalog parent, t.height ≤ (node word inner rest).height :=
      fun t ht => Nat.le_trans (ih parent t ht) (Nat.le_max_right _ _)
    rw [trees]
    cases Node.resolve catalog parent word with
    | error e => exact hrest
    | ok n =>
      rw [List.forall_mem_cons]
      refine ⟨?_, hrest⟩
      have hinner : Tree.heightAll (Keyed.lastOfEach (fun t => t.label.outputKey)
          (inner.trees catalog (some { n with requested := inner.fields }))) ≤ inner.height :=
        Tree.heightAll_le_iff.mpr fun t ht => ihinner _ t (Keyed.mem_of_mem_lastOfEach ht)
      exact Nat.le_trans (Nat.succ_le_succ hinner) (Nat.le_max_left _ _)

end Selection

/-! ### Nodes and their children -/

namespace Node

/-- A visit takes up its node and never finds it unrelated. -/
theorem run_related (engine : Engine) (received : List Select) (link : Option Link)
    (hasChildren : Bool) (n : Node) :
    (n.run engine received link hasChildren).log.countP (· == .visited) = 1 ∧
      ∀ name parent, .failed (.unknownRelationship name parent) ∉
        (n.run engine received link hasChildren).log := by
  obtain ⟨e, hcompile, hrun⟩ | ⟨compiled, -, -, hrun⟩ | ⟨compiled, records, -, -, -, hrun⟩ |
    ⟨compiled, message, -, -, -, hrun⟩ := n.run_cases engine received link hasChildren
  · obtain ⟨key, reason, rfl⟩ := eq_invalidArgument_of_fault? (fault?_of_compile_error hcompile)
    simp [hrun]
  · simp [hrun]
  · simp [hrun]
  · simp [hrun]

end Node

namespace Forest

/-- A node is the entity that the catalog describes, and its children are related to it by the
relationships that their names are looked up as. -/
structure ConsistentAt (catalog : Catalog) (n : Node) (cs : Forest) : Prop where
  name : n.name ≠ ""
  described : catalog.describe n.entity.name = some n.entity
  keys : ∀ c ∈ cs, c.label.outputKey ≠ ""
  distinct : (cs.map fun c => c.label.outputKey).Nodup
  related : ∀ c ∈ cs, ∃ r, n.entity.relationship? c.label.name = some r ∧
    r.entity = c.label.entity.name

variable {catalog : Catalog}

/-- What a run finds for a node changes nothing about its place in the forest. -/
theorem ConsistentAt.of_unanswered {n : Node} {cs : Forest}
    (h : ConsistentAt catalog n.unanswered (cs.map (Tree.map Node.unanswered))) :
    ConsistentAt catalog n cs where
  name := h.name
  described := h.described
  keys c hc := by
    have hkey := h.keys _ (List.mem_map_of_mem hc)
    rwa [Tree.label_map] at hkey
  distinct := by
    rw [← outputKey_unanswered cs]
    exact h.distinct
  related c hc := by
    have hrelated := h.related _ (List.mem_map_of_mem hc)
    rwa [Tree.label_map] at hrelated

theorem consistentAt_of_resolved {t : Tree Node} (described : catalog.describe t.label.entity.name =
      some t.label.entity) (resolved : t.Everywhere (ResolvedAt catalog))
    (named : t.Everywhere fun n _ => n.Named) : t.Everywhere (ConsistentAt catalog) := by
  induction t using Tree.induction with
  | node n cs ih =>
    have labels := named.labels.here
    constructor
    case root =>
      refine ⟨named.here.name, described, fun c hc => (labels c hc).outputKey,
        resolved.here.distinct, fun c hc => ?_⟩
      cases resolved.here.children c hc with
      | @child _ _ r related childDescribed =>
        exact ⟨r, related, (Catalog.name_of_describe childDescribed).symm⟩
    case children =>
      intro c hc
      exact ih c hc ((resolved.here.children c hc).described catalog.named) (resolved.inside c hc)
        (named.inside c hc)

/-- A run takes up every node, and finds none of them unrelated to the node around it. -/
theorem run_related {forest : Forest} (read : forest.IsRead catalog) (engine : Engine) :
    (Forest.run engine forest).2.countP (· == .visited) = (Tree.preorderAll forest).length ∧
      ∀ name parent,
        .failed (.unknownRelationship name parent) ∉ (Forest.run engine forest).2 := by
  have composes : Stretch.Composes fun _ nodes log _ =>
      log.countP (· == .visited) = nodes.length ∧
        ∀ name parent, .failed (.unknownRelationship name parent) ∉ log := by
    refine ⟨fun _ => ⟨rfl, fun _ _ => List.not_mem_nil⟩, ?_⟩
    rintro r s t ns ms a b ⟨hcount, hrelated⟩ ⟨hcountRest, hrelatedRest⟩
    refine ⟨by rw [List.countP_append, hcount, hcountRest, List.length_append], ?_⟩
    intro name parent hmem
    rcases List.mem_append.mp hmem with hmem | hmem
    · exact hrelated name parent hmem
    · exact hrelatedRest name parent hmem
  exact stretch_run_of_step read composes fun n received link _ =>
    n.run_related engine received link _

/-- The children of a node are joined to it: for a record with an identifier they are those records
that have it in the join field. -/
def JoinedAt (n : Node) (cs : Forest) : Prop :=
  ∀ c ∈ cs, ∃ field, n.entity.joinField? c.label.name = some field ∧
    ∀ (r : Record) (key : String), r.key? n.entity.idField = some key →
      n.matching r c.label = c.label.records.filter fun child => child.key? field == some key

theorem ConsistentAt.joined {n : Node} {cs : Forest} (h : ConsistentAt catalog n cs) :
    JoinedAt n cs := by
  intro c hc
  obtain ⟨r, hrelated, -⟩ := h.related c hc
  have hfield : n.entity.joinField? c.label.name = some r.joinField := by
    rw [Entity.joinField?, hrelated, Option.map_some]
  refine ⟨r.joinField, hfield, fun record key hkey => ?_⟩
  simp only [Node.matching, hkey, hfield]

/-- A forest that was read is consistent, at the top and at every node, and not too high. So a run
takes up all of its nodes and the data has the records of all of them: no relationship is unknown
and no join field missing. -/
theorem ofText_consistent {maxDepth : Nat} {text : List Char} {forest : Forest}
    {errors : List RequestError} (h : ofText catalog maxDepth text = .ok (forest, errors))
    (engine : Engine) :
    ((∀ t ∈ forest, t.label.outputKey ≠ "") ∧ (forest.map fun t => t.label.outputKey).Nodup ∧
      Tree.heightAll forest ≤ maxDepth ∧
      ∀ t ∈ forest, t.Everywhere (ConsistentAt catalog)) ∧
    ((Forest.run engine forest).2.countP (· == .visited) = (Tree.preorderAll forest).length ∧
      ∀ name parent,
        .failed (.unknownRelationship name parent) ∉ (Forest.run engine forest).2) ∧
    ∀ t ∈ (Forest.run engine forest).1,
      t.Everywhere fun n cs => ConsistentAt catalog n cs ∧ JoinedAt n cs := by
  obtain ⟨s, hs, rfl, -⟩ := exists_outlines h
  have read := hs.isRead catalog
  have resolved := read.resolved
  have named : ∀ t ∈ s.forest catalog, t.Everywhere fun n _ => n.Named := fun t ht =>
    s.named_trees none t (Keyed.mem_of_mem_lastOfEach ht)
  have consistent : ∀ t ∈ s.forest catalog, t.Everywhere (ConsistentAt catalog) := by
    intro t ht
    have described := (resolved.under t ht).described catalog.named
    exact consistentAt_of_resolved described (resolved.everywhere t ht) (named t ht)
  refine ⟨⟨fun t ht => ?_, resolved.distinct, ?_, consistent⟩, run_related read engine, ?_⟩
  · have hnamed := named t ht
    obtain ⟨n, cs⟩ := t
    exact hnamed.here.outputKey
  · rw [Tree.heightAll_le_iff]
    intro t ht
    exact Nat.le_trans (s.height_trees_le none t (Keyed.mem_of_mem_lastOfEach ht))
      hs.isDocument.height_le
  · intro t ht
    have hmem : t.map Node.unanswered ∈ s.forest catalog := by
      rw [← unanswered_run read engine]
      exact List.mem_map_of_mem ht
    refine (consistent _ hmem).of_map.mono fun n cs hat => ?_
    have consistentAt := ConsistentAt.of_unanswered hat
    exact ⟨consistentAt, consistentAt.joined⟩

end Forest

/-! ### The dogs of a kennel -/

namespace Kennel

def dog : Entity := ⟨"Dog", .ofList ["Id", "Name", "KeeperId"], "Id", []⟩

def person : Entity := ⟨"Person", .ofList ["Id", "FirmId"], "Id", []⟩

/-- The dogs have the name of the entity of the staff. -/
def firm : Entity :=
  ⟨"Firm", .ofList ["Id", "Name"], "Id",
    [⟨"Staff", person.name, "FirmId"⟩, ⟨"Person", dog.name, "KeeperId"⟩]⟩

def catalog : Catalog := .ofList [firm, person, dog]

/-- `{Firm {Name Person {Name} Staff {Id Dog {Name}}}}` -/
def text : List Char :=
  "\x7bFirm \x7bName Person \x7bName\x7d Staff \x7bId Dog \x7bName\x7d\x7d\x7d\x7d".toList

def selection : Selection (List Char) :=
  .node "Firm".toList
    (.field "Name" (.node "Person".toList (.field "Name" .nil)
      (.node "Staff".toList (.field "Id" (.node "Dog".toList (.field "Name" .nil) .nil)) .nil)))
    .nil

theorem outlines : selection.Outlines 3 text :=
  ⟨by decide +kernel, ⟨rfl, nofun, by decide⟩, by decide +kernel⟩

end Kennel

open Kennel in
/-- The dogs below the firm are visited, and those below its staff cannot be read. -/
theorem Forest.ofText_consistent_kennel :
    Forest.ofText catalog 3 text =
      .ok (selection.forest catalog, [.unknownRelationship "Dog" "Person"]) ∧
    (∀ t ∈ selection.forest catalog, t.Everywhere (ConsistentAt catalog)) ∧
    (Forest.run (fun _ _ => .error "closed") (selection.forest catalog)).2.countP
      (· == .visited) = 3 := by
  have hread := outlines.ofText_eq catalog
  obtain ⟨⟨-, -, -, consistent⟩, ⟨hvisited, -⟩, -⟩ :=
    Forest.ofText_consistent hread fun _ _ => .error "closed"
  exact ⟨hread, consistent, hvisited⟩

end NestedQuery
