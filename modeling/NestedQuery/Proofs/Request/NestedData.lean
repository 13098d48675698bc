import NestedQuery.Proofs.Request.Shape
import NestedQuery.Proofs.Select.Tables

/-!
# Nested data

The data that a forest asks for is nested: a record of a node holds its output fields and, for every
child node, the records of the child's table that are joined to this one record. `Forest.nested`
reads that data off the tables, one record after the other.

A run asks for it in batches instead, one statement for every node. The main result,
`Forest.assemble_run_eq_nested`, says that the batches put together give the nested data. It goes by
induction on the trees: below a node, the records that were found for all of its records together
hold exactly those that are joined to each (`Tree.Batched`).
-/

namespace NestedQuery

/-! ### The data that is asked for -/

namespace Record

/-- Whether the join field of `child` holds the identifier of the record. -/
def owns (r : Record) (idField joinField : String) (child : Record) : Bool :=
  (r.get? idField).any fun id => id != .null && child.get? joinField == some id

end Record

namespace Node

def filters (n : Node) (joinField : Option String) : List Condition :=
  (n.joinedFields joinField).filterMap n.condition?

end Node

namespace Tables

/-- The rows that a node asks for, of those that are admitted. -/
def rowsFor (tables : Tables) (n : Node) (joinField : Option String) (admits : Record → Bool) :
    List Record :=
  Store.page (n.pageNumber? Node.limitKey) (n.pageNumber? Node.offsetKey)
    ((tables.rowsWith n.entity.name (n.filters joinField)).filter admits)

end Tables

namespace Tree

mutual

/-- The objects of the admitted rows of a node. -/
def nested (tables : Tables) (joinField : Option String) (admits : Record → Bool) :
    Tree Node → List Json
  | .node n cs =>
    (tables.rowsFor n joinField admits).map fun row =>
      .obj (n.fieldMembers row ++ nestedBelow tables n row cs)

/-- A member for every child of a node: the objects of the rows that are joined to `row`. -/
def nestedBelow (tables : Tables) (parent : Node) (row : Record) : List (Tree Node) → Members
  | [] => []
  | c :: cs =>
    let children := match parent.entity.joinField? c.label.name with
      | some field => nested tables (some field) (row.owns parent.entity.idField field) c
      | none => []
    (c.label.outputKey, .arr children) :: nestedBelow tables parent row cs

end

end Tree

/-- The data of a forest, read off the tables. -/
def Forest.nested (tables : Tables) (forest : Forest) : Members :=
  forest.map fun t => (t.label.outputKey, .arr (t.nested tables none fun _ => true))

/-! ### Stores that answer from tables -/

/-- All identifiers and all values of join fields are null or of one kind. -/
structure Tables.Keyed (tables : Tables) (catalog : Catalog) (kind : Kind) : Prop where
  identifiers : ∀ e ∈ catalog.toList, ∀ row ∈ tables.rows e.name, ∀ v ∈ row.get? e.idField,
    v.isOf kind
  joins : ∀ e ∈ catalog.toList, ∀ r ∈ e.children, ∀ row ∈ tables.rows r.entity,
    ∀ v ∈ row.get? r.joinField, v.isOf kind

/-- A link by a relationship of the catalog, with identifiers of one kind. -/
structure Link.IsOf (catalog : Catalog) (kind : Kind) (link : Link) : Prop where
  joinField : ∃ e ∈ catalog.toList, ∃ r ∈ e.children, r.joinField = link.joinField
  identifiers : ∀ v ∈ link.identifiers, v.isOf kind

/-- The engine answers every statement of the node that is sent from the tables, whatever it was
sent before. -/
def Engine.Answers (engine : Engine) (tables : Tables) (catalog : Catalog) (kind : Kind)
    (n : Node) : Prop :=
  ∀ received hasChildren link compiled, (∀ l ∈ link, Link.IsOf catalog kind l) →
    n.compile hasChildren link = .ok compiled → compiled.skipped = false →
    engine received compiled.select = .ok (tables.answer compiled.select)

/-! ### Runs -/

namespace Node

variable {engine : Engine} {link : Option Link} {hasChildren : Bool}

theorem mem_distinctLiterals {kind : Kind} {values : List Value} {v : Value}
    (kinds : ∀ v ∈ values, v.isOf kind) (seen : List String) :
    v ∈ distinctLiterals seen values ↔ v ∈ values ∧ ∃ s ∉ seen, v.literal? = some s := by
  induction values generalizing seen with
  | nil => simp [distinctLiterals]
  | cons w rest ih =>
    have hw : w.isOf kind := kinds w List.mem_cons_self
    have hrest : ∀ v ∈ rest, v.isOf kind := fun v hv => kinds v (List.mem_cons_of_mem _ hv)
    rw [distinctLiterals]
    cases hliteral : w.literal? with
    | none =>
      -- a value without a literal is passed over
      simp only [ih hrest, List.mem_cons]
      refine ⟨fun ⟨hv, hs⟩ => ⟨.inr hv, hs⟩, ?_⟩
      rintro ⟨rfl | hv, s, hs, hsome⟩
      · rw [hliteral] at hsome
        cases hsome
      · exact ⟨hv, s, hs, hsome⟩
    | some literal =>
      by_cases hseen : literal ∈ seen
      · -- a repetition is passed over as well
        simp only [List.contains_iff_mem.mpr hseen, ↓reduceIte, ih hrest, List.mem_cons]
        refine ⟨fun ⟨hv, hs⟩ => ⟨.inr hv, hs⟩, ?_⟩
        rintro ⟨rfl | hv, s, hs, hsome⟩
        · rw [hliteral] at hsome
          cases hsome
          exact absurd hseen hs
        · exact ⟨hv, s, hs, hsome⟩
      · -- a new literal: its value is kept, and the literal counts as seen from here on
        have hcontains : seen.contains literal = false := by simpa using hseen
        simp only [hcontains, Bool.false_eq_true, ↓reduceIte, List.mem_cons, ih hrest]
        constructor
        · rintro (rfl | ⟨hv, s, hs, hsome⟩)
          · exact ⟨.inl rfl, literal, hseen, hliteral⟩
          · exact ⟨.inr hv, s, fun h => hs (.inr h), hsome⟩
        · rintro ⟨rfl | hv, s, hs, hsome⟩
          · exact .inl rfl
          · by_cases heq : s = literal
            · -- a second value with the same literal is the same value
              subst heq
              exact .inl (Value.eq_of_literal? (hrest v hv) hw hsome hliteral)
            · exact .inr ⟨hv, s, by simp [heq, hs], hsome⟩

/-- The identifiers of records are the values of the field but for null. -/
theorem mem_identifiersOf {kind : Kind} {idField : String} {records : List Record} {v : Value}
    (kinds : ∀ r ∈ records, ∀ v ∈ r.get? idField, v.isOf kind) :
    v ∈ identifiersOf idField records ↔ v ≠ .null ∧ ∃ r ∈ records, r.get? idField = some v := by
  have hkinds : ∀ v ∈ records.filterMap fun r => r.get? idField, v.isOf kind := by
    intro v hv
    obtain ⟨r, hr, hget⟩ := List.mem_filterMap.mp hv
    exact kinds r hr v hget
  rw [identifiersOf, mem_distinctLiterals hkinds]
  constructor
  · rintro ⟨hv, s, _, hs⟩
    refine ⟨?_, List.mem_filterMap.mp hv⟩
    rintro rfl
    cases hs
  · rintro ⟨hnull, r, hr, hget⟩
    have hv : v ∈ records.filterMap fun r => r.get? idField := List.mem_filterMap.mpr ⟨r, hr, hget⟩
    refine ⟨hv, ?_⟩
    cases hliteral : v.literal? with
    | none => exact absurd ((Value.literal?_eq_none (hkinds v hv)).mp hliteral) hnull
    | some s => exact ⟨s, List.not_mem_nil, rfl⟩

end Node

namespace Link

/-- Whether a row is joined to one of the records that the link comes from. -/
def admits (link : Option Link) (row : Record) : Bool :=
  link.all fun l => (row.get? l.joinField).any fun v => v != .null && l.values.contains v

theorem admits_of_values_eq_nil {l : Link} (h : l.values = []) (row : Record) :
    admits (some l) row = false := by
  simp [admits, h]

theorem all_meets_joinConditions {tables : Tables} {table : String} {link : Option Link}
    (h : (link.any fun l => l.values.isEmpty) = false) (row : Record) :
    (Node.joinConditions link).all (tables.meets table row) = admits link row := by
  cases link with
  | none => rfl
  | some l =>
    have hvalues : l.values.isEmpty = false := by simpa using h
    simp [Node.joinConditions, hvalues, Tables.meets, admits]

end Link

namespace Node

/-- The page of a node is valid; below a link there is none. -/
structure Paged (n : Node) (link : Option Link) : Prop where
  valid : ∃ limit offset, n.page limitKey = .ok limit ∧ n.page offsetKey = .ok offset
  unpaged : link.isSome → n.argument? limitKey = none ∧ n.argument? offsetKey = none

theorem rowsFor_of_unpaged {tables : Tables} {n : Node} {joinField : Option String}
    {admits : Record → Bool}
    (h : n.argument? limitKey = none ∧ n.argument? offsetKey = none) :
    tables.rowsFor n joinField admits =
      (tables.rowsWith n.entity.name (n.filters joinField)).filter admits := by
  simp only [Tables.rowsFor, pageNumber?, page_of_argument? h.1, page_of_argument? h.2]
  rfl

/-- A run finds the rows that the link admits, with the selected columns. -/
theorem node_run_of_answers {engine : Engine} {tables : Tables} {catalog : Catalog} {kind : Kind}
    {link : Option Link} {n : Node} (paged : n.Paged link)
    (answers : engine.Answers tables catalog kind n) (isOf : ∀ l ∈ link, l.IsOf catalog kind)
    (received : List Select) (hasChildren : Bool) :
    (n.run engine received link hasChildren).node =
      n.answered ((tables.rowsFor n (link.map (·.joinField)) (Link.admits link)).map
        (Record.project (n.selectFields hasChildren (link.map (·.joinField))))) := by
  obtain ⟨limit, offset, hlimit, hoffset⟩ := paged.valid
  have compiled : n.compile hasChildren link = .ok
      ⟨⟨n.selectFields hasChildren (link.map (·.joinField)), n.entity.name,
        joinConditions link ++ n.filters (link.map (·.joinField)), limit, offset⟩,
        link.any fun l => l.values.isEmpty⟩ := by
    simp only [compile, hlimit, hoffset, filters]
  cases skipped : link.any fun l => l.values.isEmpty with
  | true =>
    -- without identifiers nothing is sent, and no row is admitted
    obtain ⟨l, rfl, hl⟩ : ∃ l, link = some l ∧ l.values = [] := by
      simpa [Option.any_eq_true] using skipped
    have empty : tables.rowsFor n (some l.joinField) (Link.admits (some l)) = [] := by
      rw [rowsFor_of_unpaged (paged.unpaged rfl), List.filter_eq_nil_iff]
      intro row _
      simp [Link.admits_of_values_eq_nil hl]
    simp [run, compileIn_of_ok compiled, send, hl, empty]
  | false =>
    -- the statement is sent, and its conditions admit just the rows of the link
    have hanswer := answers received hasChildren link _ isOf compiled skipped
    have hrows : tables.answer ⟨n.selectFields hasChildren (link.map (·.joinField)), n.entity.name,
        joinConditions link ++ n.filters (link.map (·.joinField)), limit, offset⟩ =
        (tables.rowsFor n (link.map (·.joinField)) (Link.admits link)).map
          (Record.project (n.selectFields hasChildren (link.map (·.joinField)))) := by
      simp only [Tables.answer, Tables.rowsFor, Tables.rowsWith_append, pageNumber?, hlimit,
        hoffset, Link.all_meets_joinConditions skipped]
      rfl
    simp only [run, compileIn_of_ok compiled, send, skipped, Bool.false_eq_true, ↓reduceIte,
      Engine.ask, hanswer, hrows]

end Node

namespace Tree

/-- A child of a node as a run leaves it. -/
def runChild (engine : Engine) (before : Past) (parent : Node) (c : Tree Node) : Tree Node :=
  (visitChild engine before parent c).map Visit.node

theorem map_node_visits (engine : Engine) (before : Past) (link : Option Link) (n : Node)
    (cs : List (Tree Node)) :
    ((Tree.node n cs).visits engine before link).map Visit.node =
      .node (n.run engine (before []) link (!cs.isEmpty)).node
        (cs.map (runChild engine before (n.run engine (before []) link (!cs.isEmpty)).node)) := by
  rw [visits_node, map, mapAll_eq_map, List.map_map]
  rfl

/-- A run changes no label but for the records and the identifiers. -/
theorem label_map_visits (engine : Engine) (before : Past) (link : Option Link) (t : Tree Node) :
    ∃ records, ((t.visits engine before link).map Visit.node).label = t.label.answered records := by
  obtain ⟨n, cs⟩ := t
  rw [map_node_visits]
  exact n.node_run engine (before []) link (!cs.isEmpty)

theorem outputKey_runChild (engine : Engine) (before : Past) (parent : Node) (c : Tree Node) :
    (runChild engine before parent c).label.outputKey = c.label.outputKey := by
  obtain ⟨records, h⟩ := label_map_visits engine (before.below c.label.outputKey)
    (parent.linkTo? c.label.name) c
  rw [runChild, visitChild, h, Node.answered]

theorem name_runChild (engine : Engine) (before : Past) (parent : Node) (c : Tree Node) :
    (runChild engine before parent c).label.name = c.label.name := by
  obtain ⟨records, h⟩ := label_map_visits engine (before.below c.label.outputKey)
    (parent.linkTo? c.label.name) c
  rw [runChild, visitChild, h, Node.answered]

/-- The nested objects of a child of a record. -/
def nestedChild (tables : Tables) (parent : Node) (row : Record) (c : Tree Node) : List Json :=
  match parent.entity.joinField? c.label.name with
  | some field => c.nested tables (some field) (row.owns parent.entity.idField field)
  | none => []

theorem nestedBelow_eq_map (tables : Tables) (parent : Node) (row : Record)
    (cs : List (Tree Node)) :
    nestedBelow tables parent row cs =
      cs.map fun c => (c.label.outputKey, .arr (nestedChild tables parent row c)) := by
  induction cs with
  | nil => rfl
  | cons c cs ih =>
    rw [nestedBelow, List.map_cons, ih, nestedChild]

def columns (t : Tree Node) (joinField : Option String) : List String :=
  t.label.selectFields (!t.children.isEmpty) joinField

/-- A run of `t`, of which `t'` is the result, found the rows that are admitted, and the object of
each is the nested one. -/
structure Batched (tables : Tables) (joinField : Option String) (admits : Record → Bool)
    (t t' : Tree Node) : Prop where
  records : t'.label.records =
    (tables.rowsFor t.label joinField admits).map (Record.project (t.columns joinField))
  objects : ∀ row ∈ tables.rowsFor t.label joinField admits,
    t'.assemble (row.project (t.columns joinField)) =
      t.label.fieldMembers row ++ nestedBelow tables t.label row t.children

theorem Batched.map_assemble {tables : Tables} {joinField : Option String}
    {admits : Record → Bool} {t t' : Tree Node} (h : Batched tables joinField admits t t') :
    t'.label.records.map (fun r => Json.obj (t'.assemble r)) =
      t.nested tables joinField admits := by
  obtain ⟨n, cs⟩ := t
  rw [h.records, List.map_map, nested]
  exact List.map_congr_left fun row hrow => congrArg Json.obj (h.objects row hrow)

end Tree

/-! ### Joining in batches and one by one -/

theorem Tables.mem_rows_of_mem_rowsFor {tables : Tables} {n : Node} {joinField : Option String}
    {admits : Record → Bool} {row : Record} (h : row ∈ tables.rowsFor n joinField admits) :
    row ∈ tables.rows n.entity.name := by
  have hpage : row ∈ (tables.rowsWith n.entity.name (n.filters joinField)).filter admits :=
    Store.mem_of_mem_page h
  exact List.mem_of_mem_filter (List.mem_of_mem_filter hpage)

/-- Of the rows joined to one of many identifiers, those with the key of one of them are the rows
joined to that one. -/
theorem Tables.filter_key?_rowsFor {tables : Tables} {kind : Kind} {n : Node}
    {idField field key : String} {ids : List Value} (row : Record) {v : Value}
    (unpaged : n.argument? Node.limitKey = none ∧ n.argument? Node.offsetKey = none)
    (joins : ∀ r ∈ tables.rows n.entity.name, ∀ w ∈ r.get? field, w.isOf kind)
    (hkind : v.isOf kind) (hget : row.get? idField = some v) (hkey : v.key? = some key)
    (hmem : v ∈ ids) :
    ((tables.rowsFor n (some field) (Link.admits (some ⟨field, ids⟩))).filter fun r =>
        r.key? field == some key) = tables.rowsFor n (some field) (row.owns idField field) := by
  rw [Node.rowsFor_of_unpaged unpaged, Node.rowsFor_of_unpaged unpaged, List.filter_filter]
  have hnull : v ≠ .null := by
    rintro rfl
    cases hkey
  have hvalues : v ∈ (Link.mk field ids).values := by
    rw [Link.values, List.mem_filter]
    refine ⟨hmem, ?_⟩
    rw [Option.isSome_iff_ne_none, ne_eq, Value.literal?_eq_none hkind]
    exact hnull
  -- for one row both tests compare its join field with `v`, one by keys and one by values
  refine List.filter_congr fun r hr => ?_
  rw [Record.owns, hget, Option.any_some, Link.admits, Option.all_some, Record.key?]
  cases hjoin : r.get? field with
  | none => simp
  | some w =>
    have hw : w.isOf kind := joins r (List.mem_of_mem_filter hr) w hjoin
    by_cases heq : w = v
    · subst heq
      simp [hkey, hvalues]
    · have hkeys : (w.key? == some key) = false :=
        beq_eq_false_iff_ne.mpr fun h => heq (Value.eq_of_key? hw hkind h hkey)
      have hvalue : (some w == some v) = false := by simpa using heq
      rw [Option.bind_some, hkeys, hvalue, Bool.false_and, Bool.and_false]

namespace Tree

variable {tables : Tables} {catalog : Catalog} {kind : Kind}

theorem nested_eq_nil {joinField : Option String} {admits : Record → Bool} {c : Tree Node}
    (unpaged : c.label.argument? Node.limitKey = none ∧ c.label.argument? Node.offsetKey = none)
    (h : ∀ r, admits r = false) : c.nested tables joinField admits = [] := by
  obtain ⟨n, cs⟩ := c
  have hrows : tables.rowsFor n joinField admits = [] := by
    rw [label_node] at unpaged
    rw [Node.rowsFor_of_unpaged unpaged, List.filter_eq_nil_iff]
    simp [h]
  rw [nested, hrows, List.map_nil]

/-- The records of a child that was run in a batch which are put under one record are those that
are joined to it. -/
theorem map_matching_of_batched {parent : Node} {ids : List Value} {columns : List String}
    {row : Record} {field : String} {c c' : Tree Node}
    (unpaged : c.label.argument? Node.limitKey = none ∧ c.label.argument? Node.offsetKey = none)
    (related : parent.entity.joinField? c.label.name = some field)
    (name : c'.label.name = c.label.name)
    (idField : parent.entity.idField ∈ columns)
    (hkind : ∀ v ∈ row.get? parent.entity.idField, v.isOf kind)
    (joins : ∀ r ∈ tables.rows c.label.entity.name, ∀ w ∈ r.get? field, w.isOf kind)
    (hmem : ∀ v ∈ row.get? parent.entity.idField, v ≠ .null → v ∈ ids)
    (batched : Batched tables (some field) (Link.admits (some ⟨field, ids⟩)) c c') :
    ((parent.matching (row.project columns) c'.label).map fun r => Json.obj (c'.assemble r)) =
      c.nested tables (some field) (row.owns parent.entity.idField field) := by
  rw [Node.matching, Record.key?, Record.get?_project idField, name, related]
  cases hget : row.get? parent.entity.idField with
  | none =>
    rw [nested_eq_nil unpaged fun r => by simp [Record.owns, hget]]
    rfl
  | some v =>
    cases hkey : v.key? with
    | none =>
      -- a null identifier joins nothing
      have hnull : v = .null := (Value.key?_eq_none (hkind v hget)).mp hkey
      subst hnull
      rw [nested_eq_nil unpaged fun r => by simp [Record.owns, hget]]
      rfl
    | some key =>
      have hnull : v ≠ .null := by
        rintro rfl
        cases hkey
      -- the join field was selected, so the key that is compared is that of the whole row
      have hjoin : field ∈ c.columns (some field) :=
        Node.mem_selectFields_of_mem (c.label.joinField_mem_joinedFields field)
      have hproject :
          (fun r : Record => (r.project (c.columns (some field))).key? field == some key) =
            fun r => r.key? field == some key := by
        funext r
        rw [Record.key?, Record.get?_project hjoin, ← Record.key?]
      have hrows := Tables.filter_key?_rowsFor row unpaged joins (hkind v hget) hget hkey
        (hmem v hget hnull)
      obtain ⟨n, cs⟩ := c
      simp only [Option.bind_some, hkey]
      rw [batched.records, List.filter_map, Function.comp_def, hproject, hrows, List.map_map,
        nested]
      refine List.map_congr_left fun r hr => congrArg Json.obj (batched.objects r ?_)
      exact List.mem_of_mem_filter (hrows ▸ hr)

/-- What a node and its children have to meet for batches to give the nested data. -/
structure Batchable (engine : Engine) (tables : Tables) (catalog : Catalog) (kind : Kind)
    (n : Node) (cs : Forest) : Prop where
  resolved : Forest.ResolvedAt catalog n cs
  apart : ∀ c ∈ cs, c.label.outputKey ∉ n.outputFields
  unpaged : ∀ c ∈ cs, c.label.argument? Node.limitKey = none ∧
    c.label.argument? Node.offsetKey = none
  answers : engine.Answers tables catalog kind n

theorem Batchable.nodup {engine : Engine} {n : Node} {cs : Forest} (row : Record)
    {members : List (String × Json)}
    (h : Batchable engine tables catalog kind n cs)
    (keys : members.map Prod.fst = cs.map fun c => c.label.outputKey) :
    ((n.fieldMembers row ++ members).map Prod.fst).Nodup := by
  have hfields : (n.fieldMembers row).map Prod.fst = n.outputFields := by
    simp [Node.fieldMembers, Function.comp_def]
  rw [List.map_append, hfields, keys, List.nodup_append]
  refine ⟨n.nodup_outputFields, h.resolved.distinct, ?_⟩
  rintro field hfield key hkey rfl
  obtain ⟨c, hc, rfl⟩ := List.mem_map.mp hkey
  exact h.apart c hc hfield

section Child

variable {n : Node} {rows : List Record} (columns : List String)

theorem identifiers_isOf (keyed : tables.Keyed catalog kind) (hentity : n.entity ∈ catalog.toList)
    (hrows : ∀ row ∈ rows, row ∈ tables.rows n.entity.name) :
    ∀ r ∈ rows.map (Record.project columns), ∀ v ∈ r.get? n.entity.idField, v.isOf kind := by
  intro r hr v hv
  obtain ⟨row, hrow, rfl⟩ := List.mem_map.mp hr
  exact keyed.identifiers n.entity hentity row (hrows row hrow) v (Record.get?_of_get?_project hv)

theorem link_isOf (keyed : tables.Keyed catalog kind) (hentity : n.entity ∈ catalog.toList)
    (hrows : ∀ row ∈ rows, row ∈ tables.rows n.entity.name) {name field : String}
    (related : n.entity.joinField? name = some field) :
    Link.IsOf catalog kind
      ⟨field, (n.answered (rows.map (Record.project columns))).identifiers⟩ where
  joinField := by
    obtain ⟨r, hr, rfl⟩ := Option.map_eq_some_iff.mp related
    exact ⟨n.entity, hentity, r, Relationship.mem_of_find? hr, rfl⟩
  identifiers v hv := by
    have hkinds := identifiers_isOf columns keyed hentity hrows
    obtain ⟨_, r, hr, hget⟩ := (Node.mem_identifiersOf hkinds).mp hv
    exact hkinds r hr v hget

theorem joins_isOf (keyed : tables.Keyed catalog kind) (hentity : n.entity ∈ catalog.toList)
    {m : Node} (under : m.Under catalog (some n.entity)) {field : String}
    (related : n.entity.joinField? m.name = some field) :
    ∀ r ∈ tables.rows m.entity.name, ∀ w ∈ r.get? field, w.isOf kind := by
  cases under with
  | child found described =>
    rw [Entity.joinField?, found, Option.map_some, Option.some.injEq] at related
    subst related
    rw [Catalog.name_of_describe described]
    exact keyed.joins n.entity hentity _ (Relationship.mem_of_find? found)

/-- The member of a child that was run below a node. -/
theorem childMember_runChild {engine : Engine} {before : Past} {cs : Forest} {c : Tree Node}
    (keyed : tables.Keyed catalog kind) (here : Batchable engine tables catalog kind n cs)
    (hentity : n.entity ∈ catalog.toList) (hrows : ∀ row ∈ rows, row ∈ tables.rows n.entity.name)
    (hidField : n.entity.idField ∈ columns) (hc : c ∈ cs)
    (batched : ∀ before (link : Option Link), c.label.Paged link →
      (∀ l ∈ link, l.IsOf catalog kind) →
      Batched tables (link.map (·.joinField)) (Link.admits link) c
        ((c.visits engine before link).map Visit.node))
    {row : Record} (hrow : row ∈ rows) :
    childMember (n.answered (rows.map (Record.project columns))) (row.project columns)
        (runChild engine before (n.answered (rows.map (Record.project columns))) c) =
      (c.label.outputKey, .arr (nestedChild tables n row c)) := by
  have hkinds := identifiers_isOf columns keyed hentity hrows
  have hname := name_runChild engine before (n.answered (rows.map (Record.project columns))) c
  have unpaged := here.unpaged c hc
  obtain ⟨field, related⟩ := (here.resolved.children c hc).exists_joinField
  have hrun : runChild engine before (n.answered (rows.map (Record.project columns))) c =
      (c.visits engine (before.below c.label.outputKey)
        (some ⟨field, (n.answered (rows.map (Record.project columns))).identifiers⟩)).map
          Visit.node := by
    rw [runChild, visitChild, Node.linkTo?]
    simp only [Node.answered, related, Option.map_some]
  have hlink := link_isOf columns keyed hentity hrows related
  have hbatched := batched (before.below c.label.outputKey) (some _)
    ⟨⟨none, none, Node.page_of_argument? unpaged.1, Node.page_of_argument? unpaged.2⟩,
      fun _ => unpaged⟩
    (fun l hl => Option.mem_some.mp hl ▸ hlink)
  rw [childMember, outputKey_runChild, nestedChild, related]
  -- the batch was asked for with the identifiers of all rows, this one among them
  rw [hrun] at hname ⊢
  congr 2
  refine map_matching_of_batched unpaged related hname hidField
    (keyed.identifiers n.entity hentity row (hrows row hrow))
    (joins_isOf keyed hentity (here.resolved.children c hc) related) ?_ hbatched
  intro v hv hnull
  refine (Node.mem_identifiersOf hkinds).mpr ⟨hnull, row.project columns, ?_, ?_⟩
  · exact List.mem_map_of_mem hrow
  · rw [← hv]
    exact Record.get?_project hidField row

end Child

/-- A run finds in one batch what is nested. The induction is on the tree; every child is run with
the identifiers of all rows of its parent. -/
theorem batched_run {engine : Engine} (keyed : tables.Keyed catalog kind) (t : Tree Node)
    (batchable : t.Everywhere (Batchable engine tables catalog kind))
    (described : catalog.describe t.label.entity.name = some t.label.entity) :
    ∀ before (link : Option Link), t.label.Paged link → (∀ l ∈ link, l.IsOf catalog kind) →
      Batched tables (link.map (·.joinField)) (Link.admits link) t
        ((t.visits engine before link).map Visit.node) := by
  induction t using Tree.induction with
  | node n cs ih =>
    intro before link paged isOf
    rw [label_node] at described paged
    have here := batchable.here
    have hentity : n.entity ∈ catalog.toList := Ordered.mem_of_find?_eq_some described
    -- what the statement of the node itself found
    have hfound := Node.node_run_of_answers paged here.answers isOf (before []) (!cs.isEmpty)
    have hselected : ∀ field ∈ n.outputFields,
        field ∈ n.selectFields (!cs.isEmpty) (link.map (·.joinField)) := fun field hfield =>
      Node.mem_selectFields_of_mem (Node.mem_joinedFields_of_mem hfield)
    have hidField : ∀ c ∈ cs,
        n.entity.idField ∈ n.selectFields (!cs.isEmpty) (link.map (·.joinField)) := by
      intro c hc
      have hne : (!cs.isEmpty) = true := by
        cases cs with
        | nil => cases hc
        | cons => rfl
      rw [hne]
      exact Node.idField_mem_selectFields n _
    have hrows : ∀ row ∈ tables.rowsFor n (link.map (·.joinField)) (Link.admits link),
        row ∈ tables.rows n.entity.name := fun row => Tables.mem_rows_of_mem_rowsFor
    rw [map_node_visits, hfound]
    constructor
    case records => rfl
    intro row hrow
    simp only [columns, label_node, children_node] at hrow ⊢
    -- from here on it does not matter which columns and rows these are
    generalize n.selectFields (!cs.isEmpty) (link.map (·.joinField)) = columns at *
    generalize tables.rowsFor n (link.map (·.joinField)) (Link.admits link) = rows at *
    have hfields : (n.answered (rows.map (Record.project columns))).fieldMembers
        (row.project columns) = n.fieldMembers row := by
      refine List.map_congr_left fun field hfield => ?_
      rw [Record.json, Record.get?_project (hselected field hfield), ← Record.json]
    have hchildren : (cs.map (runChild engine before
        (n.answered (rows.map (Record.project columns))))).map
        (childMember (n.answered (rows.map (Record.project columns))) (row.project columns)) =
        cs.map fun c => (c.label.outputKey, .arr (nestedChild tables n row c)) := by
      rw [List.map_map]
      refine List.map_congr_left fun c hc => ?_
      have described := (here.resolved.children c hc).described catalog.named
      exact childMember_runChild columns keyed here hentity hrows (hidField c hc) hc
        (ih c hc (batchable.inside c hc) described) hrow
    rw [assemble, hfields, nestedBelow_eq_map, assembleBelow_of_nodup, hchildren]
    rw [hchildren]
    exact here.nodup row (by simp [Function.comp_def])

end Tree

namespace Forest

/--
Running a forest in batches and putting the records together gives the nested data, whatever the
engine answers its statements from, as long as that are tables whose identifiers are told apart by
their keys. Only roots may ask for a page, and no child has the output key of a field beside it.
-/
theorem assemble_run_eq_nested {catalog : Catalog} {tables : Tables} {engine : Engine} {kind : Kind}
    {forest : Forest} (read : forest.IsRead catalog)
    (valid : ∀ t ∈ forest, ∃ limit offset,
      t.label.page Node.limitKey = .ok limit ∧ t.label.page Node.offsetKey = .ok offset)
    (unpaged : ∀ t ∈ forest, t.Everywhere fun _ cs => ∀ c ∈ cs,
      c.label.argument? Node.limitKey = none ∧ c.label.argument? Node.offsetKey = none)
    (apart : ∀ t ∈ forest, t.Everywhere fun n cs => ∀ c ∈ cs,
      c.label.outputKey ∉ n.outputFields)
    (keyed : tables.Keyed catalog kind)
    (answers : ∀ t ∈ forest, t.Everywhere fun n _ => engine.Answers tables catalog kind n) :
    (Forest.run engine forest).1.assemble = forest.nested tables := by
  have resolved := read.resolved
  obtain ⟨before, hrun, -⟩ := exists_visits read engine
  have htree : ∀ t ∈ forest, ∀ before : Past,
      ((t.visits engine before none).map Visit.node).assembleAll =
        .arr (t.nested tables none fun _ => true) := by
    intro t ht before
    -- the conditions on the forest are collected at every node
    have batchable : t.Everywhere (Tree.Batchable engine tables catalog kind) :=
      (((resolved.everywhere t ht).and (apart t ht)).and ((unpaged t ht).and (answers t ht))).mono
        fun _ _ ⟨⟨resolved, apart⟩, unpaged, answers⟩ => ⟨resolved, apart, unpaged, answers⟩
    have described := (resolved.under t ht).described catalog.named
    have hbatched := Tree.batched_run keyed t batchable described before none
      ⟨valid t ht, fun h => nomatch h⟩ (fun _ hl => nomatch hl)
    rw [Tree.assembleAll, hbatched.map_assemble]
    rfl
  have hmembers : ((Forest.run engine forest).1.map fun t => (t.label.outputKey, t.assembleAll)) =
      forest.nested tables := by
    rw [hrun, Tree.outcome, visits, List.map_map, List.map_map, Forest.nested]
    refine List.map_congr_left fun t ht => ?_
    obtain ⟨records, hlabel⟩ :=
      t.label_map_visits engine (before.below t.label.outputKey) none
    rw [Function.comp_apply, Function.comp_apply, hlabel, htree t ht]
    rfl
  rw [Forest.assemble, hmembers]
  refine Keyed.ofList_of_nodup ?_
  simpa [Forest.nested, Function.comp_def] using resolved.distinct

end Forest

/-! ### Accounts and their contacts -/

namespace AccountStore

def contact : Entity := ⟨"Contact", .ofList ["Id", "LastName", "AccountId"], "Id", []⟩

def account : Entity :=
  ⟨"Account", .ofList ["Id", "Name"], "Id", [⟨"Contacts", contact.name, "AccountId"⟩]⟩

def catalog : Catalog := .ofList [account, contact]

/-- Two accounts share an identifier, and one has none. -/
def tables : Tables where
  rows
    | "Account" => [
      .ofList [("Id", .int 1), ("Name", .text "Acme")],
      .ofList [("Id", .null), ("Name", .text "Nobody")],
      .ofList [("Id", .int 1), ("Name", .text "Acme again")]]
    | "Contact" => [
      .ofList [("Id", .int 7), ("LastName", .text "Smith"), ("AccountId", .int 1)],
      .ofList [("Id", .int 8), ("LastName", .text "Jones"), ("AccountId", .int 2)],
      .ofList [("Id", .int 9), ("LastName", .text "Brown"), ("AccountId", .null)]]
    | _ => []
  equalsText _ _ v content := v == .text content

/-- The tokens of `Account(limit:3) { Name Contacts { LastName } }` and of the brace behind it. -/
def tokens : List Token :=
  [.word "Account(limit:3)".toList, .opening, .word "Name".toList, .word "Contacts".toList,
    .opening, .word "LastName".toList, .closing, .closing, .closing]

def contacts : Node := { Node.asked "Contacts" "Contacts" contact .empty with
  requested := ["LastName"] }

def accounts : Node := { Node.asked "Account" "Account" account (.ofList [("limit", some "3")]) with
  requested := ["Name"] }

def forest : Forest := [.node accounts [.node contacts []]]

/-- A property of the two nodes holds everywhere in the forest. -/
theorem everywhere {P : Node → Forest → Prop} (haccounts : P accounts [.node contacts []])
    (hcontacts : P contacts []) : ∀ t ∈ forest, t.Everywhere P := by
  intro t ht
  rw [List.mem_singleton.mp ht]
  refine .node haccounts fun c hc => ?_
  rw [List.mem_singleton.mp hc]
  exact .node hcontacts fun _ h => nomatch h

theorem keyed : tables.Keyed catalog .int := by
  constructor
  · decide +kernel
  · decide +kernel

end AccountStore

open AccountStore in
/-- An account without an identifier has no contacts, and two with one identifier have the same. -/
theorem Forest.assemble_run_accounts :
    (Forest.run (fun _ s => .ok (tables.answer s)) forest).1.assemble =
      [("Account", .arr [
        .obj [("Name", .str "Acme"), ("Contacts", .arr [.obj [("LastName", .str "Smith")]])],
        .obj [("Name", .str "Nobody"), ("Contacts", .arr [])],
        .obj [("Name", .str "Acme again"),
          ("Contacts", .arr [.obj [("LastName", .str "Smith")]])]])] := by
  have hnested : (Forest.run (fun _ s => .ok (tables.answer s)) forest).1.assemble =
      forest.nested tables := by
    refine Forest.assemble_run_eq_nested ⟨32, tokens, [], by decide +kernel⟩ ?_ ?_ ?_ keyed ?_
    · intro t ht
      rw [List.mem_singleton.mp ht]
      exact ⟨some 3, none, by decide +kernel, by decide +kernel⟩
    · exact everywhere (by simp; decide +kernel) (by simp)
    · exact everywhere (by simp; decide +kernel) (by simp)
    · exact everywhere (fun _ _ _ _ _ _ _ => rfl) (fun _ _ _ _ _ _ _ => rfl)
  rw [hnested]
  with_unfolding_all rfl

end NestedQuery
