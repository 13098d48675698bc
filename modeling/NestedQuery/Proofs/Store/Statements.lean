import NestedQuery.Proofs.Request.Visits
import NestedQuery.Proofs.Store.Declared

/-!
# Statements on the tables of a database

Every node of a forest over the catalog of a database belongs to a listed table, and below another
node it is joined by a column of its own table (`Placed`). So its statement is on the columns of the
table, but that a table without a primary key may be asked for the identifier of the catalog
(`Asks`).

What holds of every visit of a placed node holds everywhere in a run (`everywhere_visits`).
-/

namespace NestedQuery.Store

/-- The statement is on the columns of a table. A table without a primary key may be asked for
`idField` as well. -/
structure Asks (t : Table) (idField : String) (s : Select) : Prop where
  table : s.table = t.name
  nonempty : s.columns ≠ []
  nodup : s.columns.Nodup
  columns : ∀ name ∈ s.columns,
    name ∈ t.columns.map Column.name ∨ (t.primaryKey = [] ∧ name = idField)
  conditions : ∀ c ∈ s.conditions, c.column ∈ t.columns.map Column.name
  -- a join has identifiers
  literals : ∀ column values, .isIn column values ∈ s.conditions → Condition.literals values ≠ []

/-- The node is one of a listed table, and it is joined by one of its columns. -/
structure Placed (db : Database) (idField : String) (t : Table) (n : Node) (link : Option Link) :
    Prop where
  listed : t ∈ db.listed
  entity : n.entity = db.entity idField t
  joinField : ∀ l ∈ link, l.joinField ∈ t.columns.map Column.name

variable {db : Database} {idField : String} {t : Table} {n : Node} {link : Option Link}

theorem mem_fields_entity {name : String} (h : name ∈ (db.entity idField t).fields.toList) :
    name ∈ t.columns.map Column.name := Ordered.mem_of_mem_ofList h

/-- What is put out, and what records are joined by, are columns. -/
theorem Placed.mem_joinedFields (h : Placed db idField t n link) :
    ∀ name ∈ n.joinedFields (link.map (·.joinField)), name ∈ t.columns.map Column.name := by
  intro name hname
  rcases Node.mem_of_mem_joinedFields hname with hname | hname
  · rw [h.entity] at hname
    exact mem_fields_entity hname
  · obtain ⟨l, hl, rfl⟩ := Option.map_eq_some_iff.mp hname
    exact h.joinField l hl

theorem Placed.mem_columns_joinConditions (h : Placed db idField t n link) :
    ∀ c ∈ Node.joinConditions link, c.column ∈ t.columns.map Column.name := by
  intro c hc
  cases link with
  | none => cases hc
  | some l =>
    rw [Node.joinConditions] at hc
    split at hc
    · cases hc
    · obtain rfl := List.mem_singleton.mp hc
      exact h.joinField l rfl

/-- What a node compiles to is a statement on the columns of its table. -/
theorem Placed.asks (h : Placed db idField t n link) (hdb : db.Declared) {hasChildren : Bool}
    {compiled : Compiled} (hcompile : n.compile hasChildren link = .ok compiled) :
    Asks t idField compiled.select := by
  have declared := hdb.tables t (Database.mem_of_mem_listed h.listed)
  rw [Node.compile_ok hcompile]
  constructor
  · exact congrArg Entity.name h.entity
  · exact n.selectFields_ne_nil _ _
  · exact n.nodup_selectFields _ _
  · intro name hname
    rcases Node.mem_joinedFields_or_of_mem_selectFields hname with hname | ⟨-, hid⟩
    · exact .inl (h.mem_joinedFields name hname)
    · rw [h.entity] at hid
      by_cases hkey : t.primaryKey = []
      · exact .inr ⟨hkey, hid.trans (Table.idField_of_not_keyed hkey idField)⟩
      · obtain ⟨c, hc, hname⟩ := declared.idField_mem hkey idField
        exact .inl (List.mem_map.mpr ⟨c, hc, hname.trans hid.symm⟩)
  · intro c hc
    rcases List.mem_append.mp hc with hc | hc
    · exact h.mem_columns_joinConditions c hc
    · obtain ⟨name, hname, hcondition⟩ := List.mem_filterMap.mp hc
      rw [Node.column_of_condition? hcondition]
      exact h.mem_joinedFields name hname
  · intro column values hc
    rcases List.mem_append.mp hc with hc | hc
    · exact Node.literals_ne_nil_of_mem_joinConditions hc
    · obtain ⟨name, -, hcondition⟩ := List.mem_filterMap.mp hc
      obtain h | ⟨content, h⟩ := Node.eq_of_condition? hcondition <;> cases h

theorem placed_root (h : n.Under (db.catalog idField) none) :
    ∃ t, Placed db idField t n none := by
  obtain ⟨t, ht, -, hentity⟩ := Database.exists_listed_of_describe (h.described (Catalog.named _))
  exact ⟨t, ht, hentity, fun l hl => nomatch hl⟩

/-- A child is joined to its parent by a column of its own table. -/
theorem Placed.child (h : Placed db idField t n link) (hdb : db.Declared) {m : Node}
    (under : m.Under (db.catalog idField) (some n.entity)) {field : String}
    (hfield : n.entity.joinField? m.name = some field) (identifiers : List Value) :
    ∃ u, Placed db idField u m (some ⟨field, identifiers⟩) := by
  cases under with
  | @child _ _ r related described =>
    rw [Entity.joinField?, related, Option.map_some, Option.some_inj] at hfield
    subst hfield
    have hparent : n.entity ∈ (db.catalog idField).toList :=
      Database.mem_catalog.mpr ⟨t, h.listed, h.entity.symm⟩
    obtain ⟨u, hu, hname, key, hkey, column, hcolumn, hjoin⟩ :=
      Database.describe_of_mem_children hparent (Relationship.mem_of_find? related)
    have hentity := (Database.describe_of_mem_listed hu).symm.trans (hname ▸ described)
    refine ⟨u, hu, (Option.some.inj hentity).symm, ?_⟩
    rintro l ⟨⟩
    have declared := hdb.tables u (Database.mem_of_mem_listed hu)
    obtain ⟨c, hc, hdeclared⟩ :=
      Table.declaredName_mem (declared.foreignKeys key hkey column hcolumn)
    exact List.mem_map.mpr ⟨c, hc, hdeclared.trans hjoin.symm⟩

/-! ### Runs over the catalog of a database -/

section Visits

variable {engine : Engine} {P : Visit → List (Tree Visit) → Prop}

theorem everywhere_visits (hdb : db.Declared)
    (step : ∀ t n cs before link, Placed db idField t n link →
      Forest.ResolvedAt (db.catalog idField) n cs →
      P (n.run engine (before []) link (!cs.isEmpty))
        (cs.map (Tree.visitChild engine before
          (n.run engine (before []) link (!cs.isEmpty)).node)))
    {tree : Tree Node} (before : Past) (placed : ∃ t, Placed db idField t tree.label link)
    (resolved : tree.Everywhere (Forest.ResolvedAt (db.catalog idField))) :
    (tree.visits engine before link).Everywhere P := by
  induction tree using Tree.induction generalizing before link with
  | node n cs ih =>
    obtain ⟨t, placed⟩ := placed
    rw [Tree.visits_node]
    apply Tree.Everywhere.node (step t n cs before link placed resolved.here)
    intro c' hc'
    obtain ⟨c, hc, rfl⟩ := List.mem_map.mp hc'
    obtain ⟨field, hfield, hvisits⟩ :=
      Tree.visitChild_run resolved.here hc engine before (before []) link (!cs.isEmpty)
    rw [hvisits]
    apply ih c hc _ _ (resolved.inside c hc)
    exact placed.child hdb (resolved.here.children c hc) hfield _

theorem everywhere_visits_forest (hdb : db.Declared)
    (step : ∀ t n cs before link, Placed db idField t n link →
      Forest.ResolvedAt (db.catalog idField) n cs →
      P (n.run engine (before []) link (!cs.isEmpty))
        (cs.map (Tree.visitChild engine before
          (n.run engine (before []) link (!cs.isEmpty)).node)))
    {forest : Forest} (read : forest.IsRead (db.catalog idField)) (before : Past) :
    ∀ tree ∈ forest.visits engine before, tree.Everywhere P := by
  intro tree' htree'
  obtain ⟨tree, htree, rfl⟩ := List.mem_map.mp htree'
  apply everywhere_visits hdb step _ _ (read.resolved.everywhere tree htree)
  exact placed_root (read.resolved.under tree htree)

end Visits

end NestedQuery.Store
