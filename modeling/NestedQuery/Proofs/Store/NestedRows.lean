import NestedQuery.Proofs.Request.Documents
import NestedQuery.Proofs.Request.NestedData
import NestedQuery.Proofs.Request.Stitching
import NestedQuery.Proofs.Store.Reading

/-!
# Rows below rows

A foreign key of a child table becomes a relationship of its parent. A query that follows it nests
rows of the child below the rows of the parent. They are asked for with one list of identifiers for
all parents, and told apart by their keys.

## Main result

`Database.nested_rows`: where the foreign key refers to the column that identifies the parent, the
nested rows are those that have the key of their parent and that the list asks for, in the order in
which the database reads them. If the referring and the referred cells are of one kind, these are
the rows that refer to the parent.
-/

namespace NestedQuery

/-- No argument asks for a page, or for some of the records alone. -/
structure Node.Unrestricted (n : Node) (field : String) : Prop where
  limit : n.argument? Node.limitKey = none
  offset : n.argument? Node.offsetKey = none
  filters : n.filters (some field) = []

theorem Node.unrestricted_of_empty {n : Node} (h : n.arguments = .empty) (field : String) :
    n.Unrestricted field := by
  have hnone (key : String) : n.arguments.find? key = none := by
    rw [h]
    rfl
  constructor
  · rw [argument?, Arguments.value?, hnone]
    rfl
  · rw [argument?, Arguments.value?, hnone]
    rfl
  · rw [filters, List.filterMap_eq_nil_iff]
    intro f _
    rw [condition?, hnone]
    split <;> rfl

/-- The columns have the output fields, and the field by which records are joined. -/
structure Node.Selects (n : Node) (columns : List String) (field : String) : Prop where
  field : field ∈ columns
  outputFields : ∀ f ∈ n.outputFields, f ∈ columns

theorem Node.outputFields_selectFields (n : Node) (hasChildren : Bool) (joinField : Option String) :
    ∀ f ∈ n.outputFields, f ∈ n.selectFields hasChildren joinField :=
  fun _ hf => mem_selectFields_of_mem (mem_joinedFields_of_mem hf)

theorem Node.selects_selectFields (n : Node) (hasChildren : Bool) (field : String) :
    n.Selects (n.selectFields hasChildren (some field)) field :=
  ⟨mem_selectFields_of_mem (n.joinField_mem_joinedFields field),
    n.outputFields_selectFields hasChildren _⟩

/-- Whether a field holds the key of the identifier of a record. -/
def Record.pointsTo (field idField : String) (r p : Record) : Bool :=
  (p.key? idField).any fun key => r.key? field == some key

theorem Node.matching_eq {n m : Node} {p : Record} {field : String}
    (h : n.entity.joinField? m.name = some field) :
    n.matching p m = m.records.filter fun r => r.pointsTo field n.entity.idField p := by
  rw [matching, h]
  cases hkey : p.key? n.entity.idField with
  | none => simp [Record.pointsTo, hkey]
  | some key => simp [Record.pointsTo, hkey]

theorem Node.compile_of_unrestricted {n : Node} {field : String} (h : n.Unrestricted field)
    (identifiers : List Value) (hasChildren : Bool) :
    n.compile hasChildren (some ⟨field, identifiers⟩) = .ok
      ⟨⟨n.selectFields hasChildren (some field), n.entity.name,
        joinConditions (some ⟨field, identifiers⟩), none, none⟩,
        (Link.mk field identifiers).values.isEmpty⟩ := by
  have hfilters := h.filters
  rw [Node.filters] at hfilters
  simp only [compile, page_of_argument? h.limit, page_of_argument? h.offset, Option.map_some,
    Option.any_some, hfilters, List.append_nil]

theorem Node.Under.name_entity {catalog : Metadata} (named : catalog.Named) {parent : Entity}
    {m : Node} (h : m.Under catalog (some parent)) {r : Relationship}
    (related : parent.relationship? m.name = some r) : m.entity.name = r.entity := by
  cases h with
  | child found described =>
    rw [found, Option.some_inj] at related
    rw [← related]
    exact named _ _ described

/-- In the object of a record, the child has the objects of some records of its own. -/
def Tree.Lists (t c : Tree Node) (p : Record) (records : List Record) : Prop :=
  Keyed.find? Prod.fst c.label.outputKey (t.assemble p) =
    some (c.label.outputKey, .arr (records.map fun r => .obj (c.assemble r)))

theorem Tree.Shaped.lists {n : Node} {cs : Forest} {c : Tree Node} {p : Record} {field : String}
    (h : Tree.Shaped n cs p ((Tree.node n cs).assemble p)) (hc : c ∈ cs)
    (related : n.entity.joinField? c.label.name = some field) :
    Tree.Lists (.node n cs) c p
      (c.label.records.filter fun r => r.pointsTo field n.entity.idField p) := by
  rw [Tree.Lists, h.child c hc, Tree.childMember, Node.matching_eq related]

namespace Store

section Runs

variable {db : Database} {engine : Engine} {reading : Reading} {idField field : String} {t : Table}
  {n : Node} {link : Option Link} {hasChildren : Bool} {ids : List Value}
  {received all : List Select}

/-! ### What is found -/

/-- The statement that asks for the rows that are joined to some identifiers. -/
def Table.joinStatement (t : Table) (columns : List String) (field : String) (ids : List Value) :
    Select :=
  ⟨columns, t.name, [.isIn field ids], none, none⟩

theorem Reading.found_joinStatement_nil (reading : Reading) (t : Table) (columns : List String)
    (field : String) : reading.found t (t.joinStatement columns field []) = [] := by
  rw [found, List.filter_eq_nil_iff]
  intro row _
  simp [Table.joinStatement, meets, Condition.literals]

/-- Everything that a node asks for is a column, unless it is asked for an identifier that is
none. -/
theorem Placed.mem_columns (h : Placed db idField t n link)
    (identified : hasChildren = true ∨ link = none → t.Identified idField) :
    ∀ name ∈ n.selectFields hasChildren (link.map (·.joinField)),
      name ∈ t.columns.map Column.name := by
  intro name hname
  rcases Node.mem_joinedFields_or_of_mem_selectFields hname with hname | ⟨hasked, rfl⟩
  · exact h.mem_joinedFields name hname
  · rw [h.entity]
    apply identified
    rwa [Option.map_eq_none_iff] at hasked

theorem Placed.over (h : Placed db idField t n link) (hdb : db.Declared) (hplain : db.Plain)
    (identified : hasChildren = true ∨ link = none → t.Identified idField) {compiled : Compiled}
    (hcompile : n.compile hasChildren link = .ok compiled) : compiled.select.Over t := by
  apply (h.asks hdb hcompile).over hplain (Database.mem_of_mem_listed h.listed)
  rw [Node.compile_ok hcompile]
  exact h.mem_columns identified

/-- The records of a node are rows of its table. -/
theorem Placed.exists_row (h : Placed db idField t n link) (hdb : db.Declared) (hplain : db.Plain)
    (answers : db.Answers engine reading all)
    (hsent : (n.run engine received link hasChildren).received <+: all)
    (identified : hasChildren = true ∨ link = none → t.Identified idField) {p : Record}
    (hp : p ∈ (n.run engine received link hasChildren).node.records) :
    ∃ row ∈ t.rows, p = t.project (n.selectFields hasChildren (link.map (·.joinField))) row := by
  obtain ⟨compiled, hcompile, -, hreceived, hanswer⟩ := Node.exists_answer hp
  have ht := Database.mem_of_mem_listed h.listed
  rw [answers.answer t ht _ _ _ (hreceived ▸ hsent) (h.over hdb hplain identified hcompile)
    hanswer] at hp
  obtain ⟨row, hrow, rfl⟩ := List.mem_map.mp hp
  have hmem := List.mem_of_mem_filter (mem_of_mem_page hrow)
  refine ⟨row, (answers.rows t ht _).mem_iff.mp hmem, ?_⟩
  rw [Node.compile_ok hcompile]

/-- A node that is joined to identifiers has found the rows of a table that they ask for. -/
def Joins (reading : Reading) (t : Table) (field : String) (ids : List Value) (n : Node) : Prop :=
  ∃ columns, n.Selects columns field ∧
    n.records = (reading.found t (t.joinStatement columns field ids)).map (t.project columns)

/-- A node without a page and without filters is run to find the rows that it is joined to. -/
theorem Placed.joins_run (h : Placed db idField t n (some ⟨field, ids⟩)) (hdb : db.Declared)
    (hplain : db.Plain) (answers : db.Answers engine reading all)
    (hreceived : (n.run engine received (some ⟨field, ids⟩) hasChildren).received <+: all)
    (identified : hasChildren = true → t.Identified idField)
    (unrestricted : n.Unrestricted field) (hids : (Link.mk field ids).values = ids) :
    Joins reading t field ids (n.run engine received (some ⟨field, ids⟩) hasChildren).node := by
  have ht := Database.mem_of_mem_listed h.listed
  have hcompiled := n.compile_of_unrestricted unrestricted ids hasChildren
  have hover := h.over hdb hplain (fun hasked => identified (hasked.resolve_right
    (Option.some_ne_none _))) hcompiled
  have htable : n.entity.name = t.name := congrArg Entity.name h.entity
  have hselects (records : List Record) :
      (n.answered records).Selects (n.selectFields hasChildren (some field)) field :=
    (n.answered records).selects_selectFields hasChildren field
  simp only [hids, htable] at hcompiled hover
  -- with identifiers there is a condition
  have hstatement : ids.isEmpty = false → Node.joinConditions (some ⟨field, ids⟩) =
      [.isIn field ids] := by
    intro hne
    simp only [Node.joinConditions, hids, hne, Bool.false_eq_true, ↓reduceIte]
  refine ⟨n.selectFields hasChildren (some field), ?_⟩
  obtain ⟨e, hcompile, -⟩ | ⟨compiled, hcompile, hskipped, hrun⟩ |
    ⟨compiled, records, hcompile, hsent, hanswer, hrun⟩ |
    ⟨compiled, message, hcompile, hsent, hrefused, hrun⟩ :=
      n.run_cases engine received (some ⟨field, ids⟩) hasChildren
  · rw [hcompiled] at hcompile
    cases hcompile
  · -- without identifiers no row is joined
    rw [hcompiled] at hcompile
    cases hcompile
    obtain rfl : ids = [] := by simpa using hskipped
    rw [hrun, reading.found_joinStatement_nil]
    exact ⟨hselects _, rfl⟩
  · rw [hcompiled] at hcompile
    cases hcompile
    rw [hrun] at hreceived ⊢
    rw [answers.answer t ht _ _ _ hreceived hover hanswer, hstatement hsent]
    exact ⟨hselects _, rfl⟩
  · rw [hcompiled] at hcompile
    cases hcompile
    rw [hrun] at hreceived
    -- there is no page
    obtain ⟨records, hanswer⟩ := answers.answered t ht _ _ hreceived hover rfl rfl
    rw [hanswer] at hrefused
    cases hrefused

/-- The records of a node are rows of its table. Where there are nodes below it they have their
identifiers. -/
structure HasRows (db : Database) (idField : String) (n : Node) (cs : Forest) (t : Table)
    (columns : List String) : Prop where
  listed : t ∈ db.listed
  entity : n.entity = db.entity idField t
  identifiers : n.identifiers = Node.identifiersOf n.entity.idField n.records
  selects : cs ≠ [] → n.Selects columns n.entity.idField
  rows : t.Identified idField → ∀ p ∈ n.records, ∃ row ∈ t.rows, p = t.project columns row

theorem Placed.hasRows_run (h : Placed db idField t n link) (hdb : db.Declared) (hplain : db.Plain)
    (answers : db.Answers engine reading all) {cs cs' : Forest}
    (hsent : (n.run engine received link (!cs.isEmpty)).received <+: all)
    (hcs : cs' ≠ [] → cs ≠ []) :
    HasRows db idField (n.run engine received link (!cs.isEmpty)).node cs' t
      (n.selectFields (!cs.isEmpty) (link.map (·.joinField))) := by
  obtain ⟨records, hrun⟩ := n.node_run engine received link (!cs.isEmpty)
  constructor
  · exact h.listed
  · rw [n.entity_run]
    exact h.entity
  · rw [hrun]
    rfl
  · intro hne
    have hchildren : (!cs.isEmpty) = true := by simpa using hcs hne
    rw [hrun, hchildren]
    exact ⟨n.idField_mem_selectFields _, n.outputFields_selectFields _ _⟩
  · exact fun identified p hp => h.exists_row hdb hplain answers hsent (fun _ => identified) hp

/-- A node below another one found the rows that are joined to its identifiers. -/
def JoinsBelow (db : Database) (reading : Reading) (idField : String) (n : Node) (c : Tree Node) :
    Prop :=
  ∀ r, n.entity.relationship? c.label.name = some r → c.label.Unrestricted r.joinField →
    ∃ u ∈ db.listed, u.name = r.entity ∧
      ((c.children ≠ [] → u.Identified idField) →
        Joins reading u r.joinField n.identifiers c.label)

theorem Placed.joinsBelow_run (h : Placed db idField t n link) (hdb : db.Declared)
    (hplain : db.Plain) (answers : db.Answers engine reading all) {cs : Forest}
    (resolved : Forest.ResolvedAt (db.catalog idField) n cs) {c : Tree Node} (hc : c ∈ cs)
    (before : Past)
    (hsent : (Tree.visitChild engine before
      (n.run engine received link hasChildren).node c).label.received <+: all) :
    JoinsBelow db reading idField (n.run engine received link hasChildren).node
      ((Tree.visitChild engine before (n.run engine received link hasChildren).node c).map
        Visit.node) := by
  obtain ⟨m, ms⟩ := c
  obtain ⟨field, hfield, hvisits⟩ :=
    Tree.visitChild_run resolved hc engine before received link hasChildren
  have under := resolved.children _ hc
  rw [Tree.label_node] at hfield under hvisits
  obtain ⟨u, placed⟩ :=
    h.child hdb under hfield (n.run engine received link hasChildren).node.identifiers
  rw [hvisits, Tree.visits_node] at hsent ⊢
  rw [Tree.label_node] at hsent
  rw [Tree.map, Tree.mapAll_eq_map, JoinsBelow, Tree.label_node, Tree.children_node]
  intro r hr unrestricted
  -- a run changes nothing of what decides which rows are asked for
  obtain ⟨records, hrun⟩ := m.node_run engine (before.below m.outputKey [])
    (some ⟨field, (n.run engine received link hasChildren).node.identifiers⟩) (!ms.isEmpty)
  have hrelated : n.entity.relationship? m.name = some r := by
    rw [n.entity_run, hrun] at hr
    exact hr
  obtain rfl : r.joinField = field := by
    rw [Entity.joinField?, hrelated, Option.map_some, Option.some_inj] at hfield
    exact hfield
  have hm : m.Unrestricted r.joinField := by
    rw [hrun] at unrestricted
    exact ⟨unrestricted.limit, unrestricted.offset, unrestricted.filters⟩
  refine ⟨u, placed.listed, ?_, ?_⟩
  · rw [← under.name_entity (Catalog.named _) hrelated, placed.entity]
    rfl
  · intro identified
    apply placed.joins_run hdb hplain answers hsent _ hm (n.values_identifiers_run _ _ _ _ _)
    intro hchildren
    apply identified
    simpa using hchildren

/-- Behind a run over the catalog of a database every node has rows of its table, and below it are
the rows that are joined to these. -/
theorem fetched_run (hdb : db.Declared) (hplain : db.Plain) {forest : Forest}
    (answers : db.Answers engine reading (forest.received engine))
    (read : forest.IsRead (db.catalog idField)) :
    ∀ t ∈ (Forest.run engine forest).1, t.Everywhere fun n cs =>
      (∃ t columns, HasRows db idField n cs t columns) ∧
      ∀ c ∈ cs, JoinsBelow db reading idField n c := by
  obtain ⟨before, hrun, hreceived⟩ := Forest.exists_visits read engine
  have hvisits : ∀ tree ∈ forest.visits engine before, tree.Everywhere fun v cs =>
      v.received <+: forest.received engine →
      (∃ t columns, HasRows db idField v.node (cs.map (Tree.map Visit.node)) t columns) ∧
      ∀ c ∈ cs, c.label.received <+: forest.received engine →
        JoinsBelow db reading idField v.node (c.map Visit.node) := by
    apply everywhere_visits_forest hdb _ read
    intro t n cs before link placed resolved hsent
    constructor
    · refine ⟨t, _, placed.hasRows_run hdb hplain answers hsent ?_⟩
      simp
    · rw [List.forall_mem_map]
      intro c hc
      exact placed.joinsBelow_run hdb hplain answers resolved hc before
  intro t' ht'
  rw [hrun] at ht'
  obtain ⟨t, ht, rfl⟩ := List.mem_map.mp ht'
  apply Tree.Everywhere.map
  refine (((hvisits t ht).and (hreceived t ht)).and (hreceived t ht).labels).mono ?_
  rintro v cs ⟨⟨hfetched, hsent⟩, hsentBelow⟩
  obtain ⟨hrows, hjoins⟩ := hfetched hsent
  exact ⟨hrows, List.forall_mem_map.mpr fun c hc => hjoins c hc (hsentBelow c hc)⟩

/-! ### Rows that refer to rows -/

/-- The column of the parent that a key of one column refers to. -/
def ForeignKey.target? (key : ForeignKey) (parent : Table) : Option String :=
  match key.targets, parent.primaryKey with
  | [target], _ => some target
  | [], [target] => some target
  | _, _ => none

/-- The node `m` below `n` is asked for by the relationship that a foreign key of one column
became. -/
structure Follows (db : Database) (n m : Node) (parent child : Table) (key : ForeignKey)
    (column target : String) : Prop where
  parent_listed : parent ∈ db.listed
  child_listed : child ∈ db.listed
  entity : n.entity.name = parent.name
  mem_foreignKeys : key ∈ child.foreignKeys
  columns : key.columns = [column]
  refers : key.parent = parent.name
  target? : key.target? parent = some target
  target_mem : ∃ c ∈ parent.columns, sameName c.name target = true
  related : n.entity.relationship? m.name = some
    (Reference.relationship db.references ⟨parent.name, child.name, child.declaredName column⟩)

/-- A key that names no column refers to the one that identifies the rows. -/
theorem idField_of_target? {key : ForeignKey} {parent : Table} {target : String}
    (h : key.target? parent = some target) (hkey : key.targets = []) (idField : String) :
    parent.declaredName target = parent.idField idField := by
  unfold ForeignKey.target? at h
  rw [hkey] at h
  split at h
  · next htarget => cases htarget
  · next hprimary =>
    cases h
    rw [Table.idField, hprimary]
    rfl
  · cases h

section Rows

variable {cs : Forest} {parent child : Table} {key : ForeignKey} {target column : String}
  {kind : Kind} {parentColumns columns : List String} {row r : List Cell} {m : Node}

theorem Follows.column_mem (h : Follows db n m parent child key column target)
    (hdb : db.Declared) : ∃ c ∈ child.columns, sameName c.name column = true := by
  have declared := hdb.tables child (Database.mem_of_mem_listed h.child_listed)
  apply declared.foreignKeys key h.mem_foreignKeys column
  rw [h.columns]
  exact List.mem_cons_self

theorem Follows.identified (h : Follows db n m parent child key column target)
    (identifies : parent.declaredName target = parent.idField idField) :
    parent.Identified idField := by
  obtain ⟨c, hc, hname⟩ := Table.declaredName_mem h.target_mem
  exact List.mem_map.mpr ⟨c, hc, hname.trans identifies⟩

/-- A record of the parent has the cell that is referred to as its identifier. -/
theorem HasRows.get?_idField (has : HasRows db idField n cs parent parentColumns)
    (hdb : db.Declared) (hcs : cs ≠ [])
    (hcolumn : ∃ c ∈ parent.columns, sameName c.name target = true)
    (identifies : parent.declaredName target = parent.idField idField) (row : List Cell) :
    (parent.project parentColumns row).get? n.entity.idField =
      some (parent.cellIn target row).toValue := by
  have hdeclared := hdb.tables parent (Database.mem_of_mem_listed has.listed)
  have hid : n.entity.idField = parent.declaredName target := by
    rw [has.entity, identifies]
    rfl
  rw [Table.get?_project (has.selects hcs).field, hid, hdeclared.cellIn_declaredName hcolumn]

/-- What is matched is the key of the referring cell with the key of the cell referred to. -/
theorem HasRows.pointsTo (has : HasRows db idField n cs parent parentColumns) (hdb : db.Declared)
    (hcs : cs ≠ []) (follows : Follows db n m parent child key column target)
    (identifies : parent.declaredName target = parent.idField idField)
    (hcolumns : child.declaredName column ∈ columns) (row r : List Cell) :
    (child.project columns r).pointsTo (child.declaredName column) n.entity.idField
        (parent.project parentColumns row) =
      (child.cellIn column r).hasKeyOf (parent.cellIn target row) := by
  have hdeclared := hdb.tables child (Database.mem_of_mem_listed follows.child_listed)
  rw [Record.pointsTo, Record.key?, Record.key?,
    has.get?_idField hdb hcs follows.target_mem identifies, Table.get?_project hcolumns,
    hdeclared.cellIn_declaredName (follows.column_mem hdb)]
  rfl

/-- A row of the child that the database finds to refer to a row of the parent is asked for. -/
theorem HasRows.meets_of_agrees (has : HasRows db idField n cs parent parentColumns)
    (hdb : db.Declared) (hcs : cs ≠ [])
    (follows : Follows db n m parent child key column target)
    (identifies : parent.declaredName target = parent.idField idField)
    (hp : parent.project parentColumns row ∈ n.records)
    (h : reading.agrees child (child.declaredName column) (child.cellIn column r)
      (parent.cellIn target row) = true) :
    reading.meets child r (.isIn (child.declaredName column) n.identifiers) = true := by
  have hdeclared := hdb.tables child (Database.mem_of_mem_listed follows.child_listed)
  obtain ⟨literal, hliteral, hequals⟩ := (Option.any_eq_true _ _).mp h
  have hmem : literal ∈ Condition.literals n.identifiers := by
    rw [has.identifiers, Node.literals_identifiersOf, List.mem_eraseDups, List.mem_filterMap]
    refine ⟨_, hp, ?_⟩
    rw [has.get?_idField hdb hcs follows.target_mem identifies]
    exact hliteral
  rw [Reading.meets, List.any_eq_true, hdeclared.cellIn_declaredName (follows.column_mem hdb)]
  exact ⟨literal, hmem, hequals⟩

/-- Where the database finds cells equal just if they have one key, a row of the child is asked for
and matched just if the database finds it to refer to the row of the parent. -/
theorem HasRows.refers_of_agrees (has : HasRows db idField n cs parent parentColumns)
    (hdb : db.Declared) (hcs : cs ≠ [])
    (follows : Follows db n m parent child key column target)
    (identifies : parent.declaredName target = parent.idField idField)
    (hp : parent.project parentColumns row ∈ n.records)
    (agree : reading.agrees child (child.declaredName column) (child.cellIn column r)
      (parent.cellIn target row) = (child.cellIn column r).hasKeyOf (parent.cellIn target row)) :
    ((child.cellIn column r).hasKeyOf (parent.cellIn target row) &&
        reading.meets child r (.isIn (child.declaredName column) n.identifiers)) =
      reading.agrees child (child.declaredName column) (child.cellIn column r)
        (parent.cellIn target row) := by
  rw [← agree, Bool.and_eq_left_iff_imp]
  exact has.meets_of_agrees hdb hcs follows identifies hp

/-- Where the cells are of one kind, a row of the child is asked for and matched just if its cell is
that of the row of the parent. -/
theorem HasRows.refers_of_kind (has : HasRows db idField n cs parent parentColumns)
    (hdb : db.Declared) (answers : db.Answers engine reading all) (hcs : cs ≠ [])
    (follows : Follows db n m parent child key column target)
    (identifies : parent.declaredName target = parent.idField idField)
    (hparents : parent.Holds kind target) (hchildren : child.Holds kind column)
    (hrow : row ∈ parent.rows) (hp : parent.project parentColumns row ∈ n.records)
    (hr : r ∈ child.rows) :
    ((child.cellIn column r).hasKeyOf (parent.cellIn target row) = true ∧
        reading.meets child r (.isIn (child.declaredName column) n.identifiers) = true) ↔
      child.cellIn column r = parent.cellIn target row ∧ parent.cellIn target row ≠ .null := by
  rw [(hchildren.cells r hr).hasKeyOf_iff (hparents.cells row hrow), and_iff_left_iff_imp]
  rintro ⟨hsame, hnull⟩
  have hchild := Database.mem_of_mem_listed follows.child_listed
  have hcell := (hdb.tables child hchild).cellIn_declaredName (follows.column_mem hdb)
  obtain ⟨c, hc, hname⟩ := Table.declaredName_mem (follows.column_mem hdb)
  have hequals := answers.equals child hchild r hr (child.declaredName column)
    (List.mem_map.mpr ⟨c, hc, hname⟩) kind
  rw [hcell] at hequals
  apply has.meets_of_agrees hdb hcs follows identifies hp
  rw [← hsame] at hnull ⊢
  exact hequals (hchildren.cells r hr) hnull

/-- Behind a run, the records of a node are rows of the parent, and the child found the rows that are
joined to them. -/
theorem Follows.hasRows_and_joins {c : Tree Node}
    (fetched : (∃ t columns, HasRows db idField n cs t columns) ∧
      ∀ c ∈ cs, JoinsBelow db reading idField n c)
    (hdb : db.Declared) (follows : Follows db n c.label parent child key column target)
    (hc : c ∈ cs) (unrestricted : c.label.Unrestricted (child.declaredName column)) :
    (∃ parentColumns, HasRows db idField n cs parent parentColumns) ∧
      ((c.children ≠ [] → child.Identified idField) →
        Joins reading child (child.declaredName column) n.identifiers c.label) := by
  -- tables are known by their names
  have hlisted {t u : Table} (ht : t ∈ db.listed) (hu : u ∈ db.listed) (hname : t.name = u.name) :
      t = u :=
    hdb.eq_of_name_eq (Database.mem_of_mem_listed ht) (Database.mem_of_mem_listed hu) hname
  obtain ⟨⟨t, parentColumns, has⟩, hbelow⟩ := fetched
  obtain rfl : t = parent := by
    apply hlisted has.listed follows.parent_listed
    rw [← follows.entity, has.entity]
    rfl
  obtain ⟨u, hu, hname, hjoins⟩ := hbelow c hc _ follows.related unrestricted
  obtain rfl : u = child := hlisted hu follows.child_listed hname
  exact ⟨⟨parentColumns, has⟩, hjoins⟩

/-- The rows that a child found are listed in the object of a row of the parent if they have its
key. -/
theorem HasRows.lists_found (has : HasRows db idField n cs parent parentColumns)
    (hdb : db.Declared) {c : Tree Node} (hc : c ∈ cs)
    (follows : Follows db n c.label parent child key column target)
    (identifies : parent.declaredName target = parent.idField idField)
    (hcolumns : child.declaredName column ∈ columns)
    (hrecords : c.label.records = (reading.found child (child.joinStatement columns
      (child.declaredName column) n.identifiers)).map (child.project columns))
    (shaped : Tree.Shaped n cs (parent.project parentColumns row)
      ((Tree.node n cs).assemble (parent.project parentColumns row))) :
    Tree.Lists (.node n cs) c (parent.project parentColumns row)
      (((reading.rows (child.joinStatement columns (child.declaredName column) n.identifiers)
        child).filter fun r => (child.cellIn column r).hasKeyOf (parent.cellIn target row) &&
          reading.meets child r (.isIn (child.declaredName column) n.identifiers)).map
        (child.project columns)) := by
  have related : n.entity.joinField? c.label.name = some (child.declaredName column) := by
    rw [Entity.joinField?, follows.related]
    rfl
  have hlists := shaped.lists hc related
  rw [hrecords, Reading.found, List.filter_map, List.filter_filter] at hlists
  simp only [Function.comp_def, has.pointsTo hdb (List.ne_nil_of_mem hc) follows identifies
    hcolumns, Table.joinStatement, List.all_cons, List.all_nil, Bool.and_true] at hlists
  exact hlists

end Rows

/-- A child that is asked for by the relationship of a foreign key, without a page and without
filters. Where the key refers to the column that identifies the parent, every record of the parent
is a row of it, and its object has the rows of the child whose referring cell has the key of the
cell that is referred to and is asked for by the identifiers of all parents, in the order in which
the database reads them. Where the database finds these cells equal just if they have one key, they
are the rows that it finds to refer to the row of the parent, and where the cells are null or of one
kind, they are the rows that have the cell of their parent. -/
theorem Database.nested_rows (hdb : db.Declared) (hplain : db.Plain) {engine : Engine}
    {reading : Reading} (idField : String) {forest : Forest}
    (answers : db.Answers engine reading (forest.received engine))
    (read : forest.IsRead (db.catalog idField)) :
    let found := (Forest.run engine forest).1
    ∀ keys t, found.Reaches keys t → ∀ c ∈ t.children, ∀ parent child key column target,
      Follows db t.label c.label parent child key column target →
      parent.declaredName target = parent.idField idField →
      c.label.Unrestricted (child.declaredName column) →
      (c.children ≠ [] → child.Identified idField) →
      ∃ parentColumns columns, t.label.Selects parentColumns t.label.entity.idField ∧
        c.label.Selects columns (child.declaredName column) ∧
        let field := child.declaredName column
        let rows := reading.rows (child.joinStatement columns field t.label.identifiers) child
        rows.Perm child.rows ∧
        ∀ p ∈ t.label.records, ∃ row ∈ parent.rows, p = parent.project parentColumns row ∧
          ∃ nested, t.Lists c p (nested.map (child.project columns)) ∧
            (nested = rows.filter fun r =>
              (child.cellIn column r).hasKeyOf (parent.cellIn target row) &&
                reading.meets child r (.isIn field t.label.identifiers)) ∧
            ((∀ r ∈ child.rows, reading.agrees child field (child.cellIn column r)
                (parent.cellIn target row) =
                  (child.cellIn column r).hasKeyOf (parent.cellIn target row)) →
              nested = rows.filter fun r => reading.agrees child field (child.cellIn column r)
                (parent.cellIn target row)) ∧
            ∀ kind, parent.Holds kind target → child.Holds kind column →
              nested = rows.filter fun r =>
                child.cellIn column r = parent.cellIn target row ∧
                  parent.cellIn target row ≠ .null := by
  intro found keys t reached c hc parent child key column target follows identifies unrestricted
    identified
  have hfetched := reached.everywhere (fetched_run hdb hplain answers read)
  have hshaped := reached.everywhere (Forest.shaped_run read engine)
  obtain ⟨n, cs⟩ := t
  rw [Tree.children_node] at hc
  rw [Tree.label_node] at follows ⊢
  have hcs : cs ≠ [] := List.ne_nil_of_mem hc
  obtain ⟨⟨parentColumns, has⟩, hjoins⟩ :=
    follows.hasRows_and_joins hfetched.here hdb hc unrestricted
  obtain ⟨columns, hselects, hrecords⟩ := hjoins identified
  have hrows := answers.rows child (mem_of_mem_listed follows.child_listed)
    (child.joinStatement columns (child.declaredName column) n.identifiers)
  refine ⟨parentColumns, columns, has.selects hcs, hselects, hrows, ?_⟩
  intro p hp
  obtain ⟨row, hrow, rfl⟩ := has.rows (follows.identified identifies) p hp
  have hlists := has.lists_found hdb hc follows identifies hselects.field hrecords
    (hshaped.here (parent.project parentColumns row))
  refine ⟨row, hrow, rfl, _, hlists, rfl, ?_, ?_⟩
  · intro agree
    apply List.filter_congr
    intro r hr
    exact has.refers_of_agrees hdb hcs follows identifies hp (agree r (hrows.mem_iff.mp hr))
  · intro kind hparents hchildren
    apply List.filter_congr
    intro r hr
    rw [Bool.eq_iff_iff, Bool.and_eq_true, decide_eq_true_iff]
    exact has.refers_of_kind hdb answers hcs follows identifies hparents hchildren hrow hp
      (hrows.mem_iff.mp hr)

end Runs

/-! ### A depot -/

namespace Depot

def word (s : String) : Cell := .text (Text.Utf8.encode s.toList)

/-- Rows are read in their own order or backwards, and a cell equals the literal that is written for
it. -/
def reading (backwards : Bool) : Reading where
  rows _ t := if backwards then t.rows.reverse else t.rows
  equals _ _ c literal := c.toValue.literal? == some literal

/-- A store that reads the tables of a database, and refuses columns that are none of theirs or
whose names it keeps for itself. -/
def engine (reading : Reading) (db : Database) : Engine := fun _ s =>
  match db.find? fun t => t.name == s.table with
  | none => .error ("no such table: " ++ s.table)
  | some t =>
    match (s.columns ++ s.conditions.map Condition.column).find? fun name =>
      decide ¬ t.Names name with
    | some name => .error ("no such column: " ++ name)
    | none => .ok (reading.answer t s)

theorem engine_eq {db : Database} (hdb : db.Declared) (reading : Reading) {t : Table} (ht : t ∈ db)
    {s : Select} (h : s.Over t) (received : List Select) :
    engine reading db received s = .ok (reading.answer t s) := by
  have htable : (db.find? fun t => t.name == s.table) = some t := by
    obtain ⟨u, hu⟩ : ∃ u, (db.find? fun t => t.name == s.table) = some u := by
      rw [← Option.isSome_iff_exists, List.find?_isSome]
      exact ⟨t, ht, by simp [h.table]⟩
    have hname : u.name = s.table := by simpa using List.find?_some hu
    rw [hu, hdb.eq_of_name_eq (List.mem_of_find?_eq_some hu) ht (hname.trans h.table)]
  have hnames : ((s.columns ++ s.conditions.map Condition.column).find? fun name =>
      decide ¬ t.Names name) = none := by
    rw [List.find?_eq_none]
    intro name hname
    rw [decide_eq_true_iff, not_not]
    rcases List.mem_append.mp hname with hname | hname
    · exact h.columns name hname
    · obtain ⟨c, hc, rfl⟩ := List.mem_map.mp hname
      exact (h.conditions c hc).column
  simp only [engine, htable, hnames]

theorem answers {db : Database} (hdb : db.Declared) (backwards : Bool) (received : List Select) :
    db.Answers (engine (reading backwards) db) (reading backwards) received where
  rows t _ _ := by
    cases backwards with
    | true => exact t.rows.reverse_perm
    | false => exact .refl _
  equals t _ row _ name _ kind hkind hnull := by
    cases hliteral : (t.cellIn name row).toValue.literal? with
    | none =>
      rw [Value.literal?_eq_none hkind.toValue, Cell.toValue_eq_null] at hliteral
      exact absurd hliteral hnull
    | some literal => simp [Reading.agrees, reading, hliteral]
  answered t ht before s _ hover _ _ := ⟨_, engine_eq hdb _ ht hover before⟩
  answer t ht before s records _ hover hanswer := by
    rw [engine_eq hdb _ ht hover] at hanswer
    exact (Except.ok.inj hanswer).symm

/-- A box refers to a column of its shelf by one of its own. -/
def boxKey (column target : String) : ForeignKey := ⟨[column], "Shelf", [target]⟩

/-- The table refers to one without a primary key. -/
def parts : Table where
  name := "Part"
  columns := [⟨"box", .text⟩]
  primaryKey := []
  foreignKeys := [⟨["box"], "Box", ["label"]⟩]
  rows := []

/-- Two shelves and two boxes. The first box stands on the first shelf. The shelves are asked for
the boxes on them. -/
structure Search where
  -- what identifies the second shelf
  shelf : Cell
  -- what the boxes refer to
  first : Cell
  second : Cell
  -- the column by which boxes refer to shelves, and the one of the shelves that they refer to
  column : String
  target : String
  backwards : Bool
  -- whether the boxes are asked for what is in them
  deep : Bool

namespace Search

/-- There is one box on each shelf. -/
def single : Search := ⟨.int 2, .int 1, .int 2, "shelf", "Id", false, false⟩

/-- The identifier of the second shelf is a text with the digits of that of the first. -/
def mixed : Search := { single with shelf := word "1", second := word "1" }

/-- Both boxes stand on the first shelf. The rows are read backwards. -/
def reversed : Search := { single with second := .int 1, backwards := true }

/-- The boxes refer to a column that does not identify the shelves. -/
def astray : Search := { single with first := word "a", second := word "b", target := "place" }

/-- The boxes are asked for an identifier that they do not have. -/
def unidentified : Search := { single with deep := true }

/-- The column that refers to the shelves is called by a keyword. -/
def reserved : Search := { single with column := "order" }

def all : List Search := [single, mixed, reversed, astray, unidentified, reserved]

variable (x : Search)

def shelves : Table where
  name := "Shelf"
  columns := [⟨"Id", .none⟩, ⟨"place", .text⟩]
  primaryKey := ["Id"]
  foreignKeys := []
  rows := [[.int 1, word "a"], [x.shelf, word "b"]]

def boxes : Table where
  name := "Box"
  columns := [⟨x.column, .none⟩, ⟨"label", .text⟩]
  primaryKey := []
  foreignKeys := [boxKey x.column x.target]
  rows := [[x.first, word "x"], [x.second, word "y"]]

def database : Database := [x.shelves, x.boxes, Depot.parts]

def reading : Reading := Depot.reading x.backwards

def engine : Engine := Depot.engine x.reading x.database

def parts : Selection (List Char) :=
  if x.deep then .node "Part".toList (.field "box" .nil) .nil else .nil

def query : Selection (List Char) :=
  .node "Shelf".toList (.field "place" (.node "Box".toList (.field "label" x.parts) .nil)) .nil

def run : Forest × Log := Forest.run x.engine (x.query.forest (x.database.catalog "Id"))

def firstShelf : Record := x.shelves.project ["place", "Id"] [.int 1, word "a"]

/-- The boxes that refer to the first shelf, in the order of their rows. -/
def referring : List (List Cell) :=
  x.boxes.rows.filter fun r =>
    x.boxes.cellIn x.column r = x.shelves.cellIn x.target [.int 1, word "a"]

/-- In the data of the first shelf stand some boxes. -/
def Nests (nested : List (List Cell)) : Prop :=
  ∃ t ∈ x.run.1, ∃ c ∈ t.children,
    Follows x.database t.label c.label x.shelves x.boxes (boxKey x.column x.target) x.column
        x.target ∧
      c.label.Unrestricted (x.boxes.declaredName x.column) ∧ x.firstShelf ∈ t.label.records ∧
        t.Lists c x.firstShelf (nested.map (x.boxes.project ["label", x.column]))

variable {x : Search}

theorem declared : ∀ x ∈ all, Database.Declared x.database := by
  simp only [all, List.forall_mem_cons]
  refine ⟨?_, ?_, ?_, ?_, ?_, ?_, fun x h => nomatch h⟩
  all_goals
    constructor
    · decide +kernel
    · simp only [database, List.forall_mem_cons]
      refine ⟨?_, ?_, ?_, fun t ht => nomatch ht⟩
      all_goals constructor <;> decide +kernel

theorem plain : ∀ x ∈ [single, mixed, reversed, astray, unidentified],
    Database.Plain x.database := by
  simp only [List.forall_mem_cons]
  refine ⟨?_, ?_, ?_, ?_, ?_, fun x h => nomatch h⟩
  all_goals constructor <;> decide +kernel

theorem answers (hx : x ∈ all) (received : List Select) :
    Database.Answers x.database x.engine x.reading received :=
  Depot.answers (declared x hx) _ received

/-- The shelves are asked for their boxes in these words. -/
def text (inner : String) : String := "\x7bShelf \x7bplace Box \x7b" ++ inner ++ "\x7d\x7d\x7d"

theorem isRead (hx : x ∈ all) :
    (x.query.forest (x.database.catalog "Id")).IsRead (x.database.catalog "Id") := by
  have houtlines : ∀ x ∈ all, ∃ inner, x.query.Outlines 32 (text inner).toList := by
    have hlabels : single.query.Outlines 32 (text "label").toList :=
      ⟨by decide +kernel, ⟨rfl, nofun, by decide⟩, by decide +kernel⟩
    have hcontents : unidentified.query.Outlines 32 (text "label Part \x7bbox\x7d").toList :=
      ⟨by decide +kernel, ⟨rfl, nofun, by decide⟩, by decide +kernel⟩
    simp only [all, List.forall_mem_cons]
    exact ⟨⟨_, hlabels⟩, ⟨_, hlabels⟩, ⟨_, hlabels⟩, ⟨_, hlabels⟩, ⟨_, hcontents⟩, ⟨_, hlabels⟩,
      fun x h => nomatch h⟩
  obtain ⟨inner, h⟩ := houtlines x hx
  exact h.isRead _

/-- Every search, and the boxes that it finds. -/
def finds : List (Search × List (List Cell)) :=
  [(single, single.boxes.rows), (mixed, mixed.boxes.rows),
    (reversed, reversed.boxes.rows.reverse), (astray, []), (unidentified, []), (reserved, [])]

/-- The node of the boxes, with those that were found. -/
def HasBoxes (x : Search) (rows : List (List Cell)) (c : Tree Node) : Prop :=
  c.label.name = "Box" ∧ c.label.arguments = .empty ∧ c.label.outputFields = ["label"] ∧
    c.label.records = rows.map (x.boxes.project ["label", x.column])

instance (x : Search) (rows : List (List Cell)) (c : Tree Node) : Decidable (HasBoxes x rows c) :=
  inferInstanceAs (Decidable (_ ∧ _))

theorem exists_found : ∀ p ∈ finds, ∃ t ∈ p.1.run.1,
    t.label.entity = p.1.database.entity "Id" p.1.shelves ∧ p.1.firstShelf ∈ t.label.records ∧
      ∃ c ∈ t.children, c.children.isEmpty = !p.1.deep ∧ HasBoxes p.1 p.2 c := by
  decide +kernel

theorem related : ∀ x ∈ all, x.shelves ∈ Database.listed x.database ∧
    x.boxes ∈ Database.listed x.database ∧ x.boxes.declaredName x.column = x.column ∧
    (∃ c ∈ x.shelves.columns, sameName c.name x.target = true) ∧
    (Database.entity x.database "Id" x.shelves).relationship? "Box" =
      some (Reference.relationship (Database.references x.database)
        ⟨x.shelves.name, x.boxes.name, x.boxes.declaredName x.column⟩) := by
  decide +kernel

theorem mem_all {p : Search × List (List Cell)} (hp : p ∈ finds) : p.1 ∈ all := by
  have hfinds : finds.map Prod.fst = all := rfl
  rw [← hfinds]
  exact List.mem_map_of_mem hp

theorem exists_follows {rows : List (List Cell)} (hx : (x, rows) ∈ finds) :
    ∃ t ∈ x.run.1, t.label.entity = Database.entity x.database "Id" x.shelves ∧
      x.firstShelf ∈ t.label.records ∧
      ∃ c ∈ t.children, c.children.isEmpty = !x.deep ∧ HasBoxes x rows c ∧
        Follows x.database t.label c.label x.shelves x.boxes (boxKey x.column x.target) x.column
          x.target := by
  obtain ⟨t, ht, hentity, hfirst, c, hc, hbare, hboxes⟩ := exists_found _ hx
  obtain ⟨hparent, hchild, -, htarget, hrelated⟩ := related x (mem_all hx)
  rw [← hentity, ← hboxes.1] at hrelated
  refine ⟨t, ht, hentity, hfirst, c, hc, hbare, hboxes, ?_⟩
  exact {
    parent_listed := hparent
    child_listed := hchild
    entity := by
      rw [hentity]
      rfl
    mem_foreignKeys := List.mem_cons_self
    columns := rfl
    refers := rfl
    target? := rfl
    target_mem := htarget
    related := hrelated }

/-- Of the boxes that are found, those with the key of the first shelf stand in its data. -/
theorem nests {rows nested : List (List Cell)} (hx : (x, rows) ∈ finds)
    (h : (rows.filter fun r => (x.boxes.project ["label", x.column] r).pointsTo x.column "Id"
      x.firstShelf) = nested) : x.Nests nested := by
  obtain ⟨t, ht, hentity, hfirst, c, hc, -, hboxes, follows⟩ := exists_follows hx
  obtain ⟨-, harguments, -, hrecords⟩ := hboxes
  obtain ⟨-, -, hcolumn, -⟩ := related x (mem_all hx)
  refine ⟨t, ht, c, hc, follows, Node.unrestricted_of_empty harguments _, hfirst, ?_⟩
  have hjoin : t.label.entity.joinField? c.label.name = some x.column := by
    rw [Entity.joinField?, follows.related]
    exact congrArg some hcolumn
  have hshaped := Forest.shaped_run (isRead (mem_all hx)) x.engine t ht
  obtain ⟨n, cs⟩ := t
  have hlists := (hshaped.here x.firstShelf).lists hc hjoin
  rw [hrecords, List.filter_map] at hlists
  rw [Tree.label_node] at hentity
  rw [hentity] at hlists
  rw [← h]
  exact hlists

theorem holds_int {t : Table} {name : String}
    (h : (t, name) ∈ [(single.shelves, "Id"), (single.boxes, "shelf")]) : t.Holds .int name where
  column := by fin_cases h <;> decide +kernel
  cells := by
    intro row hrow
    have hcell : t.cellIn name row = .int 1 ∨ t.cellIn name row = .int 2 := by
      revert row
      fin_cases h <;> decide +kernel
    rcases hcell with hcell | hcell
    · exact ⟨.int 1, rfl, hcell⟩
    · exact ⟨.int 2, rfl, hcell⟩

end Search

end Depot

open Depot Search in
/-- Below the first shelf is the one box that refers to it. -/
theorem Database.nested_rows_boxes :
    single.referring = [[.int 1, word "x"]] ∧
    ∃ t ∈ single.run.1, ∃ c ∈ t.children, single.firstShelf ∈ t.label.records ∧
      ∃ r, r.get? "label" = some (.text "x") ∧ t.Lists c single.firstShelf [r] := by
  have hsingle : (single, single.boxes.rows) ∈ finds := List.mem_cons_self
  have hall := mem_all hsingle
  obtain ⟨t, ht, hentity, hfirst, c, hc, hbare, hfound⟩ := exists_follows hsingle
  obtain ⟨⟨-, harguments, houtput, -⟩, follows⟩ := hfound
  obtain ⟨parentColumns, columns, hparent, hselects, -, hnested⟩ :=
    Database.nested_rows (declared _ hall) (plain _ List.mem_cons_self) "Id" (answers hall _)
      (isRead hall) [_] t (.root ht) c hc single.shelves single.boxes (boxKey "shelf" "Id") "shelf"
      "Id" follows (by decide +kernel) (Node.unrestricted_of_empty harguments _)
      (fun hne => absurd (List.isEmpty_iff.mp hbare) hne)
  refine ⟨by decide +kernel, t, ht, c, hc, hfirst, ?_⟩
  obtain ⟨row, hrow, hp, nested, hlists, -, -, hkinds⟩ := hnested _ hfirst
  -- the record is that of the first row, to which one box refers
  have hid : single.firstShelf.get? "Id" = some (.int 1) := Table.get?_project (by decide) _
  have hidField : "Id" ∈ parentColumns := by
    have hmem := hparent.field
    rw [hentity] at hmem
    exact hmem
  rw [hp, Table.get?_project hidField, Option.some_inj] at hid
  have hrows : ∀ row ∈ single.shelves.rows,
      (single.shelves.cellIn "Id" row).toValue = .int 1 →
        (single.boxes.rows.filter fun r =>
          single.boxes.cellIn "shelf" r = single.shelves.cellIn "Id" row ∧
            single.shelves.cellIn "Id" row ≠ .null) = [[.int 1, word "x"]] := by
    decide +kernel
  have hshelves := holds_int (List.mem_cons_self : (single.shelves, "Id") ∈ _)
  have hboxes := holds_int (List.mem_cons_of_mem _ List.mem_cons_self)
  obtain rfl : nested = [[.int 1, word "x"]] :=
    (hkinds .int hshelves hboxes).trans (hrows row hrow hid)
  refine ⟨_, ?_, hlists⟩
  have hlabel : "label" ∈ columns := by
    apply hselects.outputFields
    rw [houtput]
    exact List.mem_cons_self
  rw [Table.get?_project hlabel]
  decide +kernel

open Depot Search in
/-- A box that does not refer to a shelf is nested below it if a text has the key of an integer, and
boxes are nested in the order in which they are read. None are nested if the boxes refer to a column
that does not identify the shelf, if they are asked for a column that they do not have, or if they
refer by one whose name the store keeps for itself. -/
theorem Database.nested_rows_mixed :
    (∀ x ∈ [mixed, reversed, astray, unidentified, reserved],
      Database.Declared x.database ∧
        ∀ received, Database.Answers x.database x.engine x.reading received) ∧
    (∀ x ∈ [mixed, reversed, astray, unidentified], Database.Plain x.database) ∧
    (mixed.referring = [[.int 1, word "x"]] ∧
      mixed.Nests [[.int 1, word "x"], [word "1", word "y"]]) ∧
    (reversed.referring = [[.int 1, word "x"], [.int 1, word "y"]] ∧
      reversed.Nests [[.int 1, word "y"], [.int 1, word "x"]]) ∧
    (astray.referring = [[word "a", word "x"]] ∧ astray.Nests []) ∧
    (unidentified.referring = [[.int 1, word "x"]] ∧ unidentified.Nests []) ∧
    (reserved.referring = [[.int 1, word "x"]] ∧ reserved.Nests []) := by
  refine ⟨?_, fun x hx => plain x (List.mem_cons_of_mem _ hx), ⟨by decide +kernel, ?_⟩,
    ⟨by decide +kernel, ?_⟩, ⟨by decide +kernel, ?_⟩, ⟨by decide +kernel, ?_⟩,
    by decide +kernel, ?_⟩
  · intro x hx
    have hall : x ∈ all := List.mem_cons_of_mem _ hx
    exact ⟨declared x hall, answers hall⟩
  · have hfound : (mixed, mixed.boxes.rows) ∈ finds := by simp [finds]
    exact nests hfound (by decide +kernel)
  · have hfound : (reversed, reversed.boxes.rows.reverse) ∈ finds := by simp [finds]
    exact nests hfound (by decide +kernel)
  · have hfound : (astray, []) ∈ finds := by simp [finds]
    exact nests hfound rfl
  · have hfound : (unidentified, []) ∈ finds := by simp [finds]
    exact nests hfound rfl
  · have hfound : (reserved, []) ∈ finds := by simp [finds]
    exact nests hfound rfl

end Store

end NestedQuery
