import NestedQuery.Proofs.Request.Stitching

/-!
# Columns that are read

What a statement selects is decided where it is compiled, and what is read of the records is decided
elsewhere: a run reads the identifiers of a node with children, and the assembly reads output fields,
identifiers and join fields. The two agree, and fields that are unknown or asked for again have no
part in either.

## Main result

`Forest.columns_read`: every node of a forest that was read selects its output fields, the field of
its join and its identifier where it is needed, each once and nothing else (`Node.Columns`). A store
that answers with the selected columns leaves no gap where something is read (`Node.Complete`).
Without the unknown and the repeated fields (`Node.narrowed`) the log and the data of every run are
the same.
-/

namespace NestedQuery

/-- `P` holds of every node of a tree, with whether it has children and the field by which it is
joined to the node around it. -/
inductive Tree.Linked (P : Node → Bool → Option String → Prop) : Option String → Tree Node → Prop
    where
  | node {joinField : Option String} {n : Node} {cs : Forest} (here : P n (!cs.isEmpty) joinField)
      (related : ∀ c ∈ cs, (n.entity.joinField? c.label.name).isSome)
      (below : ∀ c ∈ cs, Linked P (n.entity.joinField? c.label.name) c) :
      Linked P joinField (.node n cs)

/-! ### What is selected -/

namespace Node

theorem pairwise_idxOf (fields : List String) (p : String → Bool) :
    (fields.filter p).eraseDups.Pairwise fun a b => fields.idxOf a < fields.idxOf b := by
  induction fields generalizing p with
  | nil => exact .nil
  | cons field rest ih =>
    -- but for the first field, all places are one further
    have hrest : ∀ q : String → Bool, q field = false →
        (rest.filter q).eraseDups.Pairwise
          fun a b => (field :: rest).idxOf a < (field :: rest).idxOf b := by
      intro q hq
      have hne : ∀ a ∈ (rest.filter q).eraseDups, field ≠ a := by
        rintro a ha rfl
        rw [List.mem_eraseDups, List.mem_filter, hq] at ha
        exact Bool.false_ne_true ha.2
      refine (ih q).imp_of_mem fun {a b} ha hb hlt => ?_
      rw [List.idxOf_cons_ne _ (hne a ha), List.idxOf_cons_ne _ (hne b hb)]
      exact Nat.succ_lt_succ hlt
    cases hfield : p field with
    | false =>
      rw [List.filter_cons_of_neg (by simp [hfield])]
      exact hrest p hfield
    | true =>
      rw [List.filter_cons_of_pos hfield, List.eraseDups_cons, List.filter_filter]
      refine List.pairwise_cons.mpr ⟨fun b hb => ?_, hrest _ (by simp)⟩
      rw [List.mem_eraseDups, List.mem_filter] at hb
      have hne : field ≠ b := by
        rintro rfl
        simp at hb
      rw [List.idxOf_cons_self, List.idxOf_cons_ne _ hne]
      exact Nat.succ_pos _

/-- The field is selected behind others, unless it is one of them. -/
def behind (fields : List String) (field : String) : List String :=
  if field ∈ fields then [] else [field]

theorem addField_eq_append (fields : List String) (field : String) :
    addField fields field = fields ++ behind fields field := by
  unfold addField behind
  by_cases h : field ∈ fields
  · simp [h]
  · simp [h]

/-- What a statement for the node selects. The output fields are those known of the fields asked
for, in the order in which they are asked for first. -/
structure Columns (n : Node) (hasChildren : Bool) (joinField : Option String) : Prop where
  known : ∀ field, field ∈ n.outputFields ↔ field ∈ n.requested ∧ field ∈ n.entity.fields.toList
  ordered : n.outputFields.Pairwise fun a b => n.requested.idxOf a < n.requested.idxOf b
  ne_nil : n.selectFields hasChildren joinField ≠ []
  nodup : (n.selectFields hasChildren joinField).Nodup
  parts : ∃ joins ids,
    n.selectFields hasChildren joinField = n.outputFields ++ joins ++ ids ∧
    joins = joinField.elim [] (behind n.outputFields) ∧
    ids = if hasChildren ∨ n.outputFields ++ joins = [] then
        behind (n.outputFields ++ joins) n.entity.idField
      else []
  compiled : ∀ link compiled, link.map Link.joinField = joinField →
    n.compile hasChildren link = .ok compiled →
    compiled.select.columns = n.selectFields hasChildren joinField

theorem columns (n : Node) (hasChildren : Bool) (joinField : Option String) :
    n.Columns hasChildren joinField := by
  have hjoined : n.joinedFields joinField =
      n.outputFields ++ joinField.elim [] (behind n.outputFields) := by
    cases joinField with
    | none => simp [joinedFields]
    | some field => exact addField_eq_append _ _
  constructor
  case known =>
    intro field
    rw [outputFields, List.mem_eraseDups, List.mem_filter, Ordered.contains_iff]
    simp
  case ordered => exact pairwise_idxOf _ _
  case ne_nil => exact n.selectFields_ne_nil hasChildren joinField
  case nodup => exact n.nodup_selectFields hasChildren joinField
  case parts =>
    refine ⟨_, _, ?_, rfl, rfl⟩
    rw [selectFields, hjoined]
    split
    · next h =>
      rw [Bool.or_eq_true, List.isEmpty_iff] at h
      rw [if_pos h.symm, addField_eq_append]
    · next h =>
      rw [Bool.or_eq_true, List.isEmpty_iff] at h
      rw [if_neg fun h' => h h'.symm, List.append_nil]
  case compiled =>
    rintro link compiled rfl h
    rw [compile_ok h]

end Node

/-- What holds of all nodes holds along the links of a tree that was read. -/
theorem Tree.linked_of_resolved {catalog : Metadata} {P : Node → Bool → Option String → Prop}
    (all : ∀ n hasChildren joinField, P n hasChildren joinField) {t : Tree Node}
    (resolved : t.Everywhere (Forest.ResolvedAt catalog)) (joinField : Option String) :
    t.Linked P joinField := by
  induction t using Tree.induction generalizing joinField with
  | node n cs ih =>
    apply Linked.node (all n _ joinField)
    · intro c hc
      obtain ⟨field, hfield⟩ := (resolved.here.children c hc).exists_joinField
      rw [hfield]
      rfl
    · exact fun c hc => ih c hc (resolved.inside c hc) _

/-! ### What is read -/

/-- The answers to the statements that a store receives have a value in every column that was
selected. -/
def Engine.AnswersColumns (engine : Engine) (received : List Select) : Prop :=
  ∀ before select records, before ++ [select] <+: received → engine before select = .ok records →
    ∀ r ∈ records, ∀ column ∈ select.columns, (r.get? column).isSome

/-- What is read of the records that were found for a node is there. -/
structure Node.Complete (n : Node) (hasChildren : Bool) (joinField : Option String) : Prop where
  outputFields : ∀ r ∈ n.records, ∀ field ∈ n.outputFields, (r.get? field).isSome
  identifier : hasChildren → ∀ r ∈ n.records, (r.get? n.entity.idField).isSome
  join : ∀ field ∈ joinField, ∀ r ∈ n.records, (r.get? field).isSome

theorem Node.complete_run {engine : Engine} {all : List Select}
    (answers : engine.AnswersColumns all) (received : List Select) (link : Option Link)
    (hasChildren : Bool) (n : Node)
    (hreceived : (n.run engine received link hasChildren).received <+: all) :
    (n.run engine received link hasChildren).node.Complete hasChildren
      (link.map (·.joinField)) := by
  -- a record that was found has the columns that were selected
  have hcolumns : ∀ r ∈ (n.run engine received link hasChildren).node.records,
      ∀ column ∈ n.selectFields hasChildren (link.map (·.joinField)), (r.get? column).isSome := by
    intro r hr column hcolumn
    obtain ⟨compiled, hcompile, -, hsent, hanswer⟩ := exists_answer hr
    apply answers _ _ _ (hsent ▸ hreceived) hanswer r hr
    rwa [compile_ok hcompile]
  obtain ⟨records, hrun⟩ := n.node_run engine received link hasChildren
  rw [hrun] at hcolumns ⊢
  constructor
  case outputFields =>
    intro r hr field hfield
    exact hcolumns r hr field (mem_selectFields_of_mem (mem_joinedFields_of_mem hfield))
  case identifier =>
    rintro rfl r hr
    exact hcolumns r hr _ (n.idField_mem_selectFields _)
  case join =>
    intro field hfield r hr
    rw [Option.mem_def.mp hfield] at hcolumns
    exact hcolumns r hr field (mem_selectFields_of_mem (n.joinField_mem_joinedFields field))

namespace Tree

theorem name_visits (engine : Engine) (before : Past) (link : Option Link) (t : Tree Node) :
    ((t.visits engine before link).map Visit.node).label.name = t.label.name := by
  obtain ⟨n, cs⟩ := t
  obtain ⟨records, hrun⟩ := n.node_run engine (before []) link (!cs.isEmpty)
  rw [visits_node, map, label_node, hrun]
  rfl

theorem complete_visits {catalog : Metadata} {engine : Engine} {all : List Select}
    (answers : engine.AnswersColumns all) {t : Tree Node}
    (resolved : t.Everywhere (Forest.ResolvedAt catalog)) (before : Past) (link : Option Link)
    (hreceived : (t.visits engine before link).Everywhere fun v _ => v.received <+: all) :
    ((t.visits engine before link).map Visit.node).Linked Node.Complete
      (link.map (·.joinField)) := by
  induction t using Tree.induction generalizing before link with
  | node n cs ih =>
    have hchild := fun c hc => visitChild_run (c := c) resolved.here hc engine before (before [])
      link (!cs.isEmpty)
    have hnode := n.complete_run answers (before []) link (!cs.isEmpty)
    rw [visits_node] at hreceived ⊢
    rw [map, mapAll_eq_map, List.map_map]
    apply Linked.node
    case here =>
      rw [List.isEmpty_map]
      exact hnode hreceived.here
    case related =>
      intro c' hc'
      obtain ⟨c, hc, rfl⟩ := List.mem_map.mp hc'
      obtain ⟨field, hfield, hvisits⟩ := hchild c hc
      rw [Function.comp_apply, hvisits, name_visits, n.entity_run, hfield]
      rfl
    case below =>
      intro c' hc'
      obtain ⟨c, hc, rfl⟩ := List.mem_map.mp hc'
      obtain ⟨field, hfield, hvisits⟩ := hchild c hc
      have hbelow := hreceived.inside _ (List.mem_map_of_mem hc)
      rw [hvisits] at hbelow
      rw [Function.comp_apply, hvisits, name_visits, n.entity_run, hfield]
      exact ih c hc (resolved.inside c hc) _ _ hbelow

end Tree

/-! ### Fields that have no part in a run -/

/-- The node without the fields that are unknown or asked for again. -/
def Node.narrowed (n : Node) : Node := { n with requested := n.outputFields }

namespace Node

theorem outputFields_narrowed (n : Node) : n.narrowed.outputFields = n.outputFields := by
  have hknown : n.outputFields.filter n.entity.fields.contains = n.outputFields := by
    rw [List.filter_eq_self]
    intro field hfield
    rw [outputFields, List.mem_eraseDups, List.mem_filter] at hfield
    exact hfield.2
  rw [outputFields, narrowed]
  simp only
  rw [hknown, Keyed.eraseDups_of_nodup n.nodup_outputFields]

theorem compile_narrowed (n : Node) : n.narrowed.compile = n.compile := by
  funext hasChildren link
  have hjoined : n.narrowed.joinedFields = n.joinedFields := by
    funext joinField
    cases joinField with
    | none => exact n.outputFields_narrowed
    | some field => exact congrArg (addField · field) n.outputFields_narrowed
  have hselect : n.narrowed.selectFields = n.selectFields := by
    funext hasChildren joinField
    rw [selectFields, hjoined]
    rfl
  rw [compile, hselect, hjoined]
  rfl

/-- The same statement is compiled for a node without the fields that have no part in it. -/
theorem run_narrowed (engine : Engine) (received : List Select) (link : Option Link)
    (hasChildren : Bool) (n : Node) :
    n.narrowed.run engine received link hasChildren =
      { n.run engine received link hasChildren with
        node := (n.run engine received link hasChildren).node.narrowed } := by
  have hcompileIn : ∀ log,
      n.narrowed.compileIn hasChildren link log = n.compileIn hasChildren link log := by
    intro log
    rw [compileIn, compile_narrowed, compileIn]
  rw [run, hcompileIn, run]
  rcases n.compileIn hasChildren link [.visited] with ⟨_ | compiled, log⟩
  · rfl
  · rw [send, send]
    cases compiled.skipped with
    | true => rfl
    | false =>
      cases hanswer : engine received compiled.select <;> simp [Engine.ask, hanswer] <;> rfl

end Node

namespace Tree

variable {engine : Engine}

/-- Nothing that is handed down to the children depends on the fields asked for. -/
theorem runBelow_narrowed {cs : Forest}
    (below : ∀ c ∈ cs, ∀ received link, (c.map Node.narrowed).run engine received link =
      ((c.run engine received link).1.map Node.narrowed, (c.run engine received link).2))
    (received : List Select) (parent : Node) :
    runBelow engine received parent.narrowed (cs.map (map Node.narrowed)) =
      ((runBelow engine received parent cs).1.map (map Node.narrowed),
        (runBelow engine received parent cs).2) := by
  induction cs generalizing received with
  | nil => rfl
  | cons c cs ih =>
    have hc := below c List.mem_cons_self
    have hcs := ih fun c hc => below c (List.mem_cons_of_mem _ hc)
    have hname : (c.map Node.narrowed).label.name = c.label.name := by cases c; rfl
    have hentity : parent.narrowed.entity = parent.entity := rfl
    have hidentifiers : parent.narrowed.identifiers = parent.identifiers := rfl
    rw [List.map_cons, runBelow, runBelow, hname, hentity, hidentifiers]
    cases parent.entity.joinField? c.label.name with
    | some field => simp [hc, hcs]
    | none => simp [hcs]

theorem run_narrowed (engine : Engine) (received : List Select) (link : Option Link)
    (t : Tree Node) :
    (t.map Node.narrowed).run engine received link =
      ((t.run engine received link).1.map Node.narrowed, (t.run engine received link).2) := by
  induction t using Tree.induction generalizing received link with
  | node n cs ih =>
    rw [map, mapAll_eq_map, run, run, List.isEmpty_map, Node.run_narrowed]
    simp only [runBelow_narrowed ih, map, mapAll_eq_map]

/-- A node and its children are matched by fields that may not have been asked for. -/
theorem childMember_narrowed {parent : Node} {c : Tree Node} {r : Record}
    (h : (c.map Node.narrowed).assemble = c.assemble) :
    childMember parent.narrowed r (c.map Node.narrowed) = childMember parent r c := by
  obtain ⟨n, cs⟩ := c
  rw [childMember, h]
  rfl

theorem assemble_narrowed (t : Tree Node) : (t.map Node.narrowed).assemble = t.assemble := by
  induction t using Tree.induction with
  | node n cs ih =>
    funext r
    have hfields : n.narrowed.fieldMembers r = n.fieldMembers r := by
      rw [Node.fieldMembers, Node.fieldMembers, n.outputFields_narrowed]
    have hchildren : (cs.map (map Node.narrowed)).map (childMember n.narrowed r) =
        cs.map (childMember n r) := by
      rw [List.map_map]
      exact List.map_congr_left fun c hc => childMember_narrowed (ih c hc)
    rw [map, mapAll_eq_map, assemble, assemble, assembleBelow_eq_foldl, assembleBelow_eq_foldl,
      hfields, hchildren]

end Tree

namespace Forest

theorem runFrom_narrowed (engine : Engine) (received : List Select) (forest : Forest) :
    runFrom engine received (forest.map (Tree.map Node.narrowed)) =
      ((forest.runFrom engine received).1.map (Tree.map Node.narrowed),
        (forest.runFrom engine received).2) := by
  induction forest generalizing received with
  | nil => rfl
  | cons t rest ih => simp only [List.map_cons, runFrom, Tree.run_narrowed, ih]

theorem run_narrowed (engine : Engine) (forest : Forest) :
    Forest.run engine (forest.map (Tree.map Node.narrowed)) =
      ((Forest.run engine forest).1.map (Tree.map Node.narrowed),
        (Forest.run engine forest).2) := by
  simp only [run, runFrom_narrowed]

theorem assemble_narrowed (forest : Forest) :
    Forest.assemble (forest.map (Tree.map Node.narrowed)) = forest.assemble := by
  have hmember : ∀ t : Tree Node,
      ((t.map Node.narrowed).label.outputKey, (t.map Node.narrowed).assembleAll) =
        (t.label.outputKey, t.assembleAll) := by
    intro t
    have hobject := t.assemble_narrowed
    obtain ⟨n, cs⟩ := t
    rw [Tree.assembleAll, hobject]
    rfl
  rw [assemble, assemble, List.map_map]
  exact congrArg _ (List.map_congr_left fun t _ => hmember t)

theorem complete_run {catalog : Metadata} {forest : Forest} (read : forest.IsRead catalog)
    {engine : Engine} (answers : engine.AnswersColumns (forest.received engine)) :
    ∀ t ∈ (Forest.run engine forest).1, t.Linked Node.Complete none := by
  obtain ⟨before, hrun, hreceived⟩ := exists_visits read engine
  intro t' ht'
  rw [hrun] at ht'
  obtain ⟨v, hv, rfl⟩ := List.mem_map.mp ht'
  have hv' := hreceived v hv
  obtain ⟨t, ht, rfl⟩ := List.mem_map.mp hv
  exact Tree.complete_visits answers (read.resolved.everywhere t ht) _ none hv'

/-- Every node of a forest that was read selects what is read of its records and nothing else. If
the store answers with the selected columns, whatever is read is there; and fields that are unknown
or asked for again change neither what a run compiles and sends nor the data. -/
theorem columns_read {catalog : Metadata} {forest : Forest} (read : forest.IsRead catalog) :
    (∀ t ∈ forest, t.Linked Node.Columns none) ∧
    ∀ engine : Engine,
      (engine.AnswersColumns (forest.received engine) →
        ∀ t ∈ (Forest.run engine forest).1, t.Linked Node.Complete none) ∧
      Forest.received engine (forest.map (Tree.map Node.narrowed)) = forest.received engine ∧
      (Forest.run engine (forest.map (Tree.map Node.narrowed))).2 = (Forest.run engine forest).2 ∧
      (Forest.run engine (forest.map (Tree.map Node.narrowed))).1.assemble =
        (Forest.run engine forest).1.assemble := by
  refine ⟨fun t ht => ?_, fun engine => ⟨complete_run read, ?_, ?_, ?_⟩⟩
  · exact Tree.linked_of_resolved Node.columns (read.resolved.everywhere t ht) none
  · rw [received, runFrom_narrowed, received]
  · rw [run_narrowed]
  · rw [run_narrowed, assemble_narrowed]

end Forest

/-! ### A city that is asked for again -/

namespace Roster

def repeated : Forest :=
  [.node { teams with requested := ["City", "Height", "City"] }
    [.node (players "Players" .empty) []]]

theorem repeated_isRead : repeated.IsRead catalog :=
  ⟨32, [.word "Team".toList, .opening, .word "City".toList, .word "Height".toList,
    .word "City".toList, .word "Players".toList, .opening, .word "Name".toList, .closing, .closing,
    .closing], [], by decide +kernel⟩

/-- Every query is answered with one record, of the selected columns. -/
def ones : Engine := fun _ s => .ok [.ofList (s.columns.map fun column => (column, .int 1))]

theorem answersColumns_ones (received : List Select) : ones.AnswersColumns received := by
  intro _ select records _ hanswer r hr column hcolumn
  cases hanswer
  obtain rfl := List.mem_singleton.mp hr
  have hmem : (column, Value.int 1) ∈ select.columns.map fun column => (column, Value.int 1) :=
    List.mem_map_of_mem hcolumn
  rw [Record.get?, Ordered.find?_ofList_of_unique hmem]
  · rfl
  · intro p hp hkey
    obtain ⟨_, _, rfl⟩ := List.mem_map.mp hp
    exact Prod.ext hkey rfl

end Roster

open Roster in
theorem Forest.columns_read_roster :
    (Forest.run ones (repeated.map (Tree.map Node.narrowed))).2.sent =
      ["SELECT City, Id FROM Team", "SELECT Name, TeamId FROM Player WHERE TeamId IN (1)"] ∧
    ∀ t ∈ (Forest.run ones repeated).1, t.Linked Node.Complete none := by
  obtain ⟨-, hrun⟩ := Forest.columns_read repeated_isRead
  obtain ⟨hcomplete, -, hlog, -⟩ := hrun ones
  refine ⟨?_, hcomplete (answersColumns_ones _)⟩
  rw [hlog]
  decide +kernel

end NestedQuery
