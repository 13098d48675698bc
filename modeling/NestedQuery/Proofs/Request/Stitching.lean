import NestedQuery.Proofs.Request.Identifiers
import NestedQuery.Proofs.Request.Shape
import NestedQuery.Proofs.Value.Keys

/-!
# No record is lost

The records of a child are asked for by the literals of their parents' identifiers, and put into the
objects of their parents by keys. A record that was asked for has a parent then, unless a boolean
and a number share their literal (`Value.key?_eq_iff`).

## Main result

`Forest.stitched_run`: if a store answers with what it was asked for, and every record that is
joined to a parent is joined to one of its own kind, then every record of a run stands in the data,
in the object of one of its parents.
-/

namespace NestedQuery

namespace Members

/-- The object stands in the data, in the lists at the keys. -/
inductive Holds (data : Members) : List String → Members → Prop where
  | here : Holds data [] data
  | inside {keys : List String} {outer : Members} {key : String} {items : List Json}
      {object : Members} (above : Holds data keys outer)
      (found : Keyed.find? Prod.fst key outer = some (key, .arr items))
      (mem : .obj object ∈ items) : Holds data (keys ++ [key]) object

end Members

namespace Forest

/-- The tree stands in the forest, at the output keys from its root down. -/
inductive Reaches (forest : Forest) : List String → Tree Node → Prop where
  | root {t : Tree Node} (mem : t ∈ forest) : Reaches forest [t.label.outputKey] t
  | child {keys : List String} {t c : Tree Node} (above : Reaches forest keys t)
      (mem : c ∈ t.children) : Reaches forest (keys ++ [c.label.outputKey]) c

theorem Reaches.everywhere {forest : Forest} {P : Node → Forest → Prop} {keys : List String}
    {t : Tree Node} (h : forest.Reaches keys t) (all : ∀ t ∈ forest, t.Everywhere P) :
    t.Everywhere P := by
  induction h with
  | root mem => exact all _ mem
  | @child keys t c above mem ih =>
    obtain ⟨n, cs⟩ := t
    exact ih.inside c mem

end Forest

/-- The object of a record of a child stands in the object of a record of the tree, at the key of the
child. -/
def Tree.Nests (t c : Tree Node) (r : Record) : Prop :=
  ∃ p ∈ t.label.records, ∃ items,
    Keyed.find? Prod.fst c.label.outputKey (t.assemble p) =
      some (c.label.outputKey, .arr items) ∧
    .obj (c.assemble r) ∈ items

/-- The answers to the statements that a store receives have only records that were asked for: in
the column of a list they have a value with a literal of the list. -/
def Engine.AnswersAsked (engine : Engine) (received : List Select) : Prop :=
  ∀ before select records, before ++ [select] <+: received → engine before select = .ok records →
    ∀ column values, .isIn column values ∈ select.conditions → ∀ r ∈ records,
      ∃ w literal, r.get? column = some w ∧ w.literal? = some literal ∧
        literal ∈ Condition.literals values

namespace Node

/-- A record of a child is joined to one of the node: the identifier and the value of the join field
have one literal. -/
structure Joined (n m : Node) (p r : Record) (v w : Value) : Prop where
  parent : p ∈ n.records
  child : r ∈ m.records
  identifier : p.get? n.entity.idField = some v
  field : ∃ field, n.entity.joinField? m.name = some field ∧ r.get? field = some w
  literal : ∃ literal, v.literal? = some literal ∧ w.literal? = some literal

/-- A record of a child that is joined at all is joined to a record whose identifier is a boolean
just if its own value is one. -/
def JoinsKinds (n m : Node) : Prop :=
  ∀ p r v w, n.Joined m p r v w → ∃ p' v', n.Joined m p' r v' w ∧ v'.isBool = w.isBool

theorem joinsKinds_of_not_isBool {n m : Node}
    (hn : ∀ p ∈ n.records, ∀ x ∈ p.toList, x.2.isBool = false)
    (hm : ∀ r ∈ m.records, ∀ x ∈ r.toList, x.2.isBool = false) : n.JoinsKinds m := by
  have hnot : ∀ (r : Record) (column : String) (v : Value),
      (∀ x ∈ r.toList, x.2.isBool = false) → r.get? column = some v → v.isBool = false := by
    intro r column v hr hv
    obtain ⟨x, hx, rfl⟩ := Option.map_eq_some_iff.mp hv
    exact hr x (Ordered.mem_of_find?_eq_some hx)
  intro p r v w joined
  obtain ⟨field, -, hw⟩ := joined.field
  refine ⟨p, v, joined, ?_⟩
  rw [hnot p _ v (hn p joined.parent) joined.identifier, hnot r _ w (hm r joined.child) hw]

theorem Joined.mem_matching {n m : Node} {p r : Record} {v w : Value} (h : n.Joined m p r v w)
    (hbool : v.isBool = w.isBool) : r ∈ n.matching p m := by
  obtain ⟨field, hfield, hw⟩ := h.field
  obtain ⟨literal, hvliteral, hwliteral⟩ := h.literal
  have hkeys : v.key? = w.key? := (Value.key?_eq_iff hvliteral hwliteral).mpr hbool
  have hpkey : p.key? n.entity.idField = v.key? := by
    rw [Record.key?, h.identifier, Option.bind_some]
  have hrkey : r.key? field = v.key? := by
    rw [Record.key?, hw, Option.bind_some, hkeys]
  obtain ⟨key, hkey⟩ := Value.exists_key? hvliteral
  rw [matching, hpkey, hkey, hfield]
  apply List.mem_filter.mpr ⟨h.child, _⟩
  rw [hrkey, hkey]
  exact beq_self_eq_true _

/-- Records were found by a visit that sent its query. -/
theorem exists_answer {engine : Engine} {received : List Select} {link : Option Link}
    {hasChildren : Bool} {n : Node} {r : Record}
    (h : r ∈ (n.run engine received link hasChildren).node.records) :
    ∃ compiled, n.compile hasChildren link = .ok compiled ∧ compiled.skipped = false ∧
      (n.run engine received link hasChildren).received = received ++ [compiled.select] ∧
      engine received compiled.select =
        .ok (n.run engine received link hasChildren).node.records := by
  obtain ⟨e, -, hrun⟩ | ⟨compiled, -, -, hrun⟩ | ⟨compiled, records, hcompile, hsent, hanswer,
    hrun⟩ | ⟨compiled, message, -, -, -, hrun⟩ := n.run_cases engine received link hasChildren
  · rw [hrun] at h
    cases h
  · rw [hrun] at h
    cases h
  · rw [hrun]
    exact ⟨compiled, hcompile, hsent, rfl, hanswer⟩
  · rw [hrun] at h
    cases h

/-- A record of a child was asked for by the literal of an identifier of its parent. -/
theorem exists_joined {engine : Engine} {all received past : List Select} {link : Option Link}
    {hasChildren below : Bool} {n m p : Node} {field : String} {r : Record}
    (hp : p = (n.run engine received link hasChildren).node)
    (hfield : n.entity.joinField? m.name = some field) (asked : engine.AnswersAsked all)
    (hreceived : (m.run engine past (some ⟨field, p.identifiers⟩) below).received <+: all)
    (hr : r ∈ (m.run engine past (some ⟨field, p.identifiers⟩) below).node.records) :
    ∃ q v w, p.Joined (m.run engine past (some ⟨field, p.identifiers⟩) below).node q r v w := by
  obtain ⟨compiled, hcompile, hskipped, hsent, hanswer⟩ := exists_answer hr
  have hlist : .isIn field p.identifiers ∈ compiled.select.conditions := by
    rw [hp] at hcompile ⊢
    rw [conditions_of_compile hcompile hskipped]
    exact List.mem_cons_self
  obtain ⟨w, literal, hw, hwliteral, hmem⟩ :=
    asked _ _ _ (hsent ▸ hreceived) hanswer _ _ hlist r hr
  -- the literals of the list are those of the identifiers
  rw [hp, literals_identifiers_run, ← hp, List.mem_eraseDups, identifierLiterals,
    List.mem_filterMap] at hmem
  obtain ⟨q, hq, hbind⟩ := hmem
  obtain ⟨v, hv, hvliteral⟩ := Option.bind_eq_some_iff.mp hbind
  refine ⟨q, v, w, hq, hr, hv, ⟨field, ?_, hw⟩, literal, hvliteral, hwliteral⟩
  obtain ⟨records, hrun⟩ := m.node_run engine past (some ⟨field, p.identifiers⟩) below
  rw [hrun, hp, n.entity_run]
  exact hfield

end Node

namespace Forest

theorem joined_run {catalog : Metadata} {forest : Forest} (read : forest.IsRead catalog)
    {engine : Engine} (asked : engine.AnswersAsked (forest.received engine)) :
    ∀ t ∈ (Forest.run engine forest).1, t.Everywhere fun n cs =>
      ∀ c ∈ cs, ∀ r ∈ c.label.records, ∃ p v w, n.Joined c.label p r v w := by
  obtain ⟨before, hrun, hreceived⟩ := exists_visits read engine
  have hvisits : ∀ t ∈ forest.visits engine before, t.Everywhere fun v cs => ∀ c ∈ cs,
      c.label.received <+: forest.received engine →
      ∀ r ∈ c.label.node.records, ∃ p x y, v.node.Joined c.label.node p r x y := by
    intro t' ht'
    obtain ⟨t, ht, rfl⟩ := List.mem_map.mp ht'
    apply Tree.everywhere_visits (read.resolved.everywhere t ht)
    intro n cs before link here inside c' hc' hsent r hr
    obtain ⟨c, hc, rfl⟩ := List.mem_map.mp hc'
    obtain ⟨field, hfield, hchild⟩ :=
      Tree.visitChild_run here hc engine before (before []) link (!cs.isEmpty)
    obtain ⟨m, ms⟩ := c
    rw [hchild, Tree.visits_node, Tree.label_node] at hsent hr ⊢
    exact Node.exists_joined rfl hfield asked hsent hr
  intro t' ht'
  rw [hrun] at ht'
  obtain ⟨t, ht, rfl⟩ := List.mem_map.mp ht'
  apply Tree.Everywhere.map
  refine ((hvisits t ht).and (hreceived t ht).labels).mono ?_
  rintro v cs ⟨hjoined, hsent⟩ c' hc' r hr
  obtain ⟨c, hc, rfl⟩ := List.mem_map.mp hc'
  obtain ⟨w, ws⟩ := c
  exact hjoined _ hc (hsent _ hc) r hr

theorem nests_run {catalog : Metadata} {forest : Forest} (read : forest.IsRead catalog)
    {engine : Engine} (asked : engine.AnswersAsked (forest.received engine))
    (kinds : ∀ t ∈ (Forest.run engine forest).1, t.Everywhere fun n cs =>
      ∀ c ∈ cs, n.JoinsKinds c.label) :
    ∀ t ∈ (Forest.run engine forest).1, t.Everywhere fun n cs =>
      ∀ c ∈ cs, ∀ r ∈ c.label.records, Tree.Nests (.node n cs) c r := by
  intro t ht
  have hjoined := joined_run read asked t ht
  have hshaped := shaped_run read engine t ht
  refine ((hjoined.and (kinds t ht)).and hshaped).mono ?_
  rintro n cs ⟨⟨hjoined, hkinds⟩, hshaped⟩ c hc r hr
  obtain ⟨q, u, w, asked⟩ := hjoined c hc r hr
  obtain ⟨p, v, joined, hbool⟩ := hkinds c hc q r u w asked
  refine ⟨p, joined.parent, _, (hshaped p).child c hc, ?_⟩
  exact List.mem_map_of_mem (joined.mem_matching hbool)

/-- If the received statements are answered with records that were asked for, and every record that
is joined to a parent is joined to one of its own kind, then every record that was found stands in
the data where its node stands in the forest: a record of a root in the list of the root, and any
other in the object of a record of its parent. -/
theorem stitched_run {catalog : Metadata} {forest : Forest} (read : forest.IsRead catalog)
    {engine : Engine} (asked : engine.AnswersAsked (forest.received engine))
    (kinds : ∀ t ∈ (Forest.run engine forest).1, t.Everywhere fun n cs =>
      ∀ c ∈ cs, n.JoinsKinds c.label) :
    let found := (Forest.run engine forest).1
    ∀ keys t, found.Reaches keys t →
      (∀ r ∈ t.label.records, found.assemble.Holds keys (t.assemble r)) ∧
      ∀ c ∈ t.children, ∀ r ∈ c.label.records, t.Nests c r := by
  intro found
  have hnests : ∀ keys t, found.Reaches keys t →
      ∀ c ∈ t.children, ∀ r ∈ c.label.records, t.Nests c r := by
    intro keys t reached
    have everywhere := reached.everywhere (nests_run read asked kinds)
    obtain ⟨n, cs⟩ := t
    exact everywhere.here
  intro keys t reached
  refine ⟨?_, hnests keys t reached⟩
  -- the way down to a record follows the way down to its node
  induction reached with
  | @root t mem =>
    intro r hr
    have hfind : Keyed.find? Prod.fst t.label.outputKey found.assemble =
        some (t.label.outputKey, t.assembleAll) := by
      apply find?_assemble _ mem
      rw [outputKey_run read engine]
      exact read.resolved.distinct
    exact .inside .here hfind (List.mem_map_of_mem hr)
  | @child keys t c above mem ih =>
    intro r hr
    obtain ⟨p, hp, items, hfind, hobject⟩ := hnests keys t above c mem r hr
    exact .inside (ih p hp) hfind hobject

end Forest

/-! ### Players and their teams -/

namespace Roster

def lists (s : Select) (r : Record) : Bool :=
  s.conditions.all fun
    | .isIn column values =>
      ((r.get? column).bind Value.literal?).any (Condition.literals values).contains
    | _ => true

def store (rows : String → List Record) : Engine :=
  fun _ s => .ok ((rows s.table).filter (lists s))

theorem answersAsked_store (rows : String → List Record) (received : List Select) :
    (store rows).AnswersAsked received := by
  intro _ select records _ hanswer column values hlist r hr
  cases hanswer
  have hlists := List.all_eq_true.mp (List.mem_filter.mp hr).2 _ hlist
  obtain ⟨literal, hliteral, hcontains⟩ := Option.any_eq_true _ _ |>.mp hlists
  obtain ⟨w, hw, hwliteral⟩ := Option.bind_eq_some_iff.mp hliteral
  exact ⟨w, literal, hw, hwliteral, List.contains_iff_mem.mp hcontains⟩

def ann : Record := .ofList [("Name", .text "Ann"), ("TeamId", .int 1)]

def oneTeam (id : Value) : Record := .ofList [("Id", id), ("City", .text "Oslo")]

def rows (id : Value) : String → List Record
  | "Team" => [oneTeam id]
  | "Player" => [ann]
  | _ => []

def found (id : Value) : Forest :=
  [.node (teams.answered [oneTeam id]) [.node ((players "Players" .empty).answered [ann]) []]]

end Roster

open Roster in
theorem Forest.stitched_run_roster :
    (Forest.run (store (rows (.int 1))) joined).1.assemble.Holds ["Team", "Players"]
      [("Name", .str "Ann")] := by
  have hfound : (Forest.run (store (rows (.int 1))) joined).1 = found (.int 1) := by rfl
  have kinds : ∀ t ∈ (Forest.run (store (rows (.int 1))) joined).1, t.Everywhere fun n cs =>
      ∀ c ∈ cs, n.JoinsKinds c.label := by
    rw [hfound]
    intro t ht
    rw [List.mem_singleton.mp ht]
    apply Tree.Everywhere.node
    · intro c hc
      rw [List.mem_singleton.mp hc]
      apply Node.joinsKinds_of_not_isBool
      · decide +kernel
      · decide +kernel
    · intro c hc
      rw [List.mem_singleton.mp hc]
      exact .node nofun nofun
  have reached : (Forest.run (store (rows (.int 1))) joined).1.Reaches ["Team", "Players"]
      (.node ((players "Players" .empty).answered [ann]) []) := by
    rw [hfound]
    have root := Forest.Reaches.root (List.mem_singleton_self _ : _ ∈ found (.int 1))
    exact root.child (List.mem_singleton_self _)
  obtain ⟨hholds, -⟩ :=
    Forest.stitched_run joined_isRead (answersAsked_store _ _) kinds _ _ reached
  exact hholds ann (List.mem_singleton_self _)

open Roster in
/-- A team with a boolean as its identifier asks for a player that it does not find again. -/
theorem Forest.stitched_run_lost :
    joined.IsRead catalog ∧
    (store (rows (.bool true))).AnswersAsked (joined.received (store (rows (.bool true)))) ∧
    ∃ t ∈ (Forest.run (store (rows (.bool true))) joined).1, ∃ c ∈ t.children,
      ann ∈ c.label.records ∧ ¬ t.Nests c ann := by
  have hfound : (Forest.run (store (rows (.bool true))) joined).1 = found (.bool true) := by rfl
  refine ⟨joined_isRead, answersAsked_store _ _, ?_⟩
  rw [hfound]
  refine ⟨_, List.mem_singleton_self _, _, List.mem_singleton_self _, List.mem_singleton_self _, ?_⟩
  rintro ⟨p, hp, items, hfind, hmem⟩
  -- the team has a list of players, and nobody is in it
  rw [List.mem_singleton.mp hp] at hfind
  cases hfind
  cases hmem

end NestedQuery
