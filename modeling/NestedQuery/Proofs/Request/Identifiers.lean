import NestedQuery.Proofs.Request.Endings

/-!
# What children are asked for

The query of a child node is sent with the identifiers of the records of its parent, or it is not
sent at all. Which values have a literal and which literals repeat is decided at two places: when
the identifiers of the records are collected, and when the join condition is written. The two agree
(`Node.literals_identifiersOf`, `Node.values_identifiers_run`).

## Main result

`Forest.visits_feed`: in a run of a forest, a node without identifiers silences everything below it,
and the query of every other child asks for the literals of its parent's identifiers, each once and
in the order in which they were found.
-/

namespace NestedQuery

namespace Node

variable {engine : Engine} {received : List Select} {link : Option Link} {hasChildren : Bool}
  {n : Node}

/-- The literals of the identifiers of a node's records, with repetitions. -/
def identifierLiterals (n : Node) : List String :=
  n.records.filterMap fun r => (r.get? n.entity.idField).bind Value.literal?

theorem filterMap_literal?_distinctLiterals (seen : List String) (values : List Value) :
    (distinctLiterals seen values).filterMap Value.literal? =
      ((values.filterMap Value.literal?).removeAll seen).eraseDups := by
  induction values generalizing seen with
  | nil => simp [distinctLiterals, List.removeAll]
  | cons v rest ih =>
    rw [distinctLiterals]
    cases hliteral : v.literal? with
    | none => simp [hliteral, ih]
    | some literal =>
      rw [List.filterMap_cons_some hliteral, List.cons_removeAll]
      by_cases hseen : literal ∈ seen
      · simp [hseen, ih]
      · -- from here on the literal counts as seen, which is to take it out of the rest
        have hrest : (rest.filterMap Value.literal?).removeAll (literal :: seen) =
            ((rest.filterMap Value.literal?).removeAll seen).filter fun l => !l == literal := by
          simp [List.removeAll, List.filter_filter, Bool.beq_eq_decide_eq]
        have hcontains : seen.contains literal = false := by simpa using hseen
        simp only [hcontains, Bool.false_eq_true, ↓reduceIte]
        rw [List.filterMap_cons_some hliteral, ih, hrest, List.eraseDups_cons]

theorem isSome_literal?_of_mem_distinctLiterals {seen : List String} {values : List Value}
    {v : Value} (h : v ∈ distinctLiterals seen values) : v.literal?.isSome := by
  induction values generalizing seen with
  | nil => cases h
  | cons w rest ih =>
    rw [distinctLiterals] at h
    cases hliteral : w.literal? with
    | none =>
      rw [hliteral] at h
      exact ih h
    | some literal =>
      simp only [hliteral] at h
      split at h
      · exact ih h
      · rcases List.mem_cons.mp h with rfl | h
        · simp [hliteral]
        · exact ih h

/-- The identifiers that are kept have all the literals, in the order of their first appearance. -/
theorem literals_identifiersOf (idField : String) (records : List Record) :
    Condition.literals (identifiersOf idField records) =
      (records.filterMap fun r => (r.get? idField).bind Value.literal?).eraseDups := by
  rw [identifiersOf, Condition.literals, filterMap_literal?_distinctLiterals,
    List.filterMap_filterMap, List.removeAll, List.filter_eq_self.mpr (by simp)]

theorem literals_identifiers_run (engine : Engine) (received : List Select) (link : Option Link)
    (hasChildren : Bool) (n : Node) :
    Condition.literals (n.run engine received link hasChildren).node.identifiers =
      (n.run engine received link hasChildren).node.identifierLiterals.eraseDups := by
  obtain ⟨records, hrun⟩ := n.node_run engine received link hasChildren
  rw [hrun]
  exact literals_identifiersOf n.entity.idField records

theorem values_identifiers_run (engine : Engine) (received : List Select) (link : Option Link)
    (hasChildren : Bool) (n : Node) (field : String) :
    (Link.mk field (n.run engine received link hasChildren).node.identifiers).values =
      (n.run engine received link hasChildren).node.identifiers := by
  obtain ⟨records, hrun⟩ := n.node_run engine received link hasChildren
  rw [hrun, Link.values, List.filter_eq_self]
  exact fun v hv => isSome_literal?_of_mem_distinctLiterals hv

theorem identifiers_run_eq_nil (engine : Engine) (received : List Select) (link : Option Link)
    (hasChildren : Bool) (n : Node) :
    (n.run engine received link hasChildren).node.identifiers = [] ↔
      (n.run engine received link hasChildren).node.identifierLiterals = [] := by
  have hliterals := n.literals_identifiers_run engine received link hasChildren
  constructor
  · intro h
    rw [h] at hliterals
    exact List.eq_nil_iff_forall_not_mem.mpr fun l hl => by
      have hmem := List.mem_eraseDups.mpr hl
      rw [← hliterals] at hmem
      cases hmem
  · intro h
    rw [h, Condition.literals, List.eraseDups_nil, List.filterMap_eq_nil_iff] at hliterals
    refine List.eq_nil_iff_forall_not_mem.mpr fun v hv => ?_
    rw [← n.values_identifiers_run engine received link hasChildren ""] at hv
    have hsome := (List.mem_filter.mp hv).2
    rw [hliterals v (List.mem_filter.mp hv).1] at hsome
    cases hsome

theorem sent_run {compiled : Compiled} (h : n.compile hasChildren link = .ok compiled)
    (hsent : compiled.skipped = false) :
    (n.run engine received link hasChildren).log.sent = [compiled.select.render] := by
  obtain ⟨e, hcompile, -⟩ | ⟨other, hcompile, hskipped, -⟩ | ⟨other, records, hcompile, -, -, hrun⟩ |
    ⟨other, message, hcompile, -, -, hrun⟩ := n.run_cases engine received link hasChildren
  · rw [h] at hcompile
    cases hcompile
  · rw [h] at hcompile
    cases hcompile
    rw [hsent] at hskipped
    cases hskipped
  · rw [h] at hcompile
    cases hcompile
    rw [hrun]
    rfl
  · rw [h] at hcompile
    cases hcompile
    rw [hrun]
    rfl

theorem conditions_of_compile {m : Node} {below : Bool} {field : String} {compiled : Compiled}
    (h : m.compile below
      (some ⟨field, (n.run engine received link hasChildren).node.identifiers⟩) = .ok compiled)
    (hsent : compiled.skipped = false) :
    compiled.select.conditions =
      .isIn field (n.run engine received link hasChildren).node.identifiers ::
        (m.joinedFields (some field)).filterMap m.condition? := by
  rw [skipped_of_compile h, Option.any_some, values_identifiers_run] at hsent
  rw [compile_ok h]
  simp only [joinConditions, values_identifiers_run, hsent, Bool.false_eq_true, ↓reduceIte]
  rfl

theorem sent_run_none (engine : Engine) (received : List Select) (hasChildren : Bool) (n : Node) :
    (n.run engine received none hasChildren).log.sent =
      (n.run engine received none hasChildren).log.queries := by
  obtain ⟨e, -, hrun⟩ | ⟨compiled, hcompile, hskipped, -⟩ | ⟨compiled, records, -, -, -, hrun⟩ |
    ⟨compiled, message, -, -, -, hrun⟩ := n.run_cases engine received none hasChildren
  · rw [hrun]
    rfl
  · rw [skipped_of_compile hcompile] at hskipped
    cases hskipped
  · rw [hrun]
    rfl
  · rw [hrun]
    rfl

end Node

namespace Visit

/-- What a visit means for the visits of a child. -/
structure Feeds (v : Visit) (c : Tree Visit) : Prop where
  silent : v.node.identifierLiterals = [] → c.Everywhere fun w _ => w.Silent
  sent : v.node.identifierLiterals ≠ [] → c.label.node.fault? = none →
    ∃ (field : String) (select : Select) (values : List Value),
      v.node.entity.joinField? c.label.node.name = some field ∧
      c.label.log.sent = [select.render] ∧
      select.conditions = .isIn field values ::
        (c.label.node.joinedFields (some field)).filterMap c.label.node.condition? ∧
      Condition.literals values = v.node.identifierLiterals.eraseDups

end Visit

namespace Tree

variable {catalog : Metadata} {engine : Engine} {t : Tree Node}

theorem feeds_visitChild {n : Node} {cs : List (Tree Node)} {c : Tree Node}
    (resolved : Forest.ResolvedAt catalog n cs) (hc : c ∈ cs)
    (below : c.Everywhere (Forest.ResolvedAt catalog)) (before : Past) (received : List Select)
    (link : Option Link) (hasChildren : Bool) :
    (n.run engine received link hasChildren).Feeds
      (visitChild engine before (n.run engine received link hasChildren).node c) := by
  obtain ⟨field, hfield, hvisits⟩ :=
    visitChild_run resolved hc engine before received link hasChildren
  rw [hvisits]
  constructor
  · intro hnil
    rw [← n.identifiers_run_eq_nil engine received link hasChildren] at hnil
    exact silent_visits engine below _ hnil
  · intro hne hfault
    obtain ⟨m, ms⟩ := c
    generalize before.below _ = before at hfault ⊢
    obtain ⟨records, hrun⟩ := m.node_run engine (before [])
      (some ⟨field, (n.run engine received link hasChildren).node.identifiers⟩) (!ms.isEmpty)
    rw [visits_node, label_node, hrun] at hfault
    obtain ⟨compiled, hcompile⟩ := Node.exists_compiled (n := m) hfault (!ms.isEmpty)
      (some ⟨field, (n.run engine received link hasChildren).node.identifiers⟩)
    have hsent : compiled.skipped = false := by
      rw [Node.skipped_of_compile hcompile, Option.any_some, Node.values_identifiers_run,
        List.isEmpty_eq_false_iff]
      exact fun hnil => hne ((n.identifiers_run_eq_nil engine received link hasChildren).mp hnil)
    refine ⟨field, compiled.select, (n.run engine received link hasChildren).node.identifiers,
      ?_, ?_, ?_, n.literals_identifiers_run engine received link hasChildren⟩
    · rw [visits_node, label_node, hrun, n.entity_run]
      exact hfield
    · rw [visits_node, label_node]
      exact Node.sent_run hcompile hsent
    · rw [visits_node, label_node, hrun]
      exact Node.conditions_of_compile hcompile hsent

end Tree

namespace Forest

/-- In a run of a forest the visits have the nodes of the forest in their places. The query of a
root is sent if it is on record. Below a node whose records have no identifier with a literal
nothing is sent and nothing is found. Any other child whose arguments are not at fault is sent one
query, which is joined to the identifiers of its parent's records: its condition lists their
literals, each once and in order of first appearance. What is sent is what the store receives. -/
theorem visits_feed {catalog : Metadata} {forest : Forest} (read : forest.IsRead catalog)
    (engine : Engine) :
    ∃ before, Forest.run engine forest = Tree.outcome (forest.visits engine before) ∧
      (Forest.received engine forest).map Select.render = (Forest.run engine forest).2.sent ∧
      (forest.visits engine before).map (Tree.map fun v => v.node.unanswered) = forest ∧
      ∀ t ∈ forest.visits engine before, t.label.log.sent = t.label.log.queries ∧
        t.Everywhere fun v cs => ∀ c ∈ cs, v.Feeds c := by
  obtain ⟨before, hrun, -⟩ := exists_visits read engine
  refine ⟨before, hrun, (sent_run read engine).symm, unanswered_visits read engine before, ?_⟩
  intro t' ht'
  obtain ⟨t, ht, rfl⟩ := List.mem_map.mp ht'
  have resolved := read.resolved.everywhere t ht
  constructor
  · obtain ⟨n, cs⟩ := t
    rw [Tree.visits_node, Tree.label_node]
    exact n.sent_run_none engine _ _
  · apply Tree.everywhere_visits resolved
    intro n cs before link here inside c' hc'
    obtain ⟨c, hc, rfl⟩ := List.mem_map.mp hc'
    exact Tree.feeds_visitChild here hc (inside c hc) before _ link _

end Forest

/-! ### Teams with one literal -/

namespace Roster

def joined : Forest := [.node teams [.node (players "Players" .empty) []]]

theorem joined_isRead : joined.IsRead catalog :=
  ⟨32, [.word "Team".toList, .opening, .word "City".toList, .word "Players".toList, .opening,
    .word "Name".toList, .closing, .closing, .closing], [], by decide +kernel⟩

/-- Two of the identifiers have the literal `1`, and two have none. -/
def identifiers : List Value := [.int 1, .null, .bool true, .real ⟨0x7ff8000000000000⟩, .text "a"]

def answer (s : Select) : Except String (List Record) :=
  if s.table = team.name then .ok (identifiers.map fun v => .ofList [("Id", v)]) else .ok []

end Roster

open Roster in
theorem Forest.visits_feed_roster :
    ∃ before, ∃ t ∈ joined.visits (fun _ => answer) before,
      t.label.node.identifierLiterals = ["1", "1", "'a'"] ∧
      ∃ c ∈ t.children, t.label.Feeds c ∧
        c.label.log.sent = ["SELECT Name, TeamId FROM Player WHERE TeamId IN (1,'a')"] := by
  obtain ⟨before, -, -, -, feeds⟩ := Forest.visits_feed joined_isRead fun _ => answer
  refine ⟨before, _, List.mem_cons_self, rfl, _, List.mem_cons_self, ?_, rfl⟩
  exact (feeds _ List.mem_cons_self).2.here _ List.mem_cons_self

end NestedQuery
