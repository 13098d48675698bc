import NestedQuery.Proofs.Request.Visits

/-!
# Runs

There are two ways to speak of a whole run. One is by its stretches, in the order in which things
happen: what can be said of every visit, and of two stretches together if it can be said of each,
can be said of the run (`Forest.stretch_run`). So a run accounts for every node of a forest that was
read (`Forest.accounted_run`), and the queries in its log are those that the store received
(`Forest.sent_run`).

The other one is by places: the forest and the log that a run ends with are two views of the visits
(`Forest.exists_visits`). So a run changes nothing but what the nodes found
(`Forest.unanswered_run`).
-/

namespace NestedQuery

/-! ### Stretches of a run -/

/-- What can be said of a stretch of a run: of the statements that the store was sent before, of the
nodes that are taken up, of what happens, and of the statements that the store was sent by its
end. -/
abbrev Stretch := List Select → List Node → Log → List Select → Prop

/-- It can be said of nothing, and of two stretches together if it can be said of each. -/
structure Stretch.Composes (Q : Stretch) : Prop where
  nil : ∀ received, Q received [] [] received
  append : ∀ {r s t : List Select} {ns ms : List Node} {a b : Log},
    Q r ns a s → Q s ms b t → Q r (ns ++ ms) (a ++ b) t

namespace Tree

variable {catalog : Metadata} {engine : Engine} {Q : Stretch} {P : Node → Option Link → Prop}

theorem stretch_runBelow (composes : Q.Composes) {parent : Node} {cs : List (Tree Node)}
    (related : ∀ c ∈ cs, ∃ field, parent.entity.joinField? c.label.name = some field ∧
      ∀ received, Q received c.preorder
        (c.run engine received (some ⟨field, parent.identifiers⟩)).2.1
        (c.run engine received (some ⟨field, parent.identifiers⟩)).2.2)
    (received : List Select) :
    Q received (preorderAll cs) (runBelow engine received parent cs).2.1
      (runBelow engine received parent cs).2.2 := by
  induction cs generalizing received with
  | nil => exact composes.nil received
  | cons c cs ih =>
    obtain ⟨field, hfield, hc⟩ := related c List.mem_cons_self
    have hcs := ih fun c hc => related c (List.mem_cons_of_mem _ hc)
    rw [runBelow, hfield]
    exact composes.append (hc received) (hcs _)

/-- What can be said of the visit of every node can be said of a whole run, if it composes. The
visits may be told apart by a property of the nodes and their links that is handed down. -/
theorem stretch_run (composes : Q.Composes)
    (step : ∀ n cs received link, P n link → Forest.ResolvedAt catalog n cs →
      Q received [n] (n.run engine received link (!cs.isEmpty)).log
        (n.run engine received link (!cs.isEmpty)).received)
    (below : ∀ n link m field identifiers, P n link → m.Under catalog (some n.entity) →
      n.entity.joinField? m.name = some field → P m (some ⟨field, identifiers⟩))
    {t : Tree Node} (resolved : t.Everywhere (Forest.ResolvedAt catalog)) (received : List Select)
    {link : Option Link} (here : P t.label link) :
    Q received t.preorder (t.run engine received link).2.1 (t.run engine received link).2.2 := by
  induction t using Tree.induction generalizing received link with
  | node n cs ih =>
    have hnode := step n cs received link here resolved.here
    refine composes.append hnode (stretch_runBelow composes ?_ _)
    intro c hc
    have under := resolved.here.children c hc
    obtain ⟨field, hfield⟩ := under.exists_joinField
    rw [n.entity_run]
    refine ⟨field, hfield, fun received => ?_⟩
    exact ih c hc (resolved.inside c hc) received (below n link _ field _ here under hfield)

end Tree

namespace Forest

variable {catalog : Metadata} {engine : Engine} {Q : Stretch} {P : Node → Option Link → Prop}
  {forest : Forest}

theorem stretch_runFrom (composes : Q.Composes)
    (trees : ∀ t ∈ forest, ∀ received, Q received t.preorder (t.run engine received none).2.1
      (t.run engine received none).2.2) (received : List Select) :
    Q received (Tree.preorderAll forest) (forest.runFrom engine received).2.1
      (forest.runFrom engine received).2.2 := by
  induction forest generalizing received with
  | nil => exact composes.nil received
  | cons t rest ih =>
    have ht := trees t List.mem_cons_self received
    exact composes.append ht (ih (fun t ht => trees t (List.mem_cons_of_mem _ ht)) _)

theorem stretch_run (read : forest.IsRead catalog) (composes : Q.Composes)
    (step : ∀ n cs received link, P n link → ResolvedAt catalog n cs →
      Q received [n] (n.run engine received link (!cs.isEmpty)).log
        (n.run engine received link (!cs.isEmpty)).received)
    (below : ∀ n link m field identifiers, P n link → m.Under catalog (some n.entity) →
      n.entity.joinField? m.name = some field → P m (some ⟨field, identifiers⟩))
    (roots : ∀ n, n.Under catalog none → P n none) :
    Q [] (Tree.preorderAll forest) (Forest.run engine forest).2 (forest.received engine) := by
  refine stretch_runFrom composes (fun t ht received => ?_) []
  exact Tree.stretch_run composes step below (read.resolved.everywhere t ht) received
    (roots _ (read.resolved.under t ht))

/-- Most of what can be said of a stretch does not depend on the places of its nodes. -/
theorem stretch_run_of_step (read : forest.IsRead catalog) (composes : Q.Composes)
    (step : ∀ n received link hasChildren, Q received [n]
      (n.run engine received link hasChildren).log
      (n.run engine received link hasChildren).received) :
    Q [] (Tree.preorderAll forest) (Forest.run engine forest).2 (forest.received engine) :=
  stretch_run (P := fun _ _ => True) read composes
    (fun n cs received link _ _ => step n received link (!cs.isEmpty))
    (fun _ _ _ _ _ _ _ _ => trivial) (fun _ _ => trivial)

/-- The queries that the log has as sent are the texts of what the store received. -/
theorem sent_run (read : forest.IsRead catalog) (engine : Engine) :
    (Forest.run engine forest).2.sent = (forest.received engine).map Select.render := by
  have composes : Stretch.Composes fun r _ log s => Log.Sends r s log :=
    ⟨fun received => ⟨[], (List.append_nil received).symm, rfl⟩, Log.Sends.append⟩
  obtain ⟨statements, hreceived, hsent⟩ := stretch_run_of_step read composes
    fun n received link _ => n.sends_run engine received link _
  rw [hsent, hreceived, List.nil_append]

/-- A run of a forest that was read accounts for every node in it. -/
theorem accounted_run (read : forest.IsRead catalog) (engine : Engine) :
    (Forest.run engine forest).2.accounted = (Tree.preorderAll forest).length := by
  have composes : Stretch.Composes fun _ nodes log _ => log.accounted = nodes.length := by
    refine ⟨fun _ => rfl, fun ha hb => ?_⟩
    rw [Log.accounted_append, ha, hb, List.length_append]
  exact stretch_run_of_step read composes fun n received link _ =>
    n.accounted_run engine received link _

end Forest

/-! ### Runs and visits -/

/-- A stretch of a run, from one list of received statements to another, ends with the nodes and the
log of its visits. At no visit had the store received anything that it has not received in the
end. -/
structure Tree.RanAs (visits : List (Tree Visit)) (start : List Select) (nodes : Forest) (log : Log)
    (received : List Select) : Prop where
  nodes : nodes = visits.map (map Visit.node)
  log : log = (preorderAll visits).flatMap Visit.log
  start : start <+: received
  received : ∀ t ∈ visits, t.Everywhere fun v _ => v.received <+: received

namespace Tree

variable {catalog : Metadata} {engine : Engine}

theorem RanAs.nil (received : List Select) : RanAs [] received [] [] received :=
  ⟨rfl, rfl, List.prefix_rfl, fun _ ht => nomatch ht⟩

theorem RanAs.append {as bs : List (Tree Visit)} {ns ms : Forest} {a b : Log} {r s t : List Select}
    (ha : RanAs as r ns a s) (hb : RanAs bs s ms b t) :
    RanAs (as ++ bs) r (ns ++ ms) (a ++ b) t where
  nodes := by rw [ha.nodes, hb.nodes, List.map_append]
  log := by
    rw [ha.log, hb.log, preorderAll_eq_flatMap, preorderAll_eq_flatMap, preorderAll_eq_flatMap,
      List.flatMap_append, List.flatMap_append]
  start := ha.start.trans hb.start
  received t ht := by
    rcases List.mem_append.mp ht with ht | ht
    · exact (ha.received t ht).mono fun v _ hv => hv.trans hb.start
    · exact hb.received t ht

/-- A node that was visited, with trees below it that were run. -/
theorem RanAs.node {v : Visit} {cs : List (Tree Visit)} {ns : Forest} {log : Log}
    {start received : List Select} (h : start <+: v.received)
    (below : RanAs cs v.received ns log received) :
    RanAs [.node v cs] start [.node v.node ns] (v.log ++ log) received where
  nodes := by rw [below.nodes, List.map_singleton, map, mapAll_eq_map]
  log := by
    rw [below.log, preorderAll, preorderAll, List.append_nil, preorder, List.flatMap_cons]
  start := h.trans below.start
  received t ht := by
    rw [List.mem_singleton.mp ht]
    exact .node below.start below.received

/-- Related children go through their visits if the run of each does. The keys of the children
differ, so that each may have a past of its own. -/
theorem exists_ranAs_runBelow {cs : List (Tree Node)} (parent : Node)
    (related : ∀ c ∈ cs, ∃ field, parent.entity.joinField? c.label.name = some field)
    (distinct : (cs.map fun c => c.label.outputKey).Nodup)
    (ran : ∀ c ∈ cs, ∀ received link, ∃ before, RanAs [c.visits engine before link] received
      [(c.run engine received link).1] (c.run engine received link).2.1
      (c.run engine received link).2.2)
    (received : List Select) :
    ∃ before, RanAs (cs.map (visitChild engine before parent)) received
      (runBelow engine received parent cs).1 (runBelow engine received parent cs).2.1
      (runBelow engine received parent cs).2.2 := by
  induction cs generalizing received with
  | nil => exact ⟨fun _ => [], .nil received⟩
  | cons c cs ih =>
    rw [List.map_cons, List.nodup_cons] at distinct
    obtain ⟨hnot, hdistinct⟩ := distinct
    obtain ⟨field, hfield⟩ := related c List.mem_cons_self
    have hlink : parent.linkTo? c.label.name = some ⟨field, parent.identifiers⟩ := by
      rw [Node.linkTo?, hfield, Option.map_some]
    obtain ⟨first, hfirst⟩ :=
      ran c List.mem_cons_self received (some ⟨field, parent.identifiers⟩)
    obtain ⟨before, hrest⟩ := ih (fun c hc => related c (List.mem_cons_of_mem _ hc)) hdistinct
      (fun c hc => ran c (List.mem_cons_of_mem _ hc))
      (c.run engine received (some ⟨field, parent.identifiers⟩)).2.2
    refine ⟨Past.atKey c.label.outputKey first before, ?_⟩
    have hc : visitChild engine (Past.atKey c.label.outputKey first before) parent c =
        c.visits engine first (some ⟨field, parent.identifiers⟩) := by
      rw [visitChild, Past.below_atKey, hlink]
    have hcs : cs.map (visitChild engine (Past.atKey c.label.outputKey first before) parent) =
        cs.map (visitChild engine before parent) := by
      refine List.map_congr_left fun d hd => ?_
      have hne : d.label.outputKey ≠ c.label.outputKey := by
        intro heq
        exact hnot (heq ▸ List.mem_map_of_mem hd)
      rw [visitChild, Past.below_atKey_of_ne hne, visitChild]
    rw [List.map_cons, hc, hcs, runBelow, hfield]
    exact hfirst.append hrest

/-- A run of a tree goes through visits of its nodes. The induction is on the tree, and the visits
of every child begin where those of the child before it have ended. -/
theorem exists_ranAs_run (engine : Engine) {t : Tree Node}
    (resolved : t.Everywhere (Forest.ResolvedAt catalog)) (received : List Select)
    (link : Option Link) :
    ∃ before, RanAs [t.visits engine before link] received [(t.run engine received link).1]
      (t.run engine received link).2.1 (t.run engine received link).2.2 := by
  induction t using Tree.induction generalizing received link with
  | node n cs ih =>
    have related : ∀ c ∈ cs, ∃ field,
        (n.run engine received link (!cs.isEmpty)).node.entity.joinField? c.label.name =
          some field := by
      intro c hc
      rw [n.entity_run]
      exact (resolved.here.children c hc).exists_joinField
    obtain ⟨before, hbelow⟩ := exists_ranAs_runBelow _ related resolved.here.distinct
      (fun c hc => ih c hc (resolved.inside c hc))
      (n.run engine received link (!cs.isEmpty)).received
    refine ⟨before.atRoot received, ?_⟩
    rw [visits_node]
    exact .node (n.sends_run engine received link _).isPrefix hbelow

end Tree

namespace Forest

theorem exists_ranAs_runFrom {catalog : Metadata} (engine : Engine) {forest : Forest}
    (distinct : (forest.map fun t => t.label.outputKey).Nodup)
    (resolved : ∀ t ∈ forest, t.Everywhere (ResolvedAt catalog)) (received : List Select) :
    ∃ before, Tree.RanAs (forest.visits engine before) received (forest.runFrom engine received).1
      (forest.runFrom engine received).2.1 (forest.runFrom engine received).2.2 := by
  induction forest generalizing received with
  | nil => exact ⟨fun _ => [], .nil received⟩
  | cons t rest ih =>
    rw [List.map_cons, List.nodup_cons] at distinct
    obtain ⟨hnot, hdistinct⟩ := distinct
    obtain ⟨first, hfirst⟩ :=
      Tree.exists_ranAs_run engine (resolved t List.mem_cons_self) received none
    obtain ⟨before, hrest⟩ := ih hdistinct (fun t ht => resolved t (List.mem_cons_of_mem _ ht))
      (t.run engine received none).2.2
    refine ⟨Past.atKey t.label.outputKey first before, ?_⟩
    have ht : visits engine (Past.atKey t.label.outputKey first before) (t :: rest) =
        t.visits engine first none :: visits engine before rest := by
      rw [visits, List.map_cons, Past.below_atKey]
      refine congrArg _ (List.map_congr_left fun u hu => ?_)
      have hne : u.label.outputKey ≠ t.label.outputKey := by
        intro heq
        exact hnot (heq ▸ List.mem_map_of_mem hu)
      rw [Past.below_atKey_of_ne hne]
    rw [ht]
    exact hfirst.append hrest

variable {catalog : Metadata} {forest : Forest}

/-- The nodes and the log of a run are those of its visits, whatever the store remembers. -/
theorem exists_visits (read : forest.IsRead catalog) (engine : Engine) :
    ∃ before, Forest.run engine forest = Tree.outcome (forest.visits engine before) ∧
      ∀ t ∈ forest.visits engine before, t.Everywhere fun v _ =>
        v.received <+: forest.received engine := by
  obtain ⟨before, ran⟩ :=
    exists_ranAs_runFrom engine read.resolved.distinct read.resolved.everywhere []
  exact ⟨before, Prod.ext ran.nodes ran.log, ran.received⟩

theorem unanswered_visits (read : forest.IsRead catalog) (engine : Engine) (before : Past) :
    (forest.visits engine before).map (Tree.map fun v => v.node.unanswered) = forest := by
  rw [visits, List.map_map]
  refine (List.map_congr_left fun t ht => ?_).trans (List.map_id' forest)
  exact Tree.unanswered_visits (read.resolved.everywhere t ht) _ none

theorem unanswered_run (read : forest.IsRead catalog) (engine : Engine) :
    (Forest.run engine forest).1.map (Tree.map Node.unanswered) = forest := by
  obtain ⟨before, hrun, -⟩ := exists_visits read engine
  have hvisits := unanswered_visits read engine before
  rw [hrun, Tree.outcome, List.map_map]
  refine (List.map_congr_left fun t _ => ?_).trans hvisits
  exact t.map_map Visit.node Node.unanswered

/-- But for what its nodes found, a forest is as resolved behind a run as before. -/
theorem resolved_run (read : forest.IsRead catalog) (engine : Engine) :
    ∀ t ∈ (Forest.run engine forest).1, t.Everywhere fun n cs =>
      ResolvedAt catalog n.unanswered (cs.map (Tree.map Node.unanswered)) := by
  intro t ht
  apply Tree.Everywhere.of_map
  apply read.resolved.everywhere
  rw [← unanswered_run read engine]
  exact List.mem_map_of_mem ht

end Forest

end NestedQuery
