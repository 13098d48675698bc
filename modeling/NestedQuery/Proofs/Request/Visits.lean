import Mathlib.Data.List.Basic
import NestedQuery.Proofs.Request.Resolved
import NestedQuery.Proofs.Select.Fields
import NestedQuery.Request.Execution

/-!
# Visits

A run takes up the nodes of a forest one after the other. What a visit can do is said once, in
`Node.run_cases`. `Forest.visits` keeps what happened to each node at its own place: the node as the
visit left it, the part of the log that the visit wrote, and what the store had been sent by then.

A store may say something else to a statement that it was sent before. So the visits depend on what
it was sent before each of them (`Past`). Seen from one place this is a list like any other, and the
visits of siblings have nothing to do with each other. A property of single visits is carried over
to all of them by `Tree.everywhere_visits`.
-/

namespace NestedQuery

/-! ### Places in a tree -/

namespace Tree

variable {α β : Type}

mutual

def map (f : α → β) : Tree α → Tree β
  | .node a cs => .node (f a) (mapAll f cs)

def mapAll (f : α → β) : List (Tree α) → List (Tree β)
  | [] => []
  | c :: cs => map f c :: mapAll f cs

end

theorem mapAll_eq_map (f : α → β) (cs : List (Tree α)) : mapAll f cs = cs.map (map f) := by
  induction cs with
  | nil => rfl
  | cons c cs ih => rw [mapAll, List.map_cons, ih]

theorem preorderAll_eq_flatMap (cs : List (Tree α)) : preorderAll cs = cs.flatMap preorder := by
  induction cs with
  | nil => rfl
  | cons c cs ih => rw [preorderAll, List.flatMap_cons, ih]

theorem map_map {γ : Type} (f : α → β) (g : β → γ) (t : Tree α) :
    (t.map f).map g = t.map (g ∘ f) := by
  induction t using Tree.induction with
  | node a cs ih =>
    simp only [map, mapAll_eq_map, List.map_map]
    exact congrArg _ (List.map_congr_left ih)

theorem Everywhere.of_map {f : α → β} {P : β → List (Tree β) → Prop} {t : Tree α}
    (h : (t.map f).Everywhere P) : t.Everywhere fun a cs => P (f a) (cs.map (map f)) := by
  induction t using Tree.induction with
  | node a cs ih =>
    rw [map, mapAll_eq_map] at h
    exact .node h.here fun c hc => ih c hc (h.inside _ (List.mem_map_of_mem hc))

theorem Everywhere.map {f : α → β} {P : β → List (Tree β) → Prop} {t : Tree α}
    (h : t.Everywhere fun a cs => P (f a) (cs.map (map f))) : (t.map f).Everywhere P := by
  induction t using Tree.induction with
  | node a cs ih =>
    rw [Tree.map, mapAll_eq_map]
    apply Everywhere.node h.here
    intro c' hc'
    obtain ⟨c, hc, rfl⟩ := List.mem_map.mp hc'
    exact ih c hc (h.inside c hc)

theorem Everywhere.labels {P : α → Prop} {t : Tree α} (h : t.Everywhere fun a _ => P a) :
    t.Everywhere fun _ cs => ∀ c ∈ cs, P c.label := by
  induction t using Tree.induction with
  | node a cs ih =>
    refine .node (fun c hc => ?_) fun c hc => ih c hc (h.inside c hc)
    obtain ⟨b, bs⟩ := c
    exact (h.inside _ hc).here

/-- The label at a place, which is given by the number of a child for every step down. -/
def at? (t : Tree α) : List Nat → Option α
  | [] => some t.label
  | i :: place => t.children[i]?.bind fun c => c.at? place

/-- The label at a place of a forest; the first number is that of a root. -/
def atAll? (forest : List (Tree α)) : List Nat → Option α
  | [] => none
  | i :: place => forest[i]?.bind fun t => t.at? place

end Tree

/-! ### What a visit does -/

namespace Log

/-- The queries that were compiled, and the nodes of which none could be compiled. -/
def accounted (log : Log) : Nat :=
  log.queries.length + log.errors.countP fun e => e.code == "InvalidArgument"

@[simp] theorem accounted_append (a b : Log) : accounted (a ++ b) = accounted a + accounted b := by
  simp only [accounted, queries_append, errors_append, List.length_append, List.countP_append]
  omega

/-- A store that had received `before` has received `after` behind the log, and the queries that the
log has as sent are the texts of what is new. -/
def Sends (before after : List Select) (log : Log) : Prop :=
  ∃ statements, after = before ++ statements ∧ log.sent = statements.map Select.render

theorem Sends.append {r s t : List Select} {a b : Log} (ha : Sends r s a) (hb : Sends s t b) :
    Sends r t (a ++ b) := by
  obtain ⟨first, rfl, hfirst⟩ := ha
  obtain ⟨rest, rfl, hrest⟩ := hb
  refine ⟨first ++ rest, List.append_assoc _ _ _, ?_⟩
  rw [sent_append, hfirst, hrest, List.map_append]

theorem Sends.isPrefix {before after : List Select} {log : Log} (h : Sends before after log) :
    before <+: after := by
  obtain ⟨statements, rfl, -⟩ := h
  exact List.prefix_append _ _

end Log

namespace Node

variable {engine : Engine} {link : Option Link} {hasChildren : Bool} {n : Node}

/-- A node that cannot be compiled has a bad page. -/
theorem code_of_compile {e : RequestError} (h : n.compile hasChildren link = .error e) :
    e.code = "InvalidArgument" := by
  obtain ⟨key, reason, rfl⟩ := eq_invalidArgument_of_fault? (fault?_of_compile_error h)
  rfl

/-- A query is skipped just if it has no identifiers to ask for. -/
theorem skipped_of_compile {compiled : Compiled} (h : n.compile hasChildren link = .ok compiled) :
    compiled.skipped = link.any fun l => l.values.isEmpty := by
  unfold compile at h
  simp only at h
  split at h
  · cases h
  · split at h
    · cases h
    · cases h
      rfl

theorem compileIn_of_error {e : RequestError} (h : n.compile hasChildren link = .error e)
    (log : Log) : n.compileIn hasChildren link log = (none, log ++ [.failed e]) := by
  rw [compileIn, h]

theorem compileIn_of_ok {compiled : Compiled} (h : n.compile hasChildren link = .ok compiled)
    (log : Log) :
    n.compileIn hasChildren link log = (some compiled, log ++ [.compiled compiled.text]) := by
  rw [compileIn, h]

/-- The four ends of a visit: the node is rejected, its query is skipped, answered or refused. -/
theorem run_cases (engine : Engine) (received : List Select) (link : Option Link)
    (hasChildren : Bool) (n : Node) :
    (∃ e, n.compile hasChildren link = .error e ∧
      n.run engine received link hasChildren =
        ⟨n.answered [], [.visited, .failed e], received⟩) ∨
    (∃ compiled, n.compile hasChildren link = .ok compiled ∧ compiled.skipped = true ∧
      n.run engine received link hasChildren =
        ⟨n.answered [], [.visited, .compiled compiled.text], received⟩) ∨
    (∃ compiled records, n.compile hasChildren link = .ok compiled ∧ compiled.skipped = false ∧
      engine received compiled.select = .ok records ∧
      n.run engine received link hasChildren =
        ⟨n.answered records, [.visited, .compiled compiled.text, .sent compiled.text],
          received ++ [compiled.select]⟩) ∨
    (∃ compiled message, n.compile hasChildren link = .ok compiled ∧ compiled.skipped = false ∧
      engine received compiled.select = .error message ∧
      n.run engine received link hasChildren =
        ⟨n.answered [], [.visited, .compiled compiled.text, .sent compiled.text,
          .failed (.execution message)], received ++ [compiled.select]⟩) := by
  cases hcompile : n.compile hasChildren link with
  | error e =>
    left
    exact ⟨e, rfl, by rw [run, compileIn_of_error hcompile]; rfl⟩
  | ok compiled =>
    right
    cases hskipped : compiled.skipped with
    | true =>
      left
      exact ⟨compiled, rfl, hskipped, by simp [run, compileIn_of_ok hcompile, send, hskipped]⟩
    | false =>
      right
      cases hanswer : engine received compiled.select with
      | ok records =>
        left
        exact ⟨compiled, records, rfl, hskipped, hanswer, by
          simp [run, compileIn_of_ok hcompile, send, hskipped, Engine.ask, hanswer]⟩
      | error message =>
        right
        exact ⟨compiled, message, rfl, hskipped, hanswer, by
          simp [run, compileIn_of_ok hcompile, send, hskipped, Engine.ask, hanswer]⟩

/-- A visit finds records for a node and changes nothing else. -/
theorem node_run (engine : Engine) (received : List Select) (link : Option Link)
    (hasChildren : Bool) (n : Node) :
    ∃ records, (n.run engine received link hasChildren).node = n.answered records := by
  obtain ⟨e, -, hrun⟩ | ⟨compiled, -, -, hrun⟩ | ⟨compiled, records, -, -, -, hrun⟩ |
    ⟨compiled, message, -, -, -, hrun⟩ := n.run_cases engine received link hasChildren
  all_goals exact ⟨_, congrArg Visit.node hrun⟩

theorem entity_run (engine : Engine) (received : List Select) (link : Option Link)
    (hasChildren : Bool) (n : Node) :
    (n.run engine received link hasChildren).node.entity = n.entity := by
  obtain ⟨records, hrun⟩ := n.node_run engine received link hasChildren
  rw [hrun, answered]

theorem sends_run (engine : Engine) (received : List Select) (link : Option Link)
    (hasChildren : Bool) (n : Node) :
    Log.Sends received (n.run engine received link hasChildren).received
      (n.run engine received link hasChildren).log := by
  obtain ⟨e, -, hrun⟩ | ⟨compiled, -, -, hrun⟩ | ⟨compiled, records, -, -, -, hrun⟩ |
    ⟨compiled, message, -, -, -, hrun⟩ := n.run_cases engine received link hasChildren
  · rw [hrun]
    exact ⟨[], (List.append_nil received).symm, rfl⟩
  · rw [hrun]
    exact ⟨[], (List.append_nil received).symm, rfl⟩
  · rw [hrun]
    exact ⟨[compiled.select], rfl, rfl⟩
  · rw [hrun]
    exact ⟨[compiled.select], rfl, rfl⟩

def unanswered (n : Node) : Node := { n with records := [], identifiers := [] }

theorem unanswered_answered (n : Node) (records : List Record) :
    (n.answered records).unanswered = n.unanswered := rfl

theorem Fresh.unanswered_eq (h : n.Fresh) : n.unanswered = n := by
  rw [unanswered, ← h.records, ← h.identifiers]

/-- Whatever a visit does, it compiles a query or reports why it cannot. -/
theorem accounted_run (engine : Engine) (received : List Select) (link : Option Link)
    (hasChildren : Bool) (n : Node) :
    (n.run engine received link hasChildren).log.accounted = 1 := by
  obtain ⟨e, hcompile, hrun⟩ | ⟨compiled, -, -, hrun⟩ | ⟨compiled, records, -, -, -, hrun⟩ |
    ⟨compiled, message, -, -, -, hrun⟩ := n.run_cases engine received link hasChildren
  · rw [hrun]
    simp [Log.accounted, Log.queries, Log.errors, code_of_compile hcompile]
  · rw [hrun]
    rfl
  · rw [hrun]
    rfl
  · rw [hrun]
    rfl

end Node

/-- A child that is in its place in the catalog is joined to its parent. -/
theorem Node.Under.exists_joinField {catalog : Metadata} {parent : Entity} {n : Node}
    (h : n.Under catalog (some parent)) : ∃ field, parent.joinField? n.name = some field := by
  cases h with
  | @child _ _ r related _ =>
    exact ⟨r.joinField, by rw [Entity.joinField?, related, Option.map_some]⟩

/-! ### The visits of a run -/

/-- Nothing was found at the visit, and nothing was sent. -/
structure Visit.Silent (v : Visit) : Prop where
  records : v.node.records = []
  identifiers : v.node.identifiers = []
  sent : v.log.sent = []

/-- Without identifiers to ask for, a visit is silent. -/
theorem Node.silent_run (engine : Engine) (received : List Select) (hasChildren : Bool) (n : Node)
    {l : Link} (h : l.identifiers = []) : (n.run engine received (some l) hasChildren).Silent := by
  have hskipped : ∀ compiled, n.compile hasChildren (some l) = .ok compiled →
      compiled.skipped = true := by
    intro compiled hcompile
    rw [skipped_of_compile hcompile]
    simp [Link.values, h]
  obtain ⟨e, -, hrun⟩ | ⟨compiled, -, -, hrun⟩ | ⟨compiled, records, hcompile, hsent, -, -⟩ |
    ⟨compiled, message, hcompile, hsent, -, -⟩ := n.run_cases engine received (some l) hasChildren
  · rw [hrun]
    exact ⟨rfl, rfl, rfl⟩
  · rw [hrun]
    exact ⟨rfl, rfl, rfl⟩
  · rw [hskipped compiled hcompile] at hsent
    cases hsent
  · rw [hskipped compiled hcompile] at hsent
    cases hsent

/-- How a child is joined to a node, if it is related to it. -/
def Node.linkTo? (parent : Node) (name : String) : Option Link :=
  (parent.entity.joinField? name).map fun field => ⟨field, parent.identifiers⟩

/-- What a store was sent before the visit at each place. A place is given by the output keys on the
way down to it. -/
abbrev Past := List String → List Select

namespace Past

/-- The past of the places below a key. -/
def below (before : Past) (key : String) : Past := fun keys => before (key :: keys)

/-- The past with another one at the root. -/
def atRoot (received : List Select) (before : Past) : Past
  | [] => received
  | keys => before keys

/-- The past with another one below a key. -/
def atKey (key : String) (first before : Past) : Past
  | k :: keys => if k = key then first keys else before (k :: keys)
  | [] => before []

variable {key k : String} {first before : Past}

theorem below_atKey (key : String) (first before : Past) :
    (atKey key first before).below key = first := by
  funext keys
  exact if_pos rfl

theorem below_atKey_of_ne (h : k ≠ key) : (atKey key first before).below k = before.below k := by
  funext keys
  exact if_neg h

end Past

namespace Tree

mutual

/-- The visits of the nodes of a tree, each at the place of its node. -/
def visits (engine : Engine) (before : Past) (link : Option Link) : Tree Node → Tree Visit
  | .node n cs =>
    let v := n.run engine (before []) link (!cs.isEmpty)
    .node v (visitsBelow engine before v.node cs)

def visitsBelow (engine : Engine) (before : Past) (parent : Node) :
    List (Tree Node) → List (Tree Visit)
  | [] => []
  | c :: cs =>
    visits engine (before.below c.label.outputKey) (parent.linkTo? c.label.name) c ::
      visitsBelow engine before parent cs

end

/-- The visits of a child of a node that was run. -/
def visitChild (engine : Engine) (before : Past) (parent : Node) (c : Tree Node) : Tree Visit :=
  c.visits engine (before.below c.label.outputKey) (parent.linkTo? c.label.name)

theorem visitsBelow_eq_map (engine : Engine) (before : Past) (parent : Node)
    (cs : List (Tree Node)) :
    visitsBelow engine before parent cs = cs.map (visitChild engine before parent) := by
  induction cs with
  | nil => rfl
  | cons c cs ih =>
    rw [visitsBelow, ih]
    rfl

theorem visits_node (engine : Engine) (before : Past) (link : Option Link) (n : Node)
    (cs : List (Tree Node)) :
    (Tree.node n cs).visits engine before link =
      .node (n.run engine (before []) link (!cs.isEmpty))
        (cs.map (visitChild engine before (n.run engine (before []) link (!cs.isEmpty)).node)) := by
  rw [visits, ← visitsBelow_eq_map]

section Resolved

variable {catalog : Metadata} {engine : Engine} {t : Tree Node}

/-- Every child of a node that was read is visited, with the identifiers that its parent was left
with. -/
theorem visitChild_run {n : Node} {cs : List (Tree Node)} {c : Tree Node}
    (resolved : Forest.ResolvedAt catalog n cs) (hc : c ∈ cs) (engine : Engine) (before : Past)
    (received : List Select) (link : Option Link) (hasChildren : Bool) :
    ∃ field, n.entity.joinField? c.label.name = some field ∧
      visitChild engine before (n.run engine received link hasChildren).node c =
        c.visits engine (before.below c.label.outputKey)
          (some ⟨field, (n.run engine received link hasChildren).node.identifiers⟩) := by
  obtain ⟨field, hfield⟩ := (resolved.children c hc).exists_joinField
  refine ⟨field, hfield, ?_⟩
  rw [visitChild, Node.linkTo?, n.entity_run, hfield, Option.map_some]

/-- What a visit of any node gives for its children holds everywhere in the visits of a run. -/
theorem everywhere_visits {P : Visit → List (Tree Visit) → Prop}
    (resolved : t.Everywhere (Forest.ResolvedAt catalog))
    (step : ∀ n cs before link, Forest.ResolvedAt catalog n cs →
      (∀ c ∈ cs, c.Everywhere (Forest.ResolvedAt catalog)) →
      P (n.run engine (before []) link (!cs.isEmpty))
        (cs.map (visitChild engine before (n.run engine (before []) link (!cs.isEmpty)).node)))
    (before : Past) (link : Option Link) : (t.visits engine before link).Everywhere P := by
  induction t using Tree.induction generalizing before link with
  | node n cs ih =>
    rw [visits_node]
    apply Everywhere.node (step n cs before link resolved.here resolved.inside)
    intro c' hc'
    obtain ⟨c, hc, rfl⟩ := List.mem_map.mp hc'
    exact ih c hc (resolved.inside c hc) _ _

/-- A run leaves every node in its place, and what was asked for as it was. -/
theorem unanswered_visits (resolved : t.Everywhere (Forest.ResolvedAt catalog)) (before : Past)
    (link : Option Link) : (t.visits engine before link).map (fun v => v.node.unanswered) = t := by
  induction t using Tree.induction generalizing before link with
  | node n cs ih =>
    have hcs : (cs.map (visitChild engine before
        (n.run engine (before []) link (!cs.isEmpty)).node)).map
          (map fun v => v.node.unanswered) = cs := by
      rw [List.map_map]
      refine (List.map_congr_left fun c hc => ?_).trans (List.map_id' cs)
      exact ih c hc (resolved.inside c hc) _ _
    obtain ⟨records, hrun⟩ := n.node_run engine (before []) link (!cs.isEmpty)
    rw [visits_node, map, mapAll_eq_map, hcs, hrun, Node.unanswered_answered,
      resolved.here.fresh.unanswered_eq]

/-- Below a node without identifiers all visits are silent. -/
theorem silent_visits (engine : Engine) (resolved : t.Everywhere (Forest.ResolvedAt catalog))
    (before : Past) {l : Link} (h : l.identifiers = []) :
    (t.visits engine before (some l)).Everywhere fun v _ => v.Silent := by
  induction t using Tree.induction generalizing before l with
  | node n cs ih =>
    have hsilent := n.silent_run engine (before []) (!cs.isEmpty) h
    rw [visits_node]
    apply Everywhere.node hsilent
    intro c' hc'
    obtain ⟨c, hc, rfl⟩ := List.mem_map.mp hc'
    obtain ⟨field, -, hvisits⟩ :=
      visitChild_run resolved.here hc engine before (before []) (some l) (!cs.isEmpty)
    rw [hvisits]
    exact ih c hc (resolved.inside c hc) _ hsilent.identifiers

end Resolved

/-- The nodes of a visited forest and the log of its visits. -/
def outcome (visits : List (Tree Visit)) : Forest × Log :=
  (visits.map (map Visit.node), (preorderAll visits).flatMap Visit.log)

end Tree

namespace Forest

/-- The visits of the nodes of a forest. -/
def visits (engine : Engine) (before : Past) (forest : Forest) : List (Tree Visit) :=
  forest.map fun t => t.visits engine (before.below t.label.outputKey) none

end Forest

end NestedQuery
