import Mathlib.Data.List.Forall2
import NestedQuery.Proofs.Request.Meaning
import NestedQuery.Proofs.Request.Runs
import NestedQuery.Request.Assembly

/-!
# A query that is refused

Two stores answer alike but for one query, which the second one refuses. The runs of a forest
against them differ only at the nodes for which that query was sent, and below these.

A node is *hit* if the query was sent for it and for none of the nodes around it
(`Visit.Hit`). `Tree.Degraded` says how the two runs of a tree lie beside each other, from the root
down; `Forest.run_refused` says the same of every place of a forest.
-/

namespace NestedQuery

/-! ### Refused visits -/

namespace Node

variable {n : Node} {hasChildren : Bool} {received : List Select} {link : Option Link}

/-- Which query is sent for a node does not depend on the store. -/
theorem mem_sent_run {engine : Engine} {q : String} :
    q ∈ (n.run engine received link hasChildren).log.sent ↔
      ∃ compiled, n.compile hasChildren link = .ok compiled ∧ compiled.skipped = false ∧
        compiled.text = q := by
  obtain ⟨e, hcompile, hrun⟩ | ⟨compiled, hcompile, hskipped, hrun⟩ |
    ⟨compiled, records, hcompile, hskipped, -, hrun⟩ |
    ⟨compiled, message, hcompile, hskipped, -, hrun⟩ := n.run_cases engine received link hasChildren
  · simp [hrun, hcompile, Log.sent]
  · simp [hrun, hcompile, hskipped, Log.sent]
  · simpa [hrun, hcompile, hskipped, Log.sent] using eq_comm
  · simpa [hrun, hcompile, hskipped, Log.sent] using eq_comm

variable {answer answer' : String → Except String (List Record)} {q message : String}

/-- A visit that does not send the query is the same in both runs, but for what the stores were sent
before. -/
theorem run_of_not_sent (agree : ∀ text, text ≠ q → answer' text = answer text)
    (received' : List Select)
    (h : q ∉ (n.run (.ofText answer) received link hasChildren).log.sent) :
    (n.run (.ofText answer') received' link hasChildren).node =
        (n.run (.ofText answer) received link hasChildren).node ∧
      (n.run (.ofText answer') received' link hasChildren).log =
        (n.run (.ofText answer) received link hasChildren).log := by
  cases hcompile : n.compile hasChildren link with
  | error e => simp [run, compileIn_of_error hcompile, send]
  | ok compiled =>
    cases hskipped : compiled.skipped with
    | true => simp [run, compileIn_of_ok hcompile, send, hskipped]
    | false =>
      have htext : compiled.text ≠ q := fun htext =>
        h (mem_sent_run.mpr ⟨compiled, hcompile, hskipped, htext⟩)
      have hanswer : answer' compiled.select.render = answer compiled.select.render :=
        agree compiled.text htext
      simp only [run, compileIn_of_ok hcompile, send, hskipped, Bool.false_eq_true, ↓reduceIte,
        Engine.ask, Engine.ofText, hanswer]
      cases answer compiled.select.render <;> exact ⟨rfl, rfl⟩

/-- A visit that sends the query finds nothing in the second run, and reports the refusal. -/
theorem run_of_sent (refused : answer' q = .error message) (received' : List Select)
    (h : q ∈ (n.run (.ofText answer) received link hasChildren).log.sent) :
    (n.run (.ofText answer') received' link hasChildren).node = n.answered [] ∧
      (n.run (.ofText answer') received' link hasChildren).log =
        [.visited, .compiled q, .sent q, .failed (.execution message)] := by
  obtain ⟨compiled, hcompile, hskipped, rfl⟩ := mem_sent_run.mp h
  have hanswer : answer' compiled.select.render = .error message := refused
  simp [run, compileIn_of_ok hcompile, send, hskipped, Engine.ask, Engine.ofText, hanswer]

end Node

/-! ### Two runs of a tree -/

namespace Tree

/-- The visits of a tree in a run, and in another one in which `q` is refused. Where `q` was sent,
nothing is found in the second run, and nothing happens below; elsewhere both visits are the
same. -/
inductive Degraded (q message : String) : Tree Visit → Tree Visit → Prop where
  | hit {v v' : Visit} {cs cs' : List (Tree Visit)} (sent : q ∈ v.log.sent)
      (records : v'.node.records = []) (identifiers : v'.node.identifiers = [])
      (errors : v'.log.errors = [.execution message])
      (below : ∀ c ∈ cs', c.Everywhere fun v _ => v.Silent) :
      Degraded q message (.node v cs) (.node v' cs')
  | spared {v v' : Visit} {cs cs' : List (Tree Visit)} (spared : q ∉ v.log.sent)
      (node : v'.node = v.node) (log : v'.log = v.log)
      (below : List.Forall₂ (Degraded q message) cs cs') :
      Degraded q message (.node v cs) (.node v' cs')

variable {catalog : Metadata} {t : Tree Node}

/-- The two runs of a tree. By induction on the tree: a node for which `q` was not sent leaves the
same identifiers to its children in both runs. -/
theorem degraded_visits {answer answer' : String → Except String (List Record)} {q message : String}
    (agree : ∀ text, text ≠ q → answer' text = answer text) (refused : answer' q = .error message)
    (resolved : t.Everywhere (Forest.ResolvedAt catalog)) (before before' : Past)
    (link : Option Link) :
    Degraded q message (t.visits (.ofText answer) before link)
      (t.visits (.ofText answer') before' link) := by
  induction t using Tree.induction generalizing before before' link with
  | node n cs ih =>
    rw [visits_node, visits_node]
    by_cases hsent : q ∈ (n.run (.ofText answer) (before []) link (!cs.isEmpty)).log.sent
    · obtain ⟨hnode, hlog⟩ := Node.run_of_sent refused (before' []) hsent
      refine .hit hsent ?_ ?_ ?_ ?_
      · rw [hnode, Node.answered]
      · rw [hnode]
        rfl
      · rw [hlog]
        rfl
      · intro c' hc'
        -- a node without records has no identifiers to leave
        obtain ⟨c, hc, rfl⟩ := List.mem_map.mp hc'
        obtain ⟨field, -, hvisits⟩ := visitChild_run resolved.here hc (.ofText answer') before'
          (before' []) link (!cs.isEmpty)
        rw [hvisits]
        exact silent_visits _ (resolved.inside c hc) _ (hnode ▸ rfl)
    · obtain ⟨hnode, hlog⟩ := Node.run_of_not_sent agree (before' []) hsent
      refine .spared hsent hnode hlog ?_
      rw [hnode, List.forall₂_map_left_iff, List.forall₂_map_right_iff, List.forall₂_same]
      intro c hc
      exact ih c hc (resolved.inside c hc) _ _ _

end Tree

/-! ### Places that are hit -/

namespace Visit

/-- The query was sent at a place, and at no place above it. -/
def Hit (q : String) (visit : List Nat → Option Visit) (place : List Nat) : Prop :=
  (∃ v, visit place = some v ∧ q ∈ v.log.sent) ∧
    ∀ above, above <+: place → above ≠ place → ∀ v, visit above = some v → q ∉ v.log.sent

variable {q : String} {visit : List Nat → Option Visit} {i : Nat} {place : List Nat}

theorem hit_nil : Hit q visit [] ↔ ∃ v, visit [] = some v ∧ q ∈ v.log.sent := by
  constructor
  · rintro ⟨hsent, -⟩
    exact hsent
  · intro hsent
    refine ⟨hsent, ?_⟩
    -- nothing is above the root
    intro above habove hne
    exact absurd (List.prefix_nil.mp habove) hne

theorem not_hit_cons (h : ∃ v, visit [] = some v ∧ q ∈ v.log.sent) :
    ¬ Hit q visit (i :: place) := by
  rintro ⟨-, hnot⟩
  obtain ⟨v, hv, hsent⟩ := h
  exact hnot [] List.nil_prefix (by simp) v hv hsent

/-- A place below a node for which the query was not sent is hit just if it is hit in the tree of
the child. -/
theorem hit_cons (h : ∀ v, visit [] = some v → q ∉ v.log.sent) :
    Hit q visit (i :: place) ↔ Hit q (fun place => visit (i :: place)) place := by
  apply and_congr_right
  intro _
  constructor
  · intro hnot above habove hne
    exact hnot (i :: above) (List.cons_prefix_cons.mpr ⟨rfl, habove⟩) (by simpa using hne)
  · intro hnot above habove hne
    cases above with
    | nil => exact h
    | cons j above =>
      obtain ⟨rfl, hprefix⟩ := List.cons_prefix_cons.mp habove
      exact hnot above hprefix fun heq => hne (heq ▸ rfl)

/-- How the second of two visits at a place depends on where the query was sent in the run of the
first one: the same is found and happens unless the place or one above it is hit, a place that is
hit finds nothing and reports the refusal, and below such a place nothing is found and nothing is
sent. -/
structure Degrades (q message : String) (visit : List Nat → Option Visit) (place : List Nat)
    (v v' : Visit) : Prop where
  spared : (¬ ∃ above, above <+: place ∧ Hit q visit above) →
    v'.node = v.node ∧ v'.log = v.log
  hit : Hit q visit place → v'.node.records = [] ∧ v'.node.identifiers = [] ∧
    v'.log.errors = [.execution message]
  below : (∃ above, above <+: place ∧ above ≠ place ∧ Hit q visit above) → v'.Silent

variable {message : String} {v v' : Visit}

/-- The root is hit if the query was sent there, and spared otherwise. -/
theorem Degrades.of_root (hv : visit [] = some v)
    (sent : q ∈ v.log.sent → v'.node.records = [] ∧ v'.node.identifiers = [] ∧
      v'.log.errors = [.execution message])
    (spared : q ∉ v.log.sent → v'.node = v.node ∧ v'.log = v.log) :
    Degrades q message visit [] v v' where
  spared hnot := spared fun hsent => hnot ⟨[], List.prefix_rfl, hit_nil.mpr ⟨v, hv, hsent⟩⟩
  hit hhit := by
    obtain ⟨w, hw, hsent⟩ := hit_nil.mp hhit
    rw [hv, Option.some_inj] at hw
    exact sent (hw ▸ hsent)
  below := by
    rintro ⟨above, habove, hne, -⟩
    exact absurd (List.prefix_nil.mp habove) hne

/-- Below a node for which the query was sent, a place is below one that is hit, whatever was sent
for it. -/
theorem Degrades.below_sent (h : ∃ v, visit [] = some v ∧ q ∈ v.log.sent) (silent : v'.Silent) :
    Degrades q message visit (i :: place) v v' where
  spared hnot := absurd ⟨[], List.nil_prefix, hit_nil.mpr h⟩ hnot
  hit hhit := absurd hhit (not_hit_cons h)
  below _ := silent

/-- Below a node for which the query was not sent, a place fares as in the tree of the child. -/
theorem Degrades.cons (h : ∀ v, visit [] = some v → q ∉ v.log.sent)
    (inside : Degrades q message (fun place => visit (i :: place)) place v v') :
    Degrades q message visit (i :: place) v v' where
  spared := by
    intro hnot
    apply inside.spared
    rintro ⟨above, habove, hhit⟩
    exact hnot ⟨i :: above, List.cons_prefix_cons.mpr ⟨rfl, habove⟩, (hit_cons h).mpr hhit⟩
  hit hhit := inside.hit ((hit_cons h).mp hhit)
  below := by
    rintro ⟨above, habove, hne, hhit⟩
    cases above with
    | nil =>
      -- the root was spared
      obtain ⟨v, hv, hsent⟩ := hit_nil.mp hhit
      exact absurd hsent (h v hv)
    | cons j above =>
      obtain ⟨rfl, hprefix⟩ := List.cons_prefix_cons.mp habove
      exact inside.below ⟨above, hprefix, fun heq => hne (heq ▸ rfl), (hit_cons h).mp hhit⟩

end Visit

namespace Tree

variable {α : Type} {i : Nat} {place : List Nat}

theorem at?_cons_eq_some {t : Tree α} {a : α} (h : t.at? (i :: place) = some a) :
    ∃ c, t.children[i]? = some c ∧ c.at? place = some a := Option.bind_eq_some_iff.mp h

/-- What holds everywhere holds at every place. -/
theorem Everywhere.at? {P : α → Prop} {t : Tree α} {a : α} (h : t.Everywhere fun a _ => P a)
    (ha : t.at? place = some a) : P a := by
  induction place generalizing t with
  | nil =>
    cases h with
    | node root _ =>
      cases ha
      exact root
  | cons i place ih =>
    obtain ⟨c, hc, hplace⟩ := at?_cons_eq_some ha
    cases h with
    | node _ children => exact ih (children c (List.mem_of_getElem? hc)) hplace

variable {q message : String}

/-- Places of two runs of a tree. The induction is on the way down to the place. -/
theorem Degraded.degrades {t t' : Tree Visit} {v v' : Visit} (h : Degraded q message t t')
    (hv : t.at? place = some v) (hv' : t'.at? place = some v') :
    Visit.Degrades q message t.at? place v v' := by
  induction place generalizing t t' with
  | nil =>
    cases h with
    | hit sent records identifiers errors _ =>
      cases hv
      cases hv'
      exact .of_root rfl (fun _ => ⟨records, identifiers, errors⟩) fun hnot => absurd sent hnot
    | spared spared node log _ =>
      cases hv
      cases hv'
      exact .of_root rfl (fun hsent => absurd hsent spared) fun _ => ⟨node, log⟩
  | cons i place ih =>
    obtain ⟨c, hc, hplace⟩ := at?_cons_eq_some hv
    obtain ⟨c', hc', hplace'⟩ := at?_cons_eq_some hv'
    cases h with
    | @hit w w' cs cs' sent records identifiers errors below =>
      have silent := (below c' (List.mem_of_getElem? hc')).at? hplace'
      exact .below_sent ⟨w, rfl, sent⟩ silent
    | @spared w w' cs cs' spared _ _ below =>
      have hroot : ∀ v, (Tree.node w cs).at? [] = some v → q ∉ v.log.sent := by
        intro v hv
        cases hv
        exact spared
      have hchild : (fun place => (Tree.node w cs).at? (i :: place)) = c.at? := by
        funext place
        rw [Tree.at?, hc, Option.bind_some]
      -- the two children at the same place lie beside each other
      obtain ⟨hi, rfl⟩ := List.getElem?_eq_some_iff.mp hc
      obtain ⟨hi', rfl⟩ := List.getElem?_eq_some_iff.mp hc'
      apply Visit.Degrades.cons hroot
      rw [hchild]
      exact ih (below.get hi hi') hplace hplace'

/-- Every node of a tree is visited, and only its records are filled in. -/
theorem exists_visit {catalog : Metadata} {t : Tree Node} {n : Node}
    (resolved : t.Everywhere (Forest.ResolvedAt catalog)) (engine : Engine) (before : Past)
    (link : Option Link) (hn : t.at? place = some n) :
    ∃ v records, (t.visits engine before link).at? place = some v ∧
      v.node = n.answered records := by
  induction place generalizing t before link with
  | nil =>
    obtain ⟨m, cs⟩ := t
    cases hn
    obtain ⟨records, hrun⟩ := m.node_run engine (before []) link (!cs.isEmpty)
    rw [visits_node]
    exact ⟨_, records, rfl, hrun⟩
  | cons i place ih =>
    obtain ⟨m, cs⟩ := t
    obtain ⟨c, hc, hn⟩ := at?_cons_eq_some hn
    have hmem : c ∈ cs := List.mem_of_getElem? hc
    rw [children_node] at hc
    rw [visits_node, Tree.at?, children_node, List.getElem?_map, hc, Option.map_some,
      Option.bind_some]
    exact ih (resolved.inside c hmem) _ _ hn

end Tree

namespace Forest

/-- The visits of a forest at a place are those of one of its trees. -/
theorem atAll?_visits {forest : Forest} {i : Nat} {t : Tree Node} (ht : forest[i]? = some t)
    (engine : Engine) (before : Past) :
    (fun place => Tree.atAll? (forest.visits engine before) (i :: place)) =
      (t.visits engine (before.below t.label.outputKey) none).at? := by
  funext place
  simp [visits, Tree.atAll?, ht]

/-- Two runs of a forest, in the second of which one query is refused. Each place is visited in both
of them, and its second visit is degraded just by the places at or above it that are hit. Both runs
account for every node. -/
theorem run_refused {catalog : Metadata} {forest : Forest} (read : forest.IsRead catalog)
    {answer answer' : String → Except String (List Record)} {q message : String}
    (agree : ∀ text, text ≠ q → answer' text = answer text)
    (refused : answer' q = .error message) :
    ∃ before before',
      let visits := forest.visits (.ofText answer) before
      let visits' := forest.visits (.ofText answer') before'
      Forest.run (.ofText answer) forest = Tree.outcome visits ∧
      Forest.run (.ofText answer') forest = Tree.outcome visits' ∧
      (∀ place n, Tree.atAll? forest place = some n → ∃ v v' records records',
        Tree.atAll? visits place = some v ∧ v.node = n.answered records ∧
        Tree.atAll? visits' place = some v' ∧ v'.node = n.answered records' ∧
        Visit.Degrades q message (Tree.atAll? visits) place v v') ∧
      (Tree.outcome visits).2.accounted = (Tree.preorderAll forest).length ∧
      (Tree.outcome visits').2.accounted = (Tree.preorderAll forest).length := by
  obtain ⟨before, hrun, -⟩ := exists_visits read (.ofText answer)
  obtain ⟨before', hrun', -⟩ := exists_visits read (.ofText answer')
  refine ⟨before, before', ?_⟩
  intro visits visits'
  have haccounted : (Tree.outcome visits).2.accounted = (Tree.preorderAll forest).length :=
    hrun ▸ accounted_run read _
  have haccounted' : (Tree.outcome visits').2.accounted = (Tree.preorderAll forest).length :=
    hrun' ▸ accounted_run read _
  refine ⟨hrun, hrun', ?_, haccounted, haccounted'⟩
  intro place n hn
  cases place with
  | nil => cases hn
  | cons i place =>
    -- the place lies in one of the trees, and only this tree matters
    obtain ⟨t, ht, hn⟩ := Option.bind_eq_some_iff.mp hn
    have resolved := read.resolved.everywhere t (List.mem_of_getElem? ht)
    obtain ⟨v, records, hv, hnode⟩ :=
      Tree.exists_visit resolved (.ofText answer) (before.below t.label.outputKey) none hn
    obtain ⟨v', records', hv', hnode'⟩ :=
      Tree.exists_visit resolved (.ofText answer') (before'.below t.label.outputKey) none hn
    have hvisit := atAll?_visits ht (.ofText answer) before
    have hvisit' := atAll?_visits ht (.ofText answer') before'
    refine ⟨v, v', records, records', (congrFun hvisit place).trans hv, hnode,
      (congrFun hvisit' place).trans hv', hnode', ?_⟩
    have hnothing : ∀ v, Tree.atAll? visits [] = some v → q ∉ v.log.sent := by
      intro v hv
      cases hv
    apply Visit.Degrades.cons hnothing
    rw [hvisit]
    exact (Tree.degraded_visits agree refused resolved _ _ none).degrades hv hv'

end Forest

/-! ### Shelves, their books and the chapters of these -/

namespace Shelves

def chapter : Entity := ⟨"Chapter", .ofList ["Id", "Title", "BookId"], "Id", []⟩

def book : Entity :=
  ⟨"Book", .ofList ["Id", "Title", "ShelfId"], "Id", [⟨"Chapters", chapter.name, "BookId"⟩]⟩

def shelf : Entity := ⟨"Shelf", .ofList ["Id", "Name"], "Id", [⟨"Books", book.name, "ShelfId"⟩]⟩

def catalog : Catalog := .ofList [shelf, book, chapter]

/-- The document `Shelf{Name Books{Title Chapters{Title}}} Chapter{Title}`. -/
def selection : Selection (List Char) :=
  .node "Shelf".toList
    (.field "Name"
      (.node "Books".toList
        (.field "Title" (.node "Chapters".toList (.field "Title" .nil) .nil)) .nil))
    (.node "Chapter".toList (.field "Title" .nil) .nil)

def asked (outputKey : String) (entity : Entity) (field : String) : Node :=
  { Node.asked outputKey outputKey entity .empty with requested := [field] }

def forest : Forest :=
  [.node (asked "Shelf" shelf "Name")
      [.node (asked "Books" book "Title") [.node (asked "Chapters" chapter "Title") []]],
    .node (asked "Chapter" chapter "Title") []]

/-- A store that finds one record for every query. -/
def answer : String → Except String (List Record) :=
  fun _ => .ok [.ofList [("Id", .int 1), ("Name", .text "Poetry"), ("Title", .text "One"),
    ("ShelfId", .int 1), ("BookId", .int 1)]]

def query : String := "SELECT Title, ShelfId, Id FROM Book WHERE ShelfId IN (1)"

/-- The same store while the books are locked. -/
def locked : String → Except String (List Record) :=
  fun text => if text = query then .error "locked" else answer text

/-- The visits of a run against the store that is open. -/
def visits (before : Past) : List Nat → Option Visit :=
  Tree.atAll? (forest.visits (.ofText answer) before)

variable {before : Past} {place : List Nat} {v : Visit} {texts : List String}

theorem sent_eq (h : (visits before place).map (·.log.sent) = some texts)
    (hv : visits before place = some v) : v.log.sent = texts := by
  rw [hv] at h
  exact Option.some.inj h

theorem not_sent_root (hv : visits before [] = some v) : query ∉ v.log.sent := by
  cases hv

theorem not_sent_shelf (hv : visits before [0] = some v) : query ∉ v.log.sent := by
  have hsent : v.log.sent = ["SELECT Name, Id FROM Shelf"] := sent_eq rfl hv
  rw [hsent]
  decide

theorem sent_books (before : Past) : ∃ v, visits before [0, 0] = some v ∧ query ∈ v.log.sent :=
  ⟨_, rfl, List.mem_cons_self⟩

theorem not_sent_chapter (hv : visits before [1] = some v) : query ∉ v.log.sent := by
  have hsent : v.log.sent = ["SELECT Title FROM Chapter"] := sent_eq rfl hv
  rw [hsent]
  decide

/-- The query for the books is the one that is refused. -/
theorem hit_books (before : Past) : Visit.Hit query (visits before) [0, 0] := by
  rw [Visit.hit_cons fun _ => not_sent_root, Visit.hit_cons fun _ => not_sent_shelf, Visit.hit_nil]
  exact sent_books before

/-- The second root asks for something else. -/
theorem not_hit_chapter (before : Past) :
    ¬ ∃ above, above <+: [1] ∧ Visit.Hit query (visits before) above := by
  rintro ⟨above, habove, ⟨v, hv, hsent⟩, -⟩
  cases above with
  | nil => exact not_sent_root hv hsent
  | cons i above =>
    obtain ⟨rfl, hprefix⟩ := List.cons_prefix_cons.mp habove
    rw [List.prefix_nil.mp hprefix] at hv
    exact not_sent_chapter hv hsent

end Shelves

open Shelves in
/-- While the books are locked, the shelf stands there without them, and the chapters that are asked
for elsewhere are found. -/
theorem Forest.run_refused_shelves :
    (Forest.run (.ofText answer) forest).1.assemble =
      [("Shelf", .arr [.obj [("Name", .str "Poetry"), ("Books", .arr [.obj [("Title", .str "One"),
        ("Chapters", .arr [.obj [("Title", .str "One")]])]])]]),
        ("Chapter", .arr [.obj [("Title", .str "One")]])] ∧
    (Forest.run (.ofText locked) forest).1.assemble =
      [("Shelf", .arr [.obj [("Name", .str "Poetry"), ("Books", .arr [])]]),
        ("Chapter", .arr [.obj [("Title", .str "One")]])] ∧
    (Forest.run (.ofText locked) forest).2.queries =
      ["SELECT Name, Id FROM Shelf", query, "SELECT Title, BookId FROM Chapter",
        "SELECT Title FROM Chapter"] ∧
    (Forest.run (.ofText locked) forest).2.sent =
      ["SELECT Name, Id FROM Shelf", query, "SELECT Title FROM Chapter"] ∧
    ∃ before before',
      let visits' := Tree.atAll? (forest.visits (.ofText locked) before')
      (∃ v', visits' [0, 0] = some v' ∧ v'.node.records = [] ∧
        v'.log.errors = [.execution "locked"]) ∧
      (∃ v', visits' [0, 0, 0] = some v' ∧ v'.Silent) ∧
      (∃ v v', Shelves.visits before [1] = some v ∧ visits' [1] = some v' ∧ v'.node = v.node) := by
  have read : forest.IsRead catalog :=
    ⟨3, _, _, ofTokens_document catalog (s := selection) ⟨rfl, by simp [selection], by decide⟩⟩
  have agree : ∀ text, text ≠ query → locked text = answer text := by
    intro text htext
    rw [locked, if_neg htext]
  have refused : locked query = .error "locked" := if_pos rfl
  obtain ⟨before, before', -, -, places, -, -⟩ := Forest.run_refused read agree refused
  refine ⟨rfl, rfl, rfl, rfl, before, before', ?_, ?_, ?_⟩
  · obtain ⟨v, v', _, _, -, -, hv', -, degrades⟩ := places [0, 0] _ rfl
    obtain ⟨hrecords, -, herrors⟩ := degrades.hit (hit_books before)
    exact ⟨v', hv', hrecords, herrors⟩
  · obtain ⟨v, v', _, _, -, -, hv', -, degrades⟩ := places [0, 0, 0] _ rfl
    exact ⟨v', hv', degrades.below ⟨[0, 0], by decide, by decide, hit_books before⟩⟩
  · obtain ⟨v, v', _, _, hv, -, hv', -, degrades⟩ := places [1] _ rfl
    exact ⟨v, v', hv, hv', (degrades.spared (not_hit_chapter before)).1⟩

end NestedQuery
