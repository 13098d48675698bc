import NestedQuery.Proofs.Document.Neighbours
import NestedQuery.Proofs.Service.Outcome

/-!
# Requests side by side

The roots of a document are served one after the other, and none of them sees the others. Two texts
that can be asked for alone can therefore be asked for in one request, which is answered as the two
requests are (`Service.handle_neighbours`), if no root takes the place of another.

Every stage is a homomorphism: so are the tokens (`Document.scan_flatten_neighbours`), what they
mean (`Selection.forest_append`), the run against a store that remembers nothing
(`Forest.run_append`) and the data (`Forest.assemble_append`). Only the log is not, as every heading
is resolved before any node is run.
-/

namespace NestedQuery

open Document

namespace Selection

variable {catalog : Metadata} {s t : Selection (List Char)}

theorem trees_append (catalog : Metadata) (parent : Option Node) (s t : Selection (List Char)) :
    (s.append t).trees catalog parent = s.trees catalog parent ++ t.trees catalog parent := by
  induction s with
  | nil => rfl
  | field name rest ih => exact ih
  | node word inner rest _ ih =>
    rw [append, trees, trees]
    cases Node.resolve catalog parent word with
    | error e => exact ih
    | ok n => exact congrArg (_ :: ·) ih

theorem errors_append (catalog : Metadata) (parent : Option Node) (s t : Selection (List Char)) :
    (s.append t).errors catalog parent = s.errors catalog parent ++ t.errors catalog parent := by
  induction s with
  | nil => rfl
  | field name rest ih => exact ih
  | node word inner rest _ ih =>
    rw [append, errors, errors]
    cases Node.resolve catalog parent word with
    | error e => exact congrArg (e :: ·) ih
    | ok n => rw [ih, List.append_assoc]

/-- Roots whose output keys differ stay beside each other. -/
theorem forest_append (apart : ∀ key ∈ s.rootKeys catalog, key ∉ t.rootKeys catalog) :
    (s.append t).forest catalog = s.forest catalog ++ t.forest catalog := by
  rw [← outputKey_trees, ← outputKey_trees] at apart
  simp only [forest, ← Keyed.ofList_eq_lastOfEach, trees_append]
  exact Keyed.ofList_append apart

/-- Two texts that are laid out for a selection each are laid out for both of them together. -/
theorem Outlines.append {maxDepth : Nat} {a b : List Char} (hs : s.Outlines maxDepth (braced a))
    (ht : t.Outlines maxDepth (braced b)) :
    (s.append t).Outlines maxDepth (braced (a ++ ' ' :: b)) where
  brace := by
    rw [trim_braced]
    rfl
  isDocument := hs.isDocument.append ht.isDocument
  document := by
    have hscan := hs.document.symm
    have hscan' := ht.document.symm
    rw [trim_braced] at hscan hscan'
    rw [trim_braced, scan_flatten_neighbours hs.isDocument hscan, hscan', Selection.document,
      tokens_append, List.append_assoc]
    rfl

end Selection

/-- The store says the same to a statement whatever it was sent before. -/
def Engine.Forgetful (engine : Engine) : Prop :=
  ∀ received received' select, engine received select = engine received' select

theorem Engine.forgetful_ofText (answer : String → Except String (List Record)) :
    (Engine.ofText answer).Forgetful := fun _ _ _ => rfl

namespace Node

theorem run_of_forgetful {engine : Engine} (forgetful : engine.Forgetful)
    (received received' : List Select) (link : Option Link) (hasChildren : Bool) (n : Node) :
    (n.run engine received link hasChildren).node = (n.run engine received' link hasChildren).node ∧
      (n.run engine received link hasChildren).log =
        (n.run engine received' link hasChildren).log := by
  rw [run, run]
  rcases n.compileIn hasChildren link [.visited] with ⟨_ | compiled, log⟩
  · exact ⟨rfl, rfl⟩
  · simp only [send, Engine.ask, forgetful received received']
    cases compiled.skipped with
    | true => exact ⟨rfl, rfl⟩
    | false => cases engine received' compiled.select <;> exact ⟨rfl, rfl⟩

end Node

namespace Tree

variable {engine : Engine}

theorem runBelow_of_forgetful {cs : List (Tree Node)}
    (below : ∀ c ∈ cs, ∀ received received' link,
      (c.run engine received link).1 = (c.run engine received' link).1 ∧
        (c.run engine received link).2.1 = (c.run engine received' link).2.1)
    (received received' : List Select) (parent : Node) :
    (runBelow engine received parent cs).1 = (runBelow engine received' parent cs).1 ∧
      (runBelow engine received parent cs).2.1 = (runBelow engine received' parent cs).2.1 := by
  induction cs generalizing received received' with
  | nil => exact ⟨rfl, rfl⟩
  | cons c cs ih =>
    have hcs := ih fun c hc => below c (List.mem_cons_of_mem _ hc)
    rw [runBelow, runBelow]
    cases parent.entity.joinField? c.label.name with
    | none =>
      obtain ⟨hnodes, hlog⟩ := hcs received received'
      simp only [hnodes, hlog, and_self]
    | some field =>
      obtain ⟨hnode, hbelow⟩ :=
        below c List.mem_cons_self received received' (some ⟨field, parent.identifiers⟩)
      obtain ⟨hnodes, hlog⟩ := hcs
        (c.run engine received (some ⟨field, parent.identifiers⟩)).2.2
        (c.run engine received' (some ⟨field, parent.identifiers⟩)).2.2
      simp only [hnode, hbelow, hnodes, hlog, and_self]

theorem run_of_forgetful (forgetful : engine.Forgetful) (t : Tree Node)
    (received received' : List Select) (link : Option Link) :
    (t.run engine received link).1 = (t.run engine received' link).1 ∧
      (t.run engine received link).2.1 = (t.run engine received' link).2.1 := by
  induction t using Tree.induction generalizing received received' link with
  | node n cs ih =>
    obtain ⟨hnode, hlog⟩ := n.run_of_forgetful forgetful received received' link (!cs.isEmpty)
    obtain ⟨hbelow, hlogBelow⟩ := runBelow_of_forgetful ih
      (n.run engine received link (!cs.isEmpty)).received
      (n.run engine received' link (!cs.isEmpty)).received
      (n.run engine received' link (!cs.isEmpty)).node
    rw [run, run]
    simp only [hnode, hlog, hbelow, hlogBelow, and_self]

end Tree

namespace Forest

variable {engine : Engine} {f g : Forest}

theorem runFrom_append (engine : Engine) (received : List Select) (f g : Forest) :
    runFrom engine received (f ++ g) =
      ((f.runFrom engine received).1 ++ (g.runFrom engine (f.runFrom engine received).2.2).1,
        (f.runFrom engine received).2.1 ++
          (g.runFrom engine (f.runFrom engine received).2.2).2.1,
        (g.runFrom engine (f.runFrom engine received).2.2).2.2) := by
  induction f generalizing received with
  | nil => rfl
  | cons t rest ih => simp only [List.cons_append, runFrom, ih, List.append_assoc]

/-- Against a store that remembers nothing, a run goes on as if it began. -/
theorem runFrom_of_forgetful (forgetful : engine.Forgetful) (received received' : List Select)
    (forest : Forest) :
    (forest.runFrom engine received).1 = (forest.runFrom engine received').1 ∧
      (forest.runFrom engine received).2.1 = (forest.runFrom engine received').2.1 := by
  induction forest generalizing received received' with
  | nil => exact ⟨rfl, rfl⟩
  | cons t rest ih =>
    obtain ⟨hnode, hlog⟩ := t.run_of_forgetful forgetful received received' none
    obtain ⟨hnodes, hlogs⟩ := ih (t.run engine received none).2.2 (t.run engine received' none).2.2
    simp only [runFrom, hnode, hlog, hnodes, hlogs, and_self]

theorem run_append (forgetful : engine.Forgetful) (f g : Forest) :
    Forest.run engine (f ++ g) =
      ((Forest.run engine f).1 ++ (Forest.run engine g).1,
        (Forest.run engine f).2 ++ (Forest.run engine g).2) := by
  obtain ⟨hnodes, hlog⟩ := runFrom_of_forgetful forgetful (f.runFrom engine []).2.2 [] g
  simp only [run, runFrom_append, hnodes, hlog]

theorem assemble_append
    (apart : ∀ key ∈ f.map (fun t => t.label.outputKey), key ∉ g.map fun t => t.label.outputKey) :
    Forest.assemble (f ++ g) = f.assemble ++ g.assemble := by
  rw [assemble, List.map_append]
  apply Keyed.ofList_append
  simpa [Function.comp_def] using apart

end Forest

namespace Service

/-- The data of two forests together is that of the first and then that of the second; a forest
without data adds nothing. -/
theorem answer_append {service : Service} (forgetful : service.engine.Forgetful) {f g : Forest}
    (hf : f.IsRead service.catalog)
    (hg : g.IsRead service.catalog)
    (apart : ∀ key ∈ f.map (fun t => t.label.outputKey), key ∉ g.map fun t => t.label.outputKey) :
    (service.answer (f ++ g)).1 =
      Option.merge (· ++ ·) (service.answer f).1 (service.answer g).1 := by
  have hnil : (service.answer []).1 = none := rfl
  by_cases hfnil : f = []
  · rw [hfnil, hnil, List.nil_append, Option.merge_none_left]
  by_cases hgnil : g = []
  · rw [hgnil, hnil, List.append_nil, Option.merge_none_right]
  have hboth : f ++ g ≠ [] := fun h => hfnil (List.append_eq_nil_iff.mp h).1
  have hkeys : ∀ key ∈ (Forest.run service.engine f).1.map (fun t => t.label.outputKey),
      key ∉ (Forest.run service.engine g).1.map fun t => t.label.outputKey := by
    rwa [Forest.outputKey_run hf, Forest.outputKey_run hg]
  have hassemble := Forest.assemble_append hkeys
  simp only [answer, List.isEmpty_iff, hfnil, hgnil, hboth, ↓reduceIte,
    Forest.run_append forgetful, hassemble, Option.merge]

/-- What the headings of a document that cannot be resolved say in a response. -/
def resolutionErrors (service : Service) (s : Selection (List Char)) : List String :=
  (s.errors service.catalog none).map (·.message)

/-- What the run of a document says in a response. -/
def executionErrors (service : Service) (s : Selection (List Char)) : List String :=
  (Forest.run service.engine (s.forest service.catalog)).2.errors.map (·.message)

/-- A response has the errors of the headings, then those of the run. -/
theorem errors_handle {service : Service} {request : Request} {s : Selection (List Char)}
    (h : s.Outlines service.maxDepth request.document) :
    (service.handle request).errors = service.resolutionErrors s ++ service.executionErrors s := by
  rw [handle_of_ok (h.ofText_eq service.catalog), List.map_append]
  rfl

/-- The response to two texts in one document, if the store remembers nothing: the data of the first
and then that of the second, the queries likewise, and of the errors those of the headings of both
before those of their runs. -/
theorem handle_neighbours {service : Service} (forgetful : service.engine.Forgetful)
    {a b : List Char} {ra rb both : Request}
    (ha : ra.document = braced a) (hb : rb.document = braced b)
    (hboth : both.document = braced (a ++ ' ' :: b)) {s t : Selection (List Char)}
    (hs : s.Outlines service.maxDepth (braced a)) (ht : t.Outlines service.maxDepth (braced b))
    (apart : ∀ key ∈ s.rootKeys service.catalog, key ∉ t.rootKeys service.catalog) :
    (service.handle ra).errors = service.resolutionErrors s ++ service.executionErrors s ∧
    (service.handle rb).errors = service.resolutionErrors t ++ service.executionErrors t ∧
    service.handle both =
      ⟨Option.merge (· ++ ·) (service.handle ra).data (service.handle rb).data,
        service.resolutionErrors s ++ service.resolutionErrors t ++
          service.executionErrors s ++ service.executionErrors t,
        (service.handle ra).queries ++ (service.handle rb).queries⟩ := by
  rw [← ha] at hs
  rw [← hb] at ht
  have htogether : (s.append t).Outlines service.maxDepth both.document := by
    rw [hboth]
    exact (ha ▸ hs).append (hb ▸ ht)
  have hforests : ∀ key ∈ (s.forest service.catalog).map (fun t => t.label.outputKey),
      key ∉ (t.forest service.catalog).map fun t => t.label.outputKey := by
    simpa only [Selection.outputKey_forest, List.mem_eraseDups] using apart
  have hdata :=
    answer_append forgetful (hs.isRead service.catalog) (ht.isRead service.catalog) hforests
  have hresponse := handle_of_ok (hs.ofText_eq service.catalog)
  have hresponse' := handle_of_ok (ht.ofText_eq service.catalog)
  refine ⟨errors_handle hs, errors_handle ht, ?_⟩
  rw [handle_of_ok (htogether.ofText_eq service.catalog), hresponse, hresponse',
    Selection.forest_append apart, Selection.errors_append, hdata, Forest.run_append forgetful]
  simp only [Log.errors_append, Log.queries_append, List.map_append, List.append_assoc,
    resolutionErrors, executionErrors]

end Service

/-! ### Teams beside players -/

namespace Roster

def service : Service := ⟨catalog, cities, 32⟩

/-- `Squad {Name} Team {City}`, of which the first is unknown. -/
def squads : List Char := "Squad \x7bName\x7d Team \x7bCity\x7d".toList

/-- `Player(limit:all) {Name}` -/
def unlimited : List Char := "Player(limit:all) \x7bName\x7d".toList

def squadSelection : Selection (List Char) :=
  .node "Squad".toList (.field "Name" .nil) (.node "Team".toList (.field "City" .nil) .nil)

def unlimitedSelection : Selection (List Char) :=
  .node "Player(limit:all)".toList (.field "Name" .nil) .nil

/-- A request for the text between braces. -/
def request (text : List Char) : Request := ⟨.ofList (braced text), .empty⟩

theorem document_request (text : List Char) : (request text).document = braced text := by
  rw [Request.document, request, String.toList_ofList]
  rfl

theorem forgetful_service : service.engine.Forgetful := fun _ _ _ => rfl

/-- A request for a text that is laid out is answered by running its trees. -/
theorem data_request {text : List Char} {s : Selection (List Char)}
    (h : s.Outlines 32 (braced text)) :
    (service.handle (request text)).data = (service.answer (s.forest catalog)).1 := by
  have hread : s.Outlines service.maxDepth (request text).document := by
    rwa [document_request]
  rw [Service.handle_of_ok (hread.ofText_eq catalog)]

end Roster

open Roster in
theorem Service.handle_neighbours_roster :
    let response := Roster.service.handle (request (squads ++ ' ' :: unlimited))
    response.data =
      some [("Team", .arr [.obj [("City", .str "Oslo")]]), ("Player", .arr [])] ∧
    response.errors =
      ["Squad is not a valid entity",
        "Player: argument 'limit' must be a non-negative integer (got 'all')"] ∧
    response.queries = ["SELECT City FROM Team"] := by
  intro response
  have hsquads : squadSelection.Outlines 32 (braced squads) :=
    ⟨by decide +kernel, ⟨rfl, nofun, by decide⟩, by decide +kernel⟩
  have hunlimited : unlimitedSelection.Outlines 32 (braced unlimited) :=
    ⟨by decide +kernel, ⟨rfl, nofun, by decide⟩, by decide +kernel⟩
  obtain ⟨-, -, hboth⟩ : _ ∧ _ ∧ response = _ :=
    Service.handle_neighbours forgetful_service (document_request squads)
      (document_request unlimited) (document_request (squads ++ ' ' :: unlimited)) hsquads
      hunlimited (by decide +kernel)
  rw [hboth]
  refine ⟨?_, by decide +kernel, by decide +kernel⟩
  simp only [data_request hsquads, data_request hunlimited]
  with_unfolding_all rfl

end NestedQuery
