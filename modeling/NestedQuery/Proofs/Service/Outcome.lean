import NestedQuery.Proofs.Request.Documents
import NestedQuery.Proofs.Request.Pruning
import NestedQuery.Proofs.Request.Shape
import NestedQuery.Service

/-!
# What a response says

A response is put together from the errors of the reading, the data and the queries of the run, and
the errors of the run (`Service.handle_of_ok`), or it has the one error of a text that is rejected
(`Service.handle_of_error`).

## Main result

`Service.handle_outcome`: there is no data just if the document is rejected or none of its roots
can be resolved, and then nothing was compiled or sent. Otherwise the data has one key for each root
that is left, and there is no error just if nothing went wrong at any node.
-/

namespace NestedQuery

/-! ### The errors of a run -/

namespace Engine

variable {engine : Engine} {received : List Select} {select : Select}

/-- The store answers all statements that it receives behind `before`, up to `after`, with
records. -/
def Succeeds (engine : Engine) (before after : List Select) : Prop :=
  ∀ past select, before <+: past → past ++ [select] <+: after →
    ∃ records, engine past select = .ok records

theorem succeeds_self (engine : Engine) (received : List Select) :
    engine.Succeeds received received := by
  intro past select hbefore hafter
  have hle := (hafter.trans hbefore).length_le
  rw [List.length_append, List.length_singleton] at hle
  omega

theorem succeeds_append_singleton :
    engine.Succeeds received (received ++ [select]) ↔
      ∃ records, engine received select = .ok records := by
  constructor
  · intro h
    exact h received select List.prefix_rfl List.prefix_rfl
  · rintro ⟨records, hanswer⟩ past other hbefore hafter
    -- the one statement is the last of a list that begins with what was received before
    have hlength : past.length = received.length := by
      have hle := hafter.length_le
      have hge := hbefore.length_le
      simp only [List.length_append, List.length_singleton] at hle
      omega
    obtain rfl := hbefore.eq_of_length hlength.symm
    have hsame := hafter.eq_of_length (by simp)
    obtain rfl : other = select := List.singleton_inj.mp (List.append_cancel_left hsame)
    exact ⟨records, hanswer⟩

theorem succeeds_trans {a b c : List Select} (hab : a <+: b) (hbc : b <+: c) :
    engine.Succeeds a c ↔ engine.Succeeds a b ∧ engine.Succeeds b c := by
  constructor
  · intro h
    exact ⟨fun past select ha hb => h past select ha (hb.trans hbc),
      fun past select hb hc => h past select (hab.trans hb) hc⟩
  · rintro ⟨hfirst, hrest⟩ past select ha hc
    rcases List.prefix_or_prefix_of_prefix hc hbc with hb | hb
    · exact hfirst past select ha hb
    · rcases List.prefix_concat_iff.mp hb with rfl | hb
      · exact hfirst past select ha List.prefix_rfl
      · exact hrest past select hb hc

end Engine

/-- A stretch of a run is without an error if the pages of its nodes can be read and the store
refuses none of the statements that it receives. -/
structure Log.Flawless (engine : Engine) (before : List Select) (nodes : List Node) (log : Log)
    (after : List Select) : Prop where
  received : before <+: after
  errors : log.errors = [] ↔ (∀ n ∈ nodes, n.fault? = none) ∧ engine.Succeeds before after

theorem Log.flawless_composes (engine : Engine) : Stretch.Composes (Log.Flawless engine) where
  nil received := ⟨List.prefix_rfl, by simp [Log.errors, engine.succeeds_self received]⟩
  append {r s t ns ms a b} ha hb := by
    refine ⟨ha.received.trans hb.received, ?_⟩
    rw [Log.errors_append, List.append_eq_nil_iff, ha.errors, hb.errors, List.forall_mem_append,
      Engine.succeeds_trans ha.received hb.received, and_and_and_comm]

/-- A visit is without an error if the page of the node can be read and the store does not refuse
its statement. -/
theorem Node.flawless_run (engine : Engine) (received : List Select) (link : Option Link)
    (hasChildren : Bool) (n : Node) :
    Log.Flawless engine received [n] (n.run engine received link hasChildren).log
      (n.run engine received link hasChildren).received := by
  refine ⟨(n.sends_run engine received link hasChildren).isPrefix, ?_⟩
  rw [List.forall_mem_singleton]
  obtain ⟨e, hcompile, hrun⟩ | ⟨compiled, hcompile, -, hrun⟩ |
    ⟨compiled, records, hcompile, -, hanswer, hrun⟩ |
    ⟨compiled, message, hcompile, -, hanswer, hrun⟩ := n.run_cases engine received link hasChildren
  · have hfault := fault?_of_compile_error hcompile
    simp [hrun, hfault, Log.errors]
  · have hfault := fault?_of_compile_ok hcompile
    simp [hrun, hfault, Log.errors, engine.succeeds_self received]
  · have hfault := fault?_of_compile_ok hcompile
    simp [hrun, hfault, Log.errors, Engine.succeeds_append_singleton, hanswer]
  · simp [hrun, Log.errors, Engine.succeeds_append_singleton, hanswer]

/-- A run is without an error if the pages of all nodes can be read and the store refuses none of
the statements that it receives. -/
theorem Forest.errors_run_eq_nil {catalog : Metadata} {forest : Forest}
    (read : forest.IsRead catalog) (engine : Engine) :
    (Forest.run engine forest).2.errors = [] ↔
      (∀ n ∈ Tree.preorderAll forest, n.fault? = none) ∧
        engine.Succeeds [] (forest.received engine) := by
  have hrun := stretch_run_of_step read (Log.flawless_composes engine)
    fun n received link _ => n.flawless_run engine received link _
  exact hrun.errors

/-! ### The roots of a document -/

namespace Selection

/-- The headings that stand inside of no node. -/
def headings {α : Type} : Selection α → List α
  | nil => []
  | field _ rest => rest.headings
  | node heading _ rest => heading :: rest.headings

theorem IsDocument.headings_ne_nil {α : Type} {maxDepth : Nat} {s : Selection α}
    (h : s.IsDocument maxDepth) : s.headings ≠ [] := by
  cases s with
  | nil => exact absurd rfl h.ne_nil
  | field name rest => cases h.nodes
  | node heading inner rest => exact List.cons_ne_nil _ _

/-- The output keys of the roots that can be resolved, in order and with repetitions. -/
def rootKeys (catalog : Metadata) (s : Selection (List Char)) : List String :=
  s.headings.filterMap fun word => (Node.resolve catalog none word).toOption.map (·.outputKey)

variable {catalog : Metadata} {s : Selection (List Char)}

theorem outputKey_trees (catalog : Metadata) (s : Selection (List Char)) :
    (s.trees catalog none).map (fun t => t.label.outputKey) = s.rootKeys catalog := by
  induction s with
  | nil => rfl
  | field name rest ih => exact ih
  | node word inner rest _ ih =>
    rw [rootKeys, headings, List.filterMap_cons, trees]
    cases Node.resolve catalog none word with
    | error e => exact ih
    | ok n => exact congrArg (n.outputKey :: ·) ih

theorem outputKey_forest (catalog : Metadata) (s : Selection (List Char)) :
    (s.forest catalog).map (fun t => t.label.outputKey) = (s.rootKeys catalog).eraseDups := by
  rw [forest, ← Keyed.ofList_eq_lastOfEach, Keyed.map_ofList, outputKey_trees]

theorem rootKeys_eq_nil_iff :
    s.rootKeys catalog = [] ↔
      ∀ word ∈ s.headings, ∃ e, Node.resolve catalog none word = .error e := by
  rw [rootKeys, List.filterMap_eq_nil_iff]
  refine forall₂_congr fun word _ => ?_
  cases Node.resolve catalog none word with
  | error e => exact ⟨fun _ => ⟨e, rfl⟩, fun _ => rfl⟩
  | ok n =>
    constructor
    · rintro ⟨⟩
    · rintro ⟨e, ⟨⟩⟩

theorem forest_eq_nil_iff : s.forest catalog = [] ↔ s.rootKeys catalog = [] := by
  rw [← List.map_eq_nil_iff (f := fun t : Tree Node => t.label.outputKey), outputKey_forest]
  cases s.rootKeys catalog with
  | nil => exact Iff.rfl
  | cons key rest => simp [List.eraseDups_cons]

/-- If no heading is unresolved, every root is there. -/
theorem rootKeys_ne_nil (hheadings : s.headings ≠ []) (h : s.unresolved catalog none = []) :
    s.rootKeys catalog ≠ [] := by
  induction s with
  | nil => exact absurd rfl hheadings
  | field name rest ih => exact ih hheadings h
  | node word inner rest _ _ =>
    rw [unresolved] at h
    rw [rootKeys, headings, List.filterMap_cons]
    cases hresolve : Node.resolve catalog none word with
    | error e =>
      rw [hresolve] at h
      cases h
    | ok n => exact List.cons_ne_nil _ _

theorem errors_eq_nil_iff : s.errors catalog none = [] ↔ s.unresolved catalog none = [] := by
  have hlength : (s.unresolved catalog none).length = (s.errors catalog none).length :=
    s.errors_unresolved.length_eq
  rw [← List.length_eq_zero_iff, ← List.length_eq_zero_iff, hlength]

end Selection

/-! ### From the reading and the run to the response -/

/-- The text of a request once values stand in the place of its variables. -/
def Request.document (request : Request) : List Char :=
  request.bindings.substitute request.query.toList

namespace Log

theorem errors_map_failed (errors : List RequestError) :
    Log.errors (errors.map .failed) = errors := by
  simp [Log.errors, List.filterMap_map]

theorem queries_map_failed (errors : List RequestError) :
    Log.queries (errors.map .failed) = [] := by
  simp [Log.queries]

theorem sent_map_failed (errors : List RequestError) : Log.sent (errors.map .failed) = [] := by
  simp [Log.sent]

end Log

namespace Service

variable {service : Service} {request : Request}

/-- There is no data just if every root was dropped. -/
theorem answer_eq_none_iff {forest : Forest} : (service.answer forest).1 = none ↔ forest = [] := by
  rw [answer]
  cases forest <;> simp

/-- An answer logs what a run logs, and that the data was put together. -/
theorem answer_snd (service : Service) (forest : Forest) :
    (service.answer forest).2.errors = (Forest.run service.engine forest).2.errors ∧
    (service.answer forest).2.queries = (Forest.run service.engine forest).2.queries ∧
    (service.answer forest).2.sent = (Forest.run service.engine forest).2.sent := by
  rw [answer]
  cases forest with
  | nil => exact ⟨rfl, rfl, rfl⟩
  | cons t rest => simp [Log.errors, Log.queries, Log.sent]

theorem serve_of_error {fault : DocumentFault}
    (h : Forest.ofText service.catalog service.maxDepth request.document = .error fault) :
    service.serve request = (none, [.failed (.malformed fault.message), .parsed]) := by
  rw [serve, ← Request.document, h]
  rfl

theorem serve_of_ok {forest : Forest} {errors : List RequestError}
    (h : Forest.ofText service.catalog service.maxDepth request.document = .ok (forest, errors)) :
    service.serve request =
      ((service.answer forest).1, errors.map .failed ++ .parsed :: (service.answer forest).2) := by
  rw [serve, ← Request.document, h]
  rfl

theorem received_of_error {fault : DocumentFault}
    (h : Forest.ofText service.catalog service.maxDepth request.document = .error fault) :
    service.received request = [] := by
  rw [received, ← Request.document, h]

theorem received_of_ok {forest : Forest} {errors : List RequestError}
    (h : Forest.ofText service.catalog service.maxDepth request.document = .ok (forest, errors)) :
    service.received request = forest.received service.engine := by
  rw [received, ← Request.document, h]

theorem handle_of_error {fault : DocumentFault}
    (h : Forest.ofText service.catalog service.maxDepth request.document = .error fault) :
    service.handle request = ⟨none, [fault.message], []⟩ := by
  rw [handle, serve_of_error h]
  rfl

theorem sent_serve_of_error {fault : DocumentFault}
    (h : Forest.ofText service.catalog service.maxDepth request.document = .error fault) :
    (service.serve request).2.sent = [] := by
  rw [serve_of_error h]
  rfl

theorem sent_serve_of_ok {forest : Forest} {errors : List RequestError}
    (h : Forest.ofText service.catalog service.maxDepth request.document = .ok (forest, errors)) :
    (service.serve request).2.sent = (Forest.run service.engine forest).2.sent := by
  obtain ⟨-, -, hsent⟩ := service.answer_snd forest
  rw [serve_of_ok h, ← hsent, Log.sent_append, Log.sent_map_failed]
  rfl

theorem errors_serve_of_ok {forest : Forest} {errors : List RequestError}
    (h : Forest.ofText service.catalog service.maxDepth request.document = .ok (forest, errors)) :
    (service.serve request).2.errors =
      errors ++ (Forest.run service.engine forest).2.errors := by
  obtain ⟨herrors, -, -⟩ := service.answer_snd forest
  rw [serve_of_ok h, ← herrors, Log.errors_append, Log.errors_map_failed]
  rfl

/-- The response to a text that can be read. -/
theorem handle_of_ok {forest : Forest} {errors : List RequestError}
    (h : Forest.ofText service.catalog service.maxDepth request.document = .ok (forest, errors)) :
    service.handle request =
      ⟨(service.answer forest).1,
        (errors ++ (Forest.run service.engine forest).2.errors).map (·.message),
        (Forest.run service.engine forest).2.queries⟩ := by
  obtain ⟨herrors, hqueries, -⟩ := service.answer_snd forest
  rw [handle, serve_of_ok h, ← herrors, ← hqueries]
  simp only [Log.errors_append, Log.queries_append, Log.errors_map_failed, Log.queries_map_failed]
  rfl

/-- The data of an answer has the roots as keys. -/
theorem map_fst_answer {catalog : Metadata} {forest : Forest} (read : forest.IsRead catalog)
    {data : Members} (h : (service.answer forest).1 = some data) :
    data.map Prod.fst = forest.map fun t => t.label.outputKey := by
  have hne : forest ≠ [] := fun hnil => by
    rw [answer_eq_none_iff.mpr hnil] at h
    cases h
  have hkeys := Forest.outputKey_run read service.engine
  rw [answer, if_neg (by simpa using hne)] at h
  cases h
  rw [Forest.assemble_of_nodup (hkeys ▸ read.resolved.distinct), List.map_map]
  exact hkeys

/-! ### The ways a request can end -/

variable {s : Selection (List Char)}

theorem handle_of_rejected (h : Forest.Rejected service.maxDepth request.document) :
    (service.handle request).data = none ∧ (service.handle request).errors ≠ [] ∧
      (service.handle request).queries = [] ∧ service.received request = [] := by
  obtain ⟨fault, hfault⟩ := h.ofText_eq service.catalog
  rw [handle_of_error hfault, received_of_error hfault]
  exact ⟨rfl, List.cons_ne_nil _ _, rfl, rfl⟩

theorem data_handle_eq_none_iff (h : s.Outlines service.maxDepth request.document) :
    (service.handle request).data = none ↔ s.rootKeys service.catalog = [] := by
  rw [handle_of_ok (h.ofText_eq service.catalog), answer_eq_none_iff, Selection.forest_eq_nil_iff]

/-- A document has a root, and one that is dropped leaves an error. -/
theorem handle_of_rootKeys_eq_nil (h : s.Outlines service.maxDepth request.document)
    (hkeys : s.rootKeys service.catalog = []) :
    (service.handle request).errors ≠ [] ∧ (service.handle request).queries = [] ∧
      service.received request = [] := by
  have hread := h.ofText_eq service.catalog
  have hforest := Selection.forest_eq_nil_iff.mpr hkeys
  have herrors : s.errors service.catalog none ≠ [] := fun hnil =>
    Selection.rootKeys_ne_nil h.isDocument.headings_ne_nil
      (Selection.errors_eq_nil_iff.mp hnil) hkeys
  rw [handle_of_ok hread, received_of_ok hread, hforest]
  exact ⟨by simp [herrors], rfl, rfl⟩

theorem map_fst_data_handle (h : s.Outlines service.maxDepth request.document) {data : Members}
    (hdata : (service.handle request).data = some data) :
    data.map Prod.fst = (s.rootKeys service.catalog).eraseDups := by
  rw [handle_of_ok (h.ofText_eq service.catalog)] at hdata
  rw [map_fst_answer (h.isRead service.catalog) hdata, Selection.outputKey_forest]

/-- No stage drops an error: there is none just if all headings are resolved, all pages can be read
and the store answers all statements that it receives. -/
theorem errors_handle_eq_nil_iff (h : s.Outlines service.maxDepth request.document) :
    (service.handle request).errors = [] ↔
      s.unresolved service.catalog none = [] ∧
        (∀ n ∈ Tree.preorderAll (s.forest service.catalog), n.fault? = none) ∧
        service.engine.Succeeds [] (service.received request) := by
  have hread := h.ofText_eq service.catalog
  rw [handle_of_ok hread, received_of_ok hread, List.map_eq_nil_iff, List.append_eq_nil_iff,
    Selection.errors_eq_nil_iff, Forest.errors_run_eq_nil (h.isRead service.catalog)]

/-- The queries that are sent while a request is served are the texts of what the store receives. -/
theorem sent_serve (service : Service) (request : Request) :
    (service.serve request).2.sent = (service.received request).map Select.render := by
  cases hread : Forest.ofText service.catalog service.maxDepth request.document with
  | error fault => rw [sent_serve_of_error hread, received_of_error hread, List.map_nil]
  | ok result =>
    obtain ⟨forest, errors⟩ := result
    obtain ⟨s, hs, rfl, -⟩ := Forest.exists_outlines hread
    rw [sent_serve_of_ok hread, received_of_ok hread, Forest.sent_run (hs.isRead service.catalog)]

/-- A text that is rejected, or of which no root is left, gives neither data nor queries, and never
goes without an error; the store receives nothing. Otherwise there is data, and an error just if a
heading, a page or the store gives one. -/
theorem handle_outcome (service : Service) (request : Request) :
    let response := service.handle request
    let received := service.received request
    (service.serve request).2.sent = received.map Select.render ∧
    (response.data = none ↔
      Forest.Rejected service.maxDepth request.document ∨
        ∃ s : Selection (List Char), s.Outlines service.maxDepth request.document ∧
          ∀ word ∈ s.headings, ∃ e, Node.resolve service.catalog none word = .error e) ∧
    match response.data with
    | none => response.errors ≠ [] ∧ response.queries = [] ∧ received = []
    | some data => ∃ s : Selection (List Char), s.Outlines service.maxDepth request.document ∧
        data.map Prod.fst = (s.rootKeys service.catalog).eraseDups ∧
        (response.errors = [] ↔
          s.unresolved service.catalog none = [] ∧
            (∀ n ∈ Tree.preorderAll (s.forest service.catalog), n.fault? = none) ∧
            service.engine.Succeeds [] received) := by
  intro response received
  refine ⟨service.sent_serve request, ?_⟩
  by_cases hrejected : Forest.Rejected service.maxDepth request.document
  · obtain ⟨hdata, hrest⟩ : response.data = none ∧ _ := handle_of_rejected hrejected
    rw [hdata]
    exact ⟨⟨fun _ => .inl hrejected, fun _ => rfl⟩, hrest⟩
  obtain ⟨s, hs⟩ := Forest.not_rejected_iff.mp hrejected
  have hdata : response.data = none ↔ s.rootKeys service.catalog = [] := data_handle_eq_none_iff hs
  constructor
  · rw [hdata, Selection.rootKeys_eq_nil_iff]
    constructor
    · exact fun hall => .inr ⟨s, hs, hall⟩
    · rintro (h | ⟨s', hs', hall⟩)
      · exact absurd h hrejected
      · -- the text is laid out for one selection only
        obtain rfl := hs.unique hs'.document
        exact hall
  · cases hresult : response.data with
    | none => exact handle_of_rootKeys_eq_nil hs (hdata.mp hresult)
    | some data => exact ⟨s, hs, map_fst_data_handle hs hresult, errors_handle_eq_nil_iff hs⟩

end Service

end NestedQuery
