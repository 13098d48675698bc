import NestedQuery.Proofs.Service.Outcome
import NestedQuery.Proofs.Store.Grammar
import NestedQuery.Proofs.Store.Statements

/-!
# Statements that a database accepts

A request to the catalog of a database asks the tables of that database for their columns. There are
two ways to ask for something else: a table without a primary key is asked for the identifier of the
catalog, which need not be a column, and an offset is sent without a limit as well. All other
statements belong to the grammar, and a store that executes what belongs to it refuses none of them.

## Main result

`Database.serve_statements`.
-/

namespace NestedQuery

namespace Store

variable {db : Database} {idField : String} {t : Table} {s : Select}

/-! ### What is accepted -/

/-- Every table and every column has a plain name. -/
structure Database.Plain (db : Database) : Prop where
  tables : ∀ t ∈ db, IsPlain t.name
  columns : ∀ t ∈ db, ∀ c ∈ t.columns, IsPlain c.name

theorem Database.Plain.names (h : db.Plain) (ht : t ∈ db) {name : String}
    (hname : name ∈ t.columns.map Column.name) : t.Names name := by
  refine ⟨hname, ?_⟩
  obtain ⟨c, hc, rfl⟩ := List.mem_map.mp hname
  exact h.columns t ht c hc

/-- The store answers every statement over the tables of the database, whatever it was sent
before. -/
def Database.Executes (db : Database) (engine : Engine) : Prop :=
  ∀ received (s : Select), IsStatement db s.render.toList →
    ∃ records, engine received s = .ok records

/-- The statement departs from the grammar in neither way: `idField` is a column where a table
without a primary key is asked for it, and an offset stands behind a limit. -/
structure Regular (t : Table) (idField : String) (s : Select) : Prop where
  identifier : t.primaryKey = [] → idField ∈ s.columns → idField ∈ t.columns.map Column.name
  offset : s.offset.isSome = true → s.limit.isSome = true

theorem Asks.mem_columns (h : Asks t idField s) (regular : Regular t idField s) :
    ∀ name ∈ s.columns, name ∈ t.columns.map Column.name := by
  intro name hname
  rcases h.columns name hname with hcolumn | ⟨hkey, rfl⟩
  · exact hcolumn
  · exact regular.identifier hkey hname

theorem Asks.over (h : Asks t idField s) (hplain : db.Plain) (ht : t ∈ db)
    (hcolumns : ∀ name ∈ s.columns, name ∈ t.columns.map Column.name) : s.Over t where
  table := h.table
  nonempty := h.nonempty
  columns name hname := hplain.names ht (hcolumns name hname)
  conditions c hc := by
    refine ⟨hplain.names ht (h.conditions c hc), ?_⟩
    rintro column values rfl
    exact h.literals column values hc

theorem Asks.isStatement (h : Asks t idField s) (hplain : db.Plain) (ht : t ∈ db)
    (regular : Regular t idField s) : IsStatement db s.render.toList :=
  (h.over hplain ht (h.mem_columns regular)).isStatement_render ht (hplain.tables t ht)
    regular.offset

end Store

/-! ### Stretches with statements of one kind -/

/-- In a stretch of a run the store receives statements with `P` only, and it is reported to have
refused nothing but one of these. -/
def Log.SendsOnly (engine : Engine) (P : Select → Prop) (before : List Select) (_ : List Node)
    (log : Log) (after : List Select) : Prop :=
  ∃ statements, after = before ++ statements ∧ (∀ s ∈ statements, P s) ∧
    ∀ message, .execution message ∈ log.errors → ∃ past s, before <+: past ∧
      past ++ [s] <+: after ∧ engine past s = .error message

theorem Log.sendsOnly_composes (engine : Engine) (P : Select → Prop) :
    Stretch.Composes (Log.SendsOnly engine P) where
  nil received :=
    ⟨[], (List.append_nil received).symm, List.forall_mem_nil _, by simp [Log.errors]⟩
  append := by
    rintro r s t ns ms a b ⟨first, rfl, hfirst, hrefused⟩ ⟨rest, rfl, hrest, hrefusedRest⟩
    refine ⟨first ++ rest, List.append_assoc _ _ _, ?_, ?_⟩
    · intro s hs
      exact (List.mem_append.mp hs).elim (hfirst s) (hrest s)
    · intro message hmessage
      rw [errors_append, List.mem_append] at hmessage
      rcases hmessage with hmessage | hmessage
      · obtain ⟨past, s, hpast, hs, hanswer⟩ := hrefused message hmessage
        exact ⟨past, s, hpast, hs.trans (List.prefix_append _ _), hanswer⟩
      · obtain ⟨past, s, hpast, hs, hanswer⟩ := hrefusedRest message hmessage
        exact ⟨past, s, (List.prefix_append _ _).trans hpast, hs, hanswer⟩

theorem Node.sendsOnly_run {engine : Engine} {P : Select → Prop} {n : Node} {link : Option Link}
    {hasChildren : Bool} (received : List Select)
    (h : ∀ compiled, n.compile hasChildren link = .ok compiled → P compiled.select) :
    Log.SendsOnly engine P received [n] (n.run engine received link hasChildren).log
      (n.run engine received link hasChildren).received := by
  obtain ⟨e, hcompile, hrun⟩ | ⟨compiled, -, -, hrun⟩ |
    ⟨compiled, records, hcompile, -, -, hrun⟩ |
    ⟨compiled, message, hcompile, -, hrefused, hrun⟩ := n.run_cases engine received link hasChildren
  · rw [hrun]
    refine ⟨[], (List.append_nil received).symm, List.forall_mem_nil _, ?_⟩
    intro message hmessage
    obtain rfl : RequestError.execution message = e := by simpa [Log.errors] using hmessage
    have hcode := code_of_compile hcompile
    simp [RequestError.code] at hcode
  · rw [hrun]
    refine ⟨[], (List.append_nil received).symm, List.forall_mem_nil _, ?_⟩
    simp [Log.errors]
  · rw [hrun]
    refine ⟨[compiled.select], rfl, ?_, ?_⟩
    · exact fun s hs => List.mem_singleton.mp hs ▸ h compiled hcompile
    · simp [Log.errors]
  · rw [hrun]
    refine ⟨[compiled.select], rfl, ?_, ?_⟩
    · exact fun s hs => List.mem_singleton.mp hs ▸ h compiled hcompile
    · intro m hm
      obtain rfl : m = message := by simpa [Log.errors] using hm
      exact ⟨received, compiled.select, List.prefix_rfl, List.prefix_rfl, hrefused⟩

namespace Store

variable {db : Database} {idField : String}

/-- A run over the catalog of a database asks the listed tables for their columns. -/
theorem sendsOnly_run (hdb : db.Declared) (engine : Engine) {forest : Forest}
    (read : forest.IsRead (db.catalog idField)) :
    Log.SendsOnly engine (fun s => ∃ t ∈ db.listed, Asks t idField s) []
      (Tree.preorderAll forest) (Forest.run engine forest).2 (forest.received engine) := by
  refine Forest.stretch_run (P := fun n link => ∃ t, Placed db idField t n link) read
    (Log.sendsOnly_composes _ _) ?_ ?_ fun n under => placed_root under
  · rintro n cs received link ⟨t, placed⟩ -
    exact n.sendsOnly_run received fun compiled hcompile =>
      ⟨t, placed.listed, placed.asks hdb hcompile⟩
  · rintro n link m field identifiers ⟨t, placed⟩ under hfield
    exact placed.child hdb under hfield identifiers

end Store

/-! ### Requests to a database -/

/-- What cannot be resolved is no refusal of the store. -/
theorem Selection.execution_not_mem_errors {catalog : Metadata} (message : String)
    (s : Selection (List Char)) (parent : Option Node) :
    .execution message ∉ s.errors catalog parent := by
  intro h
  have hcode := Selection.code_of_mem_errors h
  simp [RequestError.code] at hcode

namespace Store

variable {db : Database} {idField : String}

/-- What is sent while a request to the catalog of a database is served, and what is refused. -/
theorem sendsOnly_serve (hdb : db.Declared) (idField : String) (engine : Engine) (maxDepth : Nat)
    (request : Request) :
    let service : Service := ⟨db.catalog idField, engine, maxDepth⟩
    (∀ s ∈ service.received request, ∃ t ∈ db.listed, Asks t idField s) ∧
      ∀ message, .execution message ∈ (service.serve request).2.errors →
        ∃ past s, past ++ [s] <+: service.received request ∧ engine past s = .error message := by
  intro service
  cases hread : Forest.ofText service.catalog service.maxDepth request.document with
  | error fault =>
    rw [Service.received_of_error hread, Service.serve_of_error hread]
    exact ⟨List.forall_mem_nil _, by simp [Log.errors]⟩
  | ok result =>
    obtain ⟨forest, errors⟩ := result
    obtain ⟨s, hs, rfl, rfl⟩ := Forest.exists_outlines hread
    obtain ⟨statements, hreceived, hasks, hrefused⟩ :=
      sendsOnly_run hdb engine (hs.isRead (db.catalog idField))
    rw [Service.received_of_ok hread, Service.errors_serve_of_ok hread]
    constructor
    · rw [hreceived, List.nil_append]
      exact hasks
    · intro message hmessage
      have hrun := (List.mem_append.mp hmessage).resolve_left
        (s.execution_not_mem_errors message none)
      obtain ⟨past, s, -, hs, hanswer⟩ := hrefused message hrun
      exact ⟨past, s, hs, hanswer⟩

/-- The queries that a request to the catalog of a database sends are statements on the columns of
its listed tables, and the regular ones belong to the grammar. If the store executes what belongs to
it, whatever it is reported to have refused is a statement that is not regular. -/
theorem Database.serve_statements (hdb : db.Declared) (hplain : db.Plain) {engine : Engine}
    (executes : db.Executes engine) (idField : String) (maxDepth : Nat) (request : Request) :
    let service : Service := ⟨db.catalog idField, engine, maxDepth⟩
    let log := (service.serve request).2
    log.sent = (service.received request).map Select.render ∧
      (∀ s ∈ service.received request, ∃ t ∈ db.listed, Asks t idField s ∧
        (Regular t idField s → IsStatement db s.render.toList)) ∧
      ∀ message, .execution message ∈ log.errors →
        ∃ past s, past ++ [s] <+: service.received request ∧ engine past s = .error message ∧
          ∃ t ∈ db.listed, s.table = t.name ∧ ¬ Regular t idField s := by
  intro service log
  obtain ⟨hasks, hrefused⟩ := sendsOnly_serve hdb idField engine maxDepth request
  refine ⟨service.sent_serve request, ?_, ?_⟩
  · intro s hs
    obtain ⟨t, ht, asks⟩ := hasks s hs
    exact ⟨t, ht, asks, asks.isStatement hplain (mem_of_mem_listed ht)⟩
  · intro message hmessage
    obtain ⟨past, s, hs, hanswer⟩ := hrefused message hmessage
    obtain ⟨t, ht, asks⟩ := hasks s (hs.subset (List.mem_append_right _ List.mem_cons_self))
    refine ⟨past, s, hs, hanswer, t, ht, asks.table, ?_⟩
    intro regular
    have hstatement := asks.isStatement hplain (mem_of_mem_listed ht) regular
    obtain ⟨records, hrecords⟩ := executes past s hstatement
    rw [hrecords] at hanswer
    cases hanswer

/-! ### An archive -/

theorem IsFilter.eq_nil_or_prefix {filter : List Char} (h : IsFilter t filter) :
    filter = [] ∨ " WHERE ".toList <+: filter := by
  cases h with
  | none => exact .inl rfl
  | all _ _ => exact .inr (List.prefix_append _ _)

theorem IsPage.eq_nil_or_prefix {page : List Char} (h : IsPage page) :
    page = [] ∨ " LIMIT ".toList <+: page := by
  cases h with
  | none => exact .inl rfl
  | limit _ => exact .inr (List.prefix_append _ _)
  | offset _ _ =>
    rw [List.append_assoc]
    exact .inr (List.prefix_append _ _)

/-- A statement without conditions and without a page ends with its table. -/
theorem IsStatement.of_bare {text : List Char} (h : IsStatement db text)
    (hfilter : ¬ " WHERE ".toList <:+: text) (hpage : ¬ " LIMIT ".toList <:+: text) :
    ∃ t ∈ db, ∃ columns : List String, (∀ name ∈ columns, t.Names name) ∧
      text = "SELECT ".toList ++ ", ".toList.intercalate (columns.map String.toList) ++
        " FROM ".toList ++ t.name.toList := by
  obtain ⟨ht, -, -, hcolumns, filter, page⟩ := h
  refine ⟨_, ht, _, hcolumns, ?_⟩
  obtain rfl := filter.eq_nil_or_prefix.resolve_right fun h =>
    hfilter (h.isInfix.trans (List.infix_append _ _ _))
  obtain rfl := page.eq_nil_or_prefix.resolve_right fun h =>
    hpage (h.isInfix.trans (List.suffix_append _ _).isInfix)
  rw [List.append_nil, List.append_nil]

theorem not_mem_intercalate {c : Char} {separator : List Char} {items : List (List Char)}
    (hseparator : c ∉ separator) (hitems : ∀ s ∈ items, c ∉ s) :
    c ∉ separator.intercalate items := by
  induction items with
  | nil => simp
  | cons first rest ih =>
    obtain ⟨hfirst, hrest⟩ := List.forall_mem_cons.mp hitems
    cases rest with
    | nil => simpa using hfirst
    | cons second rest =>
      rw [List.intercalate_cons_cons, List.mem_append, List.mem_append]
      rintro ((hmem | hmem) | hmem)
      · exact hfirst hmem
      · exact hseparator hmem
      · exact ih hrest hmem

namespace Archive

def book : Table where
  name := "Book"
  columns := [⟨"Id", .integer⟩, ⟨"Title", .text⟩]
  primaryKey := ["Id"]
  foreignKeys := []
  rows := []

def note : Table where
  name := "Note"
  columns := [⟨"Line", .text⟩]
  primaryKey := []
  foreignKeys := []
  rows := []

/-- The table refers to one without a primary key. -/
def remark : Table where
  name := "Remark"
  columns := [⟨"Line", .text⟩, ⟨"note", .text⟩]
  primaryKey := []
  foreignKeys := [⟨["note"], note.name, ["Line"]⟩]
  rows := []

def database : Database := [book, note, remark]

theorem declared : database.Declared where
  distinct := by decide +kernel
  tables := by
    simp only [database, List.forall_mem_cons]
    refine ⟨?_, ?_, ?_, fun t ht => nomatch ht⟩
    all_goals exact ⟨by decide +kernel, by decide +kernel, by decide +kernel⟩

theorem plain : database.Plain where
  tables := by decide +kernel
  columns := by decide +kernel

def loneOffset : String := "SELECT Title FROM Book OFFSET 1"

def missingColumn : String := "SELECT Line, Id FROM Note"

/-- Without conditions and without a page there is only a table, and none is called by a number. -/
theorem not_isStatement_offset : ¬ IsStatement database loneOffset.toList := by
  intro h
  obtain ⟨t, ht, columns, -, htext⟩ := h.of_bare (by decide +kernel) (by decide +kernel)
  have hsuffix : t.name.toList <:+ loneOffset.toList := ⟨_, htext.symm⟩
  clear htext
  revert t
  decide +kernel

/-- The table has no column of that name. -/
theorem not_isStatement_missing : ¬ IsStatement database missingColumn.toList := by
  intro h
  obtain ⟨t, ht, columns, hcolumns, htext⟩ := h.of_bare (by decide +kernel) (by decide +kernel)
  have hsuffix : t.name.toList <:+ missingColumn.toList := ⟨_, htext.symm⟩
  obtain rfl : t = note := by
    clear hcolumns htext
    revert t
    decide +kernel
  -- only the missing column is written with this letter
  have hmem : 'd' ∈ missingColumn.toList := by decide +kernel
  rw [htext, List.append_assoc, List.append_assoc, List.mem_append, List.mem_append] at hmem
  rcases hmem with hmem | hmem | hmem
  · revert hmem
    decide +kernel
  · refine not_mem_intercalate (by decide +kernel) ?_ hmem
    intro s hs
    obtain ⟨name, hname, rfl⟩ := List.mem_map.mp hs
    obtain rfl : name = "Line" := List.mem_singleton.mp (hcolumns name hname).column
    decide +kernel
  · revert hmem
    decide +kernel

def titlesPage : String := "SELECT Title FROM Book LIMIT 2 OFFSET 1"

/-- A store with one book behind the first, which refuses what the grammar does not have. -/
def engine : Engine := .ofText fun text =>
  if text == loneOffset then
    .error ("near \"1\": syntax error in " ++ loneOffset ++ " at offset 30")
  else if text == missingColumn then
    .error ("no such column: Id in " ++ missingColumn ++ " at offset 13")
  else if text == titlesPage then .ok [.ofList [("Title", .text "B")]]
  else .ok []

theorem executes : Database.Executes database engine := by
  intro _ s hs
  have hoffset : s.render ≠ loneOffset := fun h => not_isStatement_offset (h ▸ hs)
  have hmissing : s.render ≠ missingColumn := fun h => not_isStatement_missing (h ▸ hs)
  rw [engine, Engine.ofText, if_neg (by simpa using hoffset), if_neg (by simpa using hmissing)]
  split <;> exact ⟨_, rfl⟩

/-- What happens while a query is served. -/
def log (query : String) : Log :=
  (Service.serve ⟨database.catalog "Id", engine, 32⟩ ⟨query, .empty⟩).2

/-- The titles of books, by a heading. -/
def titles (heading : String) : String := "\x7b" ++ heading ++ " \x7bTitle\x7d\x7d"

def titlesOf (word : String) : Selection (List Char) :=
  .node word.toList (.field "Title" .nil) .nil

/-- The lines of notes and of the remarks below them. -/
def lines : String := "\x7bNote \x7bLine Remark \x7bLine\x7d\x7d\x7d"

def linesOf : Selection (List Char) :=
  .node "Note".toList (.field "Line" (.node "Remark".toList (.field "Line" .nil) .nil)) .nil

variable {query : String} {s : Selection (List Char)}

theorem ofText_query (h : s.Outlines 32 query.toList) :
    Forest.ofText (database.catalog "Id") 32 (Request.document ⟨query, .empty⟩) =
      .ok (s.forest (database.catalog "Id"), s.errors (database.catalog "Id") none) :=
  h.ofText_eq _

theorem sent_log (h : s.Outlines 32 query.toList) :
    (log query).sent = (Forest.run engine (s.forest (database.catalog "Id"))).2.sent :=
  Service.sent_serve_of_ok (ofText_query h)

theorem errors_log (h : s.Outlines 32 query.toList) :
    (log query).errors = s.errors (database.catalog "Id") none ++
      (Forest.run engine (s.forest (database.catalog "Id"))).2.errors :=
  Service.errors_serve_of_ok (ofText_query h)

end Archive

open Archive in
theorem Database.serve_statements_books :
    let service : Service := ⟨database.catalog "Id", engine, 32⟩
    let request : Request := ⟨titles "Book(limit:2 offset:1)", .empty⟩
    (service.serve request).2.sent = [titlesPage] ∧
      (∀ s ∈ service.received request, ∃ t ∈ Database.listed database, Asks t "Id" s) ∧
      ∀ message, .execution message ∉ (service.serve request).2.errors := by
  intro service request
  have houtlines : (titlesOf "Book(limit:2,offset:1)").Outlines 32
      (titles "Book(limit:2 offset:1)").toList :=
    ⟨by decide +kernel, ⟨rfl, nofun, by decide⟩, by decide +kernel⟩
  have hpage : (service.serve request).2.sent = [titlesPage] :=
    (sent_log houtlines).trans (by decide +kernel)
  obtain ⟨hsent, hasks, hrefused⟩ :=
    Database.serve_statements declared plain executes "Id" 32 request
  refine ⟨hpage, ?_, ?_⟩
  · intro s hs
    obtain ⟨t, ht, asks, -⟩ := hasks s hs
    exact ⟨t, ht, asks⟩
  · intro message hmessage
    obtain ⟨past, s, hs, hanswer, -⟩ := hrefused message hmessage
    -- the one statement is answered
    have hrender : s.render = titlesPage := by
      have hmem : s.render ∈ [titlesPage] := by
        rw [← hpage, hsent]
        exact List.mem_map_of_mem (hs.subset (List.mem_append_right _ List.mem_cons_self))
      exact List.mem_singleton.mp hmem
    have hok : engine past s = .ok [.ofList [("Title", .text "B")]] := by
      rw [engine, Engine.ofText, hrender]
      rfl
    rw [hok] at hanswer
    cases hanswer

open Archive in
/-- The names of the archive are plain and its store executes what belongs to the grammar, and still
an offset is sent without a limit, and a table without a primary key is asked for an identifier that
it does not have. Both are refused. -/
theorem Database.serve_statements_refused :
    Database.Declared database ∧ Database.Plain database ∧ Database.Executes database engine ∧
      (log (titles "Book(offset:1)")).sent = [loneOffset] ∧
      ¬ IsStatement database loneOffset.toList ∧
      (log (titles "Book(offset:1)")).errors =
        [.execution "near \"1\": syntax error in SELECT Title FROM Book OFFSET 1 at offset 30"] ∧
      (log lines).sent = [missingColumn] ∧
      ¬ IsStatement database missingColumn.toList ∧
      (log lines).errors =
        [.execution "no such column: Id in SELECT Line, Id FROM Note at offset 13"] := by
  have htitles : (titlesOf "Book(offset:1)").Outlines 32 (titles "Book(offset:1)").toList :=
    ⟨by decide +kernel, ⟨rfl, nofun, by decide⟩, by decide +kernel⟩
  have hlines : linesOf.Outlines 32 lines.toList :=
    ⟨by decide +kernel, ⟨rfl, nofun, by decide⟩, by decide +kernel⟩
  refine ⟨declared, plain, executes, ?_, not_isStatement_offset, ?_, ?_, not_isStatement_missing,
    ?_⟩
  · rw [sent_log htitles]
    decide +kernel
  · rw [errors_log htitles]
    decide +kernel
  · rw [sent_log hlines]
    decide +kernel
  · rw [errors_log hlines]
    decide +kernel

end Store
end NestedQuery
