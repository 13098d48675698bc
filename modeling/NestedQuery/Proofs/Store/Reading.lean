import NestedQuery.Proofs.Select.Tables
import NestedQuery.Proofs.Store.Acceptance

/-!
# What a database reads

An answer is read off the rows of a table: those that meet all conditions, in some order, of these
one page, and of each row the columns that are asked for. In which order a database comes to its
rows, and when the cell in a column equals a literal, is its own affair (`Reading`). A store answers
as a database reads if it refuses no statement over the tables that is sent without a page, and
answers with what is read (`Database.Answers`).
-/

namespace NestedQuery.Store

/-! ### Cells -/

namespace Cell

variable {kind : Kind} {v : Value} {a b c : Cell}

/-- The cell is null or holds a value of a kind. The bytes of a text are well formed then. -/
def IsOf (kind : Kind) (c : Cell) : Prop := ∃ v : Value, v.isOf kind = true ∧ c = ofValue v

theorem toValue_ofValue (h : v.isOf kind = true) : (ofValue v).toValue = v := by
  cases kind <;> cases v <;> simp only [Value.isOf, reduceCtorEq] at h
  · rfl
  · simp only [ofValue, toValue, Text.Utf8.decodeLossy_encode, String.ofList_toList]
  · rfl
  · rfl

theorem IsOf.toValue (h : c.IsOf kind) : c.toValue.isOf kind = true := by
  obtain ⟨v, hv, rfl⟩ := h
  rwa [toValue_ofValue hv]

theorem IsOf.ofValue_toValue (h : c.IsOf kind) : ofValue c.toValue = c := by
  obtain ⟨v, hv, rfl⟩ := h
  rw [toValue_ofValue hv]

theorem IsOf.toValue_inj (ha : a.IsOf kind) (hb : b.IsOf kind) (h : a.toValue = b.toValue) :
    a = b := by
  rw [← ha.ofValue_toValue, h, hb.ofValue_toValue]

theorem toValue_eq_null : c.toValue = .null ↔ c = null := by
  cases c <;> simp [toValue]

/-- The cell has the key of another one, which is not null. -/
def hasKeyOf (c p : Cell) : Bool := p.toValue.key?.any fun key => c.toValue.key? == some key

/-- Cells of one kind have one key just if they are the same. -/
theorem IsOf.hasKeyOf_iff (ha : a.IsOf kind) (hb : b.IsOf kind) :
    a.hasKeyOf b = true ↔ a = b ∧ b ≠ null := by
  rw [hasKeyOf, Option.any_eq_true]
  constructor
  · rintro ⟨key, hkey, hsame⟩
    have hvalues := Value.eq_of_key? ha.toValue hb.toValue (beq_iff_eq.mp hsame) hkey
    refine ⟨ha.toValue_inj hb hvalues, ?_⟩
    rintro rfl
    cases hkey
  · rintro ⟨rfl, hnull⟩
    cases hkey : a.toValue.key? with
    | none =>
      rw [Value.key?_eq_none ha.toValue, toValue_eq_null] at hkey
      exact absurd hkey hnull
    | some key => exact ⟨key, rfl, beq_self_eq_true _⟩

end Cell

/-! ### Rows and records -/

namespace Table

variable {t : Table} {c : Column} {name : String} {columns : List String}

/-- The cell of a row in a column. -/
def cellIn (t : Table) (name : String) (row : List Cell) : Cell :=
  ((t.column? name).map fun (place, _) => cell row place).getD .null

/-- The record of a row, with the columns that are asked for. -/
def project (t : Table) (columns : List String) (row : List Cell) : Record :=
  .ofList (columns.map fun name => (name, (t.cellIn name row).toValue))

theorem get?_project (h : name ∈ columns) (row : List Cell) :
    (t.project columns row).get? name = some (t.cellIn name row).toValue := by
  have hmem : (name, (t.cellIn name row).toValue) ∈
      columns.map fun name => (name, (t.cellIn name row).toValue) := List.mem_map_of_mem h
  rw [Record.get?, project, Ordered.find?_ofList_of_unique hmem]
  · rfl
  intro item hitem hname
  obtain ⟨name', -, rfl⟩ := List.mem_map.mp hitem
  cases hname
  rfl

/-- A name in any case stands for the column that is declared so. -/
theorem Declared.cellIn_declaredName (h : t.Declared)
    (hcolumn : ∃ c ∈ t.columns, sameName c.name name = true) :
    t.cellIn (t.declaredName name) = t.cellIn name := by
  obtain ⟨place, c, hfound⟩ := exists_column? hcolumn
  funext row
  have hdeclared : t.declaredName name = c.name := by
    rw [declaredName, hfound]
    rfl
  rw [cellIn, cellIn, hdeclared, h.column?_getElem (getElem_of_column? hfound), hfound]

/-- The column that identifies the rows is one of the table. -/
def Identified (t : Table) (idField : String) : Prop :=
  t.idField idField ∈ t.columns.map Column.name

/-- The cells of a column of the table are null or of a kind. -/
structure Holds (t : Table) (kind : Kind) (name : String) : Prop where
  column : ∃ c ∈ t.columns, sameName c.name name = true
  cells : ∀ row ∈ t.rows, (t.cellIn name row).IsOf kind

end Table

/-! ### Answers -/

/-- How a database reads its tables. -/
structure Reading where
  -- the rows of a table in the order in which a statement comes to them
  rows : Select → Table → List (List Cell)
  -- whether the cell in a column equals a literal
  equals : Table → String → Cell → String → Bool

namespace Reading

/-- Whether the cell in a column equals another one, of which the database is given the literal. -/
def agrees (reading : Reading) (t : Table) (name : String) (c p : Cell) : Bool :=
  p.toValue.literal?.any (reading.equals t name c)

def meets (reading : Reading) (t : Table) (row : List Cell) : Condition → Bool
  | .isIn name values =>
    (Condition.literals values).any (reading.equals t name (t.cellIn name row))
  | .equals name content => reading.equals t name (t.cellIn name row) (Value.quote content)
  | .isNull name => t.cellIn name row == .null

/-- The rows that a statement finds, in the order in which it comes to them. -/
def found (reading : Reading) (t : Table) (s : Select) : List (List Cell) :=
  (reading.rows s t).filter fun row => s.conditions.all (reading.meets t row)

def answer (reading : Reading) (t : Table) (s : Select) : List Record :=
  (page s.limit s.offset (reading.found t s)).map (t.project s.columns)

end Reading

/-- The store answers the statements that it receives over the tables of a database as they are read
off its rows. -/
structure Database.Answers (db : Database) (engine : Engine) (reading : Reading)
    (received : List Select) : Prop where
  -- every row is come to once, in whatever order
  rows : ∀ t ∈ db, ∀ s, (reading.rows s t).Perm t.rows
  -- an integer or a text equals the literal that is written for it
  equals : ∀ t ∈ db, ∀ row ∈ t.rows, ∀ name ∈ t.columns.map Column.name, ∀ kind,
    (t.cellIn name row).IsOf kind → t.cellIn name row ≠ .null →
      reading.agrees t name (t.cellIn name row) (t.cellIn name row) = true
  -- without a page no statement is refused
  answered : ∀ t ∈ db, ∀ before (s : Select), before ++ [s] <+: received → s.Over t →
    s.limit = none → s.offset = none → ∃ records, engine before s = .ok records
  answer : ∀ t ∈ db, ∀ before (s : Select) records, before ++ [s] <+: received → s.Over t →
    engine before s = .ok records → records = reading.answer t s

end NestedQuery.Store
