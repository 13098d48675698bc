import NestedQuery.Proofs.Keyed
import NestedQuery.Proofs.Number.Digits
import NestedQuery.Select.OfNode
import NestedQuery.Store.Answer

/-!
# Statements over tables

What a statement asks of a store of finite tables: the rows that meet all conditions, in table
order, of these one page, and of each row the selected columns.

Identifiers that are all texts or all integers are told apart by their keys and by their literals
(`Value.eq_of_key?`, `Value.eq_of_literal?`), so a store finds the same children by a list of
literals as a comparison of keys does afterwards.
-/

namespace NestedQuery

/-- Finite tables by name. How a column compares its values with a text is up to the store. -/
structure Tables where
  rows : String → List Record
  -- whether a value in a column of a table equals a text
  equalsText : (table column : String) → Value → String → Bool

namespace Record

/-- The record without the columns that are not named. -/
def project (columns : List String) (r : Record) : Record :=
  ⟨r.toList.filter fun p => columns.contains p.1, r.ascending.filter _⟩

theorem get?_project_eq (columns : List String) (column : String) (r : Record) :
    (r.project columns).get? column = if columns.contains column then r.get? column else none := by
  have hfind : (r.project columns).find? column = (r.restrict columns.contains).find? column := rfl
  rw [get?, hfind, Ordered.find?_restrict]
  split
  · rfl
  · rfl

theorem get?_project {columns : List String} {column : String} (h : column ∈ columns)
    (r : Record) : (r.project columns).get? column = r.get? column := by
  rw [get?_project_eq, if_pos (List.contains_iff_mem.mpr h)]

theorem get?_of_get?_project {columns : List String} {column : String} {r : Record} {v : Value}
    (h : (r.project columns).get? column = some v) : r.get? column = some v := by
  rw [get?_project_eq] at h
  split at h
  · exact h
  · cases h

end Record

theorem Store.mem_of_mem_page {α : Type} {limit offset : Option Nat} {items : List α} {a : α}
    (h : a ∈ Store.page limit offset items) : a ∈ items := by
  unfold Store.page at h
  simp only at h
  split at h
  · exact List.mem_of_mem_drop (List.mem_of_mem_take h)
  · exact List.mem_of_mem_drop h

namespace Tables

/-- Whether a row meets a condition. Null, and a value that is missing, equals nothing. -/
def meets (tables : Tables) (table : String) (row : Record) : Condition → Bool
  | .isIn column values => (row.get? column).any fun v => v != .null && values.contains v
  | .equals column content =>
    (row.get? column).any fun v => v != .null && tables.equalsText table column v content
  | .isNull column => (row.get? column).all fun v => v == .null

/-- The rows of a table that meet all conditions. -/
def rowsWith (tables : Tables) (table : String) (conditions : List Condition) : List Record :=
  (tables.rows table).filter fun row => conditions.all (tables.meets table row)

/-- The answer to a statement. -/
def answer (tables : Tables) (s : Select) : List Record :=
  (Store.page s.limit s.offset (tables.rowsWith s.table s.conditions)).map
    (Record.project s.columns)

theorem rowsWith_append (tables : Tables) (table : String) (before conditions : List Condition) :
    tables.rowsWith table (before ++ conditions) =
      (tables.rowsWith table conditions).filter fun row =>
        before.all (tables.meets table row) := by
  simp only [rowsWith, List.filter_filter, List.all_append]

end Tables

/-! ### Identifiers of one kind -/

/-- The kinds of identifiers. -/
inductive Kind where
  | text
  | int
  deriving DecidableEq

namespace Value

/-- The value is null or of the kind. -/
def isOf : Kind → Value → Bool
  | _, null => true
  | .text, text _ => true
  | .int, int _ => true
  | _, _ => false

/-- Doubling quotes loses nothing. -/
theorem flatMap_double_inj {s t : List Char}
    (h : (s.flatMap fun c => if c = '\'' then ['\'', '\''] else [c]) =
      t.flatMap fun c => if c = '\'' then ['\'', '\''] else [c]) : s = t := by
  induction s generalizing t with
  | nil =>
    cases t with
    | nil => rfl
    | cons d t => by_cases hd : d = '\'' <;> simp [hd] at h
  | cons c s ih =>
    cases t with
    | nil => by_cases hc : c = '\'' <;> simp [hc] at h
    | cons d t =>
      rw [List.flatMap_cons, List.flatMap_cons] at h
      by_cases hc : c = '\'' <;> by_cases hd : d = '\'' <;> simp [hc, hd] at h ⊢
      · exact ih h
      · exact absurd h.1.symm hd
      · exact ⟨h.1, ih h.2⟩

theorem quote_inj {s t : String} (h : quote s = quote t) : s = t := by
  have hlist := congrArg String.toList h
  simp only [quote, String.toList_ofList, List.cons_append, List.cons.injEq, true_and] at hlist
  exact String.toList_inj.mp (flatMap_double_inj (List.append_cancel_right hlist))

variable {kind : Kind} {v w : Value}

theorem key?_eq_none (h : v.isOf kind) : v.key? = none ↔ v = .null := by
  cases v <;> cases kind <;> simp_all [isOf, key?]

theorem literal?_eq_none (h : v.isOf kind) : v.literal? = none ↔ v = .null := by
  cases v <;> cases kind <;> simp_all [isOf, literal?]

/-- Values of one kind with the same key are the same. -/
theorem eq_of_key? {key : String} (hv : v.isOf kind) (hw : w.isOf kind) (hkey : v.key? = some key)
    (h : w.key? = some key) : v = w := by
  cases kind <;> cases v <;> simp only [isOf, key?, reduceCtorEq] at hv hkey <;> cases w <;>
    simp only [isOf, key?, reduceCtorEq] at hw h
  · simp_all
  · rw [← hkey] at h
    rw [eq_of_repr_eq (Option.some.inj h)]

/-- Values of one kind with the same literal are the same. -/
theorem eq_of_literal? {literal : String} (hv : v.isOf kind) (hw : w.isOf kind)
    (hliteral : v.literal? = some literal) (h : w.literal? = some literal) : v = w := by
  cases kind <;> cases v <;> simp only [isOf, literal?, reduceCtorEq] at hv hliteral <;>
    cases w <;> simp only [isOf, literal?, reduceCtorEq] at hw h
  · rw [← hliteral] at h
    rw [quote_inj (Option.some.inj h)]
  · rw [← hliteral] at h
    rw [eq_of_repr_eq (Option.some.inj h)]

end Value

end NestedQuery
