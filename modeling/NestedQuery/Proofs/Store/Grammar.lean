import Mathlib.Data.List.Basic
import NestedQuery.Proofs.Number.Digits
import NestedQuery.Proofs.Select.Lexeme
import NestedQuery.Select.Basic
import NestedQuery.Store.Table

/-!
# The grammar of statements

The texts that are statements over the tables of a database, part by part: names, constants,
conditions and a page. The grammar speaks of characters alone and knows nothing of how a statement
is rendered; `Select.Over.isStatement_render` says which rendered statements belong to it.

It is a part of the grammar of SQL. A page has an offset only behind a limit, and every column that
is named is one of the table.
-/

namespace NestedQuery.Store

open Text

/-! ### Names -/

/-- The words that SQL keeps for itself. -/
def keywords : List String :=
  ["abort", "action", "add", "after", "all", "alter", "always", "analyze", "and", "as", "asc",
    "attach", "autoincrement", "before", "begin", "between", "by", "cascade", "case", "cast",
    "check", "collate", "column", "commit", "conflict", "constraint", "create", "cross", "current",
    "current_date", "current_time", "current_timestamp", "database", "default", "deferrable",
    "deferred", "delete", "desc", "detach", "distinct", "do", "drop", "each", "else", "end",
    "escape", "except", "exclude", "exclusive", "exists", "explain", "fail", "filter", "first",
    "following", "for", "foreign", "from", "full", "generated", "glob", "group", "groups", "having",
    "if", "ignore", "immediate", "in", "index", "indexed", "initially", "inner", "insert",
    "instead", "intersect", "into", "is", "isnull", "join", "key", "last", "left", "like", "limit",
    "match", "materialized", "natural", "no", "not", "nothing", "notnull", "null", "nulls", "of",
    "offset", "on", "or", "order", "others", "outer", "over", "partition", "plan", "pragma",
    "preceding", "primary", "query", "raise", "range", "recursive", "references", "regexp",
    "reindex", "release", "rename", "replace", "restrict", "returning", "right", "rollback", "row",
    "rows", "savepoint", "select", "set", "table", "temp", "temporary", "then", "ties", "to",
    "transaction", "trigger", "unbounded", "union", "unique", "update", "using", "vacuum", "values",
    "view", "virtual", "when", "where", "window", "with", "without"]

/-- A letter or an underscore, and then letters, digits and underscores, that are no keyword in any
case. -/
def IsPlain (name : String) : Prop :=
  Lexeme.isName name = true ∧ ∀ word ∈ keywords, sameName name word = false

instance (name : String) : Decidable (IsPlain name) :=
  inferInstanceAs (Decidable (_ ∧ _))

/-- The name is a plain one of a column. -/
structure Table.Names (t : Table) (name : String) : Prop where
  column : name ∈ t.columns.map Column.name
  plain : IsPlain name

instance (t : Table) (name : String) : Decidable (t.Names name) :=
  decidable_of_iff (name ∈ t.columns.map Column.name ∧ IsPlain name)
    ⟨fun ⟨column, plain⟩ => ⟨column, plain⟩, fun h => ⟨h.column, h.plain⟩⟩

/-! ### Constants -/

/-- What stands between the quotes of a text. A quote is written twice. -/
inductive IsQuoted : List Char → Prop
  | nil : IsQuoted []
  | char {c : Char} {s : List Char} : c ≠ '\'' → IsQuoted s → IsQuoted (c :: s)
  | quote {s : List Char} : IsQuoted s → IsQuoted ('\'' :: '\'' :: s)

/-- Two hexadecimal digits for every byte. -/
inductive IsHex : List Char → Prop
  | nil : IsHex []
  | byte {high low : Char} {s : List Char} : (digitValue? 16 high).isSome = true →
      (digitValue? 16 low).isSome = true → IsHex s → IsHex (high :: low :: s)

structure IsDigits (s : List Char) : Prop where
  ne_nil : s ≠ []
  digits : ∀ c ∈ s, c.isDigit = true

inductive IsDecimal : List Char → Prop
  | whole {s : List Char} : IsDigits s → IsDecimal s
  | point {s t : List Char} : IsDigits s → IsDigits t → IsDecimal (s ++ '.' :: t)

inductive IsNumber : List Char → Prop
  | decimal {s : List Char} : IsDecimal s → IsNumber s
  | exponent {s sign t : List Char} : IsDecimal s → sign ∈ [[], ['+'], ['-']] → IsDigits t →
      IsNumber (s ++ 'e' :: (sign ++ t))

inductive IsConstant : List Char → Prop
  | text {s : List Char} : IsQuoted s → IsConstant ('\'' :: (s ++ ['\'']))
  | bytes {s : List Char} : IsHex s → IsConstant ('X' :: '\'' :: (s ++ ['\'']))
  | number {sign s : List Char} : sign ∈ [[], ['-']] → IsNumber s → IsConstant (sign ++ s)

/-! ### Statements -/

/-- A condition on a column of a table. -/
inductive IsCondition (t : Table) : List Char → Prop
  | isIn {name : String} {literals : List (List Char)} : t.Names name → literals ≠ [] →
      (∀ s ∈ literals, IsConstant s) →
      IsCondition t (name.toList ++ " IN (".toList ++ [','].intercalate literals ++ [')'])
  | equals {name : String} {s : List Char} : t.Names name → IsConstant s →
      IsCondition t (name.toList ++ " = ".toList ++ s)
  | isNull {name : String} : t.Names name → IsCondition t (name.toList ++ " IS NULL".toList)

/-- The conditions of a statement, of which there may be none. -/
inductive IsFilter (t : Table) : List Char → Prop
  | none : IsFilter t []
  | all {conditions : List (List Char)} : conditions ≠ [] → (∀ s ∈ conditions, IsCondition t s) →
      IsFilter t (" WHERE ".toList ++ " AND ".toList.intercalate conditions)

/-- The page of a statement. There is no offset without a limit. -/
inductive IsPage : List Char → Prop
  | none : IsPage []
  | limit {s : List Char} : IsDigits s → IsPage (" LIMIT ".toList ++ s)
  | offset {s t : List Char} : IsDigits s → IsDigits t →
      IsPage (" LIMIT ".toList ++ s ++ " OFFSET ".toList ++ t)

/-- A statement that asks for columns of one table. -/
inductive IsStatement (db : Database) : List Char → Prop
  | select {t : Table} {columns : List String} {filter page : List Char} : t ∈ db →
      IsPlain t.name → columns ≠ [] → (∀ name ∈ columns, t.Names name) → IsFilter t filter →
      IsPage page →
      IsStatement db ("SELECT ".toList ++ ", ".toList.intercalate (columns.map String.toList) ++
        " FROM ".toList ++ t.name.toList ++ filter ++ page)

/-! ### What is rendered -/

theorem isDigits_toDigits (n : Nat) : IsDigits (Nat.toDigits 10 n) where
  ne_nil := Nat.toDigits_ne_nil
  digits _ hc := Nat.isDigit_of_mem_toDigits (by decide) (by decide) hc

theorem isDigits_toString (n : Nat) : IsDigits (toString n).toList := by
  rw [Nat.toString_eq_ofList_toDigits, String.toList_ofList]
  exact isDigits_toDigits n

theorem isQuoted_flatMap (s : List Char) :
    IsQuoted (s.flatMap fun c => if c = '\'' then ['\'', '\''] else [c]) := by
  induction s with
  | nil => exact .nil
  | cons c s ih =>
    rw [List.flatMap_cons]
    split
    · exact .quote ih
    · next hc => exact .char hc ih

theorem isHex_hexOfBytes (b : List UInt8) : IsHex (hexOfBytes b) := by
  induction b with
  | nil => exact .nil
  | cons byte b ih =>
    have hlt : byte.toNat < 256 := byte.toNat_lt
    have hdigit : ∀ n < 16, (digitValue? 16 (hexDigit n)).isSome = true := by
      intro n hn
      rw [Lexeme.digitValue?_hexDigit n hn]
      rfl
    exact .byte (hdigit _ (by omega)) (hdigit _ (by omega)) ih

end NestedQuery.Store

namespace NestedQuery

open Store

namespace Significant

variable {s : Significant}

theorem Canonical.isDigits_whole (h : s.Canonical) : IsDigits s.whole where
  ne_nil := by
    unfold whole
    split
    · exact List.cons_ne_nil _ _
    · simp [h.ne_nil]
  digits := h.isDigit_whole

/-- In positions there is always a point, and digits on both sides of it. -/
theorem Canonical.isDecimal_inPositions (h : s.Canonical) :
    IsDecimal (DecimalStyle.literal.inPositions s.digits s.leading) := by
  rw [inPositions_eq _ h.ne_nil]
  split
  · exact .point h.isDigits_whole ⟨List.cons_ne_nil _ _, List.forall_mem_singleton.mpr rfl⟩
  · next hfraction =>
    refine .point h.isDigits_whole ⟨?_, h.isDigit_fraction⟩
    simpa using hfraction

theorem Canonical.isDecimal_mantissa (h : s.Canonical) : IsDecimal s.mantissa := by
  have hdigits := h.digits
  unfold mantissa
  split
  · next d e rest heq =>
    rw [heq] at hdigits
    obtain ⟨hd, hrest⟩ := List.forall_mem_cons.mp hdigits
    exact .point (s := [d]) ⟨List.cons_ne_nil _ _, List.forall_mem_singleton.mpr hd⟩
      ⟨List.cons_ne_nil _ _, hrest⟩
  · exact .whole ⟨h.ne_nil, hdigits⟩

theorem Canonical.isNumber_lay (h : s.Canonical) : IsNumber (s.lay .literal) := by
  rw [lay_literal]
  split
  · exact .decimal h.isDecimal_inPositions
  · rw [withExponent_literal, toList_repr_int]
    refine .exponent h.isDecimal_mantissa ?_ (isDigits_toDigits _)
    split <;> simp

end Significant

/-- A value is written in a query as a constant. -/
theorem Value.isConstant_of_literal? {v : Value} {literal : String}
    (h : v.literal? = some literal) : IsConstant literal.toList := by
  cases v with
  | null => cases h
  | bool b =>
    cases h
    have hdigits : IsDigits (if b then "1" else "0").toList := by
      cases b with
      | true => exact isDigits_toString 1
      | false => exact isDigits_toString 0
    have hsign : [] ∈ [[], ['-']] := List.mem_cons_self
    exact .number hsign (.decimal (.whole hdigits))
  | int n =>
    cases h
    rw [Int.toString_eq_repr, toList_repr_int]
    refine .number ?_ (.decimal (.whole (isDigits_toDigits _)))
    split <;> simp
  | real x =>
    rw [literal?, Option.ite_none_right_eq_some, Option.some_inj] at h
    rw [← h.2, DecimalStyle.toList_write rfl rfl]
    refine .number ?_ x.canonical_significant.isNumber_lay
    split <;> simp
  | text s =>
    cases h
    rw [quote, String.toList_ofList]
    exact .text (isQuoted_flatMap _)
  | bytes b =>
    cases h
    rw [String.toList_append, String.toList_append, List.append_assoc,
      String.toList_ofList (l := Text.hexOfBytes b)]
    exact .bytes (isHex_hexOfBytes b)

theorem Value.isConstant_quote (s : String) : IsConstant (Value.quote s).toList :=
  isConstant_of_literal? (v := .text s) rfl

/-- A condition on a column of the table, with something to compare it with. -/
structure Condition.Sound (t : Table) (c : Condition) : Prop where
  column : t.Names c.column
  literals : ∀ column values, c = .isIn column values → Condition.literals values ≠ []

theorem Condition.Sound.isCondition_render {t : Table} {c : Condition} (h : c.Sound t) :
    IsCondition t c.render.toList := by
  have hcolumn := h.column
  cases c with
  | isIn column values =>
    rw [render, Condition.column, test, String.toList_append, String.toList_append,
      String.toList_append, String.toList_intercalate, ← List.append_assoc, ← List.append_assoc]
    refine .isIn hcolumn ?_ ?_
    · simpa using h.literals column values rfl
    · intro s hs
      obtain ⟨literal, hliteral, rfl⟩ := List.mem_map.mp hs
      obtain ⟨v, -, hv⟩ := List.mem_filterMap.mp hliteral
      exact Value.isConstant_of_literal? hv
  | equals column content =>
    rw [render, Condition.column, test, String.toList_append, String.toList_append,
      ← List.append_assoc]
    exact .equals hcolumn (Value.isConstant_quote content)
  | isNull column =>
    rw [render, Condition.column, test, String.toList_append]
    exact .isNull hcolumn

/-- The statement asks for columns of a table. -/
structure Select.Over (s : Select) (t : Table) : Prop where
  table : s.table = t.name
  nonempty : s.columns ≠ []
  columns : ∀ name ∈ s.columns, t.Names name
  conditions : ∀ c ∈ s.conditions, c.Sound t

namespace Select

variable {db : Database} {t : Table} {s : Select}

theorem renderConditions_false_eq (conditions : List Condition) (front : List Char) :
    front ++ (renderConditions false conditions).toList =
      " AND ".toList.intercalate (front :: conditions.map fun c => c.render.toList) := by
  induction conditions generalizing front with
  | nil => simp [renderConditions]
  | cons c rest ih =>
    rw [renderConditions, String.toList_append, String.toList_append, List.append_assoc, ih,
      List.map_cons, List.intercalate_cons_cons, List.append_assoc]
    rfl

theorem isFilter_renderConditions {conditions : List Condition}
    (h : ∀ c ∈ conditions, c.Sound t) :
    IsFilter t (renderConditions true conditions).toList := by
  cases conditions with
  | nil => exact .none
  | cons c rest =>
    rw [renderConditions, String.toList_append, String.toList_append, List.append_assoc,
      renderConditions_false_eq]
    refine .all (List.cons_ne_nil _ _) ?_
    rw [List.forall_mem_cons, List.forall_mem_map]
    obtain ⟨hc, hrest⟩ := List.forall_mem_cons.mp h
    exact ⟨hc.isCondition_render, fun d hd => (hrest d hd).isCondition_render⟩

theorem isPage_render (h : s.offset.isSome = true → s.limit.isSome = true) :
    IsPage (s.renderLimit.toList ++ s.renderOffset.toList) := by
  rw [renderLimit, renderOffset]
  cases hlimit : s.limit with
  | none =>
    cases hoffset : s.offset with
    | none => exact .none
    | some n =>
      rw [hlimit, hoffset] at h
      cases h rfl
  | some n =>
    rw [String.toList_append]
    cases s.offset with
    | none =>
      rw [String.toList_empty, List.append_nil]
      exact .limit (isDigits_toString n)
    | some m =>
      rw [String.toList_append, ← List.append_assoc]
      exact .offset (isDigits_toString n) (isDigits_toString m)

/-- A statement on columns of a table that has no offset without a limit is rendered as the grammar
has it. -/
theorem Over.isStatement_render (h : s.Over t) (ht : t ∈ db) (hname : IsPlain t.name)
    (hoffset : s.offset.isSome = true → s.limit.isSome = true) :
    IsStatement db s.render.toList := by
  have hselect := IsStatement.select ht hname h.nonempty h.columns
    (isFilter_renderConditions h.conditions) (isPage_render hoffset)
  rw [render, renderHead, h.table]
  simp only [String.toList_append, String.toList_intercalate, List.append_assoc] at hselect ⊢
  exact hselect

end Select

end NestedQuery
