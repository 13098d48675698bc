import NestedQuery.Proofs.Select.Fields
import NestedQuery.Proofs.Select.Lexeme

/-!
# The text of a statement

The text of a compiled statement has a fixed form: its lexemes are the keywords, names and literals
that the node asks for, in order, and no others (`Node.scan_text`). In particular no value of an
argument and no identifier can end its literal early and go on as a part of the statement.

Floating point identifiers are left out.
-/

namespace NestedQuery

open Lexeme

namespace Value

/-- The lexemes of the literal of a value that is no floating point number. -/
def lexemes : Value → List Lexeme
  | null => []
  | bool b => [.number (if b then "1" else "0")]
  | int n => (if n < 0 then [.mark '-'] else []) ++ [.number (toString n.natAbs)]
  | real _ => []
  | text s => [.text s]
  | bytes b => [.bytes b]

def isReal : Value → Bool
  | real _ => true
  | _ => false

theorem scansTo_int (n : Int) : ScansTo (toString n).toList (int n).lexemes := by
  rw [Int.toString_eq_repr, Int.repr_eq_if, lexemes]
  by_cases h : n < 0
  · have hnat : (-n).toNat = n.natAbs := by omega
    rw [if_neg (by omega), if_pos h, hnat, String.toList_append]
    have hminus : ClosesTo ['-'] [.mark '-'] :=
      closesTo_mark (by decide) (by decide) (by decide) (by decide)
    exact hminus.append_scansTo (scansTo_number n.natAbs)
  · have hnat : n.toNat = n.natAbs := by omega
    rw [if_pos (by omega), if_neg h, hnat]
    exact scansTo_number n.natAbs

/-- A literal is read as the value it was written for. -/
theorem scansTo_literal {v : Value} {literal : String} (hv : v.isReal = false)
    (h : v.literal? = some literal) : ScansTo literal.toList v.lexemes := by
  cases v with
  | null => cases h
  | bool b =>
    cases h
    cases b with
    | true => exact scansTo_number 1
    | false => exact scansTo_number 0
  | int n => cases h; exact scansTo_int n
  | real x => cases hv
  | text s => cases h; exact scansTo_quote s
  | bytes b => cases h; exact scansTo_bytes b

end Value

namespace Lexeme

def separated (items : List (List Lexeme)) : List Lexeme := [Lexeme.mark ','].intercalate items

theorem closesTo_comma : ClosesTo [','] [.mark ','] :=
  closesTo_mark (by decide) (by decide) (by decide) (by decide)

theorem scansTo_separated {α : Type} {separator : List Char} {items : List α}
    {text : α → List Char} {lexemes : α → List Lexeme}
    (hseparator : ClosesTo separator [.mark ',']) (hbreaks : Breaks separator)
    (hne : separator ≠ []) (hitems : ∀ a ∈ items, ScansTo (text a) (lexemes a)) :
    ScansTo (separator.intercalate (items.map text)) (separated (items.map lexemes)) := by
  induction items with
  | nil => exact ScansTo.nil
  | cons a rest ih =>
    have ha : ScansTo (text a) (lexemes a) := hitems a List.mem_cons_self
    have hrest := ih fun b hb => hitems b (List.mem_cons_of_mem _ hb)
    cases rest with
    | nil => simpa [separated] using ha
    | cons b rest =>
      have hfirst := (ha.append_closesTo hseparator hbreaks hne).append_scansTo hrest
      simpa only [separated, List.map_cons, List.intercalate_cons_cons] using hfirst

end Lexeme

namespace Condition

/-- The names are plain and the values are no floating point numbers. -/
def isPlain : Condition → Bool
  | isIn column values => isName column && values.all fun v => !v.isReal
  | equals column _ => isName column
  | isNull column => isName column

def lexemes : Condition → List Lexeme
  | isIn column values =>
    [.word column, .word "IN", .mark '('] ++
      separated ((values.filter (·.literal?.isSome)).map Value.lexemes) ++ [.mark ')']
  | equals column content => [.word column, .mark '=', .text content]
  | isNull column => [.word column, .word "IS", .word "NULL"]

theorem literals_eq_map (values : List Value) :
    literals values = (values.filter (·.literal?.isSome)).map fun v => v.literal?.getD "" := by
  induction values with
  | nil => rfl
  | cons v rest ih =>
    rw [literals] at ih ⊢
    cases h : v.literal? <;> simp [h, ih]

theorem scansTo_render {c : Condition} (h : c.isPlain) : ScansTo c.render.toList c.lexemes := by
  cases c with
  | isIn column values =>
    rw [isPlain, Bool.and_eq_true, List.all_eq_true] at h
    have hvalues : ScansTo ([','].intercalate
        (((values.filter (·.literal?.isSome)).map fun v => (v.literal?.getD "").toList)))
        (separated ((values.filter (·.literal?.isSome)).map Value.lexemes)) := by
      refine scansTo_separated closesTo_comma (breaks_cons (by decide)) (by simp) ?_
      intro v hv
      obtain ⟨hmem, hsome⟩ := List.mem_filter.mp hv
      obtain ⟨literal, hliteral⟩ := Option.isSome_iff_exists.mp hsome
      rw [hliteral]
      exact Value.scansTo_literal (by simpa using h.2 v hmem) hliteral
    have hopen : ClosesTo ['('] [.mark '('] :=
      closesTo_mark (by decide) (by decide) (by decide) (by decide)
    have hclose : ClosesTo [')'] [.mark ')'] :=
      closesTo_mark (by decide) (by decide) (by decide) (by decide)
    have hin : ClosesTo " IN (".toList [.word "IN", .mark '('] :=
      (closesTo_spaced "IN" (by decide)).append hopen
    have htest := (hin.append_scansTo hvalues).append hclose.scansTo (breaks_cons (by decide))
    have hall := (scansTo_word column h.1).append htest (breaks_cons (by decide))
    simpa [render, Condition.column, test, literals_eq_map, Function.comp_def, lexemes] using hall
  | equals column content =>
    have hequals : ClosesTo " = ".toList [.mark '='] :=
      (closesTo_space.append
        (closesTo_mark (by decide) (by decide) (by decide) (by decide))).append closesTo_space
    have htest := hequals.append_scansTo (scansTo_quote content)
    have hall := (scansTo_word column h).append htest (breaks_cons (by decide))
    simpa [render, Condition.column, test, lexemes] using hall
  | isNull column =>
    have hnull : ScansTo " IS NULL".toList [.word "IS", .word "NULL"] :=
      (closesTo_spaced "IS" (by decide)).append_scansTo (scansTo_word "NULL" (by decide))
    have hall := (scansTo_word column h).append hnull (breaks_cons (by decide))
    simpa [render, Condition.column, test, lexemes] using hall

end Condition

namespace Select

/-- The names are plain and the values are no floating point numbers. -/
structure Plain (s : Select) : Prop where
  columns : ∀ column ∈ s.columns, isName column
  table : isName s.table
  conditions : ∀ c ∈ s.conditions, c.isPlain

/-- Conditions one after the other, each behind its connective. -/
def chained : List (List Lexeme) → List Lexeme
  | [] => []
  | c :: rest => .word "WHERE" :: c ++ rest.flatMap fun c => .word "AND" :: c

def page (keyword : String) (number : Option Nat) : List Lexeme :=
  match number with
  | some n => [.word keyword, .number (toString n)]
  | none => []

def lexemes (s : Select) : List Lexeme :=
  [.word "SELECT"] ++ separated (s.columns.map fun column => [.word column]) ++
    [.word "FROM", .word s.table] ++ chained (s.conditions.map Condition.lexemes) ++
    page "LIMIT" s.limit ++ page "OFFSET" s.offset

theorem scansTo_renderHead {s : Select} (h : s.Plain) :
    ScansTo s.renderHead.toList ([.word "SELECT"] ++
      separated (s.columns.map fun column => [.word column]) ++
      [.word "FROM", .word s.table]) := by
  have hselect : ClosesTo "SELECT ".toList [.word "SELECT"] :=
    (scansTo_word "SELECT" (by decide)).append_closesTo closesTo_space (breaks_cons (by decide))
      (by simp)
  have hcolumns : ScansTo (", ".toList.intercalate (s.columns.map String.toList))
      (separated (s.columns.map fun column => [.word column])) :=
    scansTo_separated (closesTo_comma.append closesTo_space) (breaks_cons (by decide)) (by simp)
      fun column hcolumn => scansTo_word column (h.columns column hcolumn)
  have hfrom : ClosesTo " FROM ".toList [.word "FROM"] := closesTo_spaced "FROM" (by decide)
  have htable := hfrom.append_scansTo (scansTo_word s.table h.table)
  have hall := (hselect.append_scansTo hcolumns).append htable (breaks_cons (by decide))
  simpa [renderHead, String.toList_append] using hall

theorem closesTo_connective (first : Bool) :
    ClosesTo (connective first).toList [.word (if first then "WHERE" else "AND")] := by
  cases first with
  | true => exact closesTo_spaced "WHERE" (by decide)
  | false => exact closesTo_spaced "AND" (by decide)

theorem breaks_renderConditions (first : Bool) (conditions : List Condition) :
    Breaks (renderConditions first conditions).toList := by
  cases conditions with
  | nil => exact fun _ hc => nomatch hc
  | cons c rest => cases first <;> simp [renderConditions, connective, Breaks, isBreak] <;> decide

/-- The lexemes of conditions behind the first one. -/
theorem scansTo_renderConditions_false {conditions : List Condition}
    (h : ∀ c ∈ conditions, c.isPlain) :
    ScansTo (renderConditions false conditions).toList
      ((conditions.map Condition.lexemes).flatMap fun c => .word "AND" :: c) := by
  induction conditions with
  | nil => exact ScansTo.nil
  | cons c rest ih =>
    have hrest := ih fun d hd => h d (List.mem_cons_of_mem _ hd)
    have hc := (closesTo_connective false).append_scansTo
      (Condition.scansTo_render (h c List.mem_cons_self))
    have hall := hc.append hrest (breaks_renderConditions false rest)
    simpa [renderConditions, String.toList_append] using hall

theorem scansTo_renderConditions {conditions : List Condition}
    (h : ∀ c ∈ conditions, c.isPlain) :
    ScansTo (renderConditions true conditions).toList
      (chained (conditions.map Condition.lexemes)) := by
  cases conditions with
  | nil => exact ScansTo.nil
  | cons c rest =>
    have hrest := scansTo_renderConditions_false fun d hd => h d (List.mem_cons_of_mem _ hd)
    have hc := (closesTo_connective true).append_scansTo
      (Condition.scansTo_render (h c List.mem_cons_self))
    have hall := hc.append hrest (breaks_renderConditions false rest)
    simpa [renderConditions, String.toList_append, chained] using hall

/-- A label and the number behind it, if there is one. -/
def numbered (label : String) (number : Option Nat) : String :=
  match number with
  | some n => label ++ toString n
  | none => ""

theorem scansTo_numbered {label keyword : String} (h : ClosesTo label.toList [.word keyword])
    (number : Option Nat) : ScansTo (numbered label number).toList (page keyword number) := by
  cases number with
  | none => exact ScansTo.nil
  | some n =>
    rw [numbered, String.toList_append]
    exact h.append_scansTo (scansTo_number n)

theorem breaks_numbered (label : String) (h : Breaks label.toList) (hne : label.toList ≠ [])
    (number : Option Nat) : Breaks (numbered label number).toList := by
  cases number with
  | none => exact fun _ hc => nomatch hc
  | some n =>
    rw [numbered, String.toList_append]
    cases hlabel : label.toList with
    | nil => exact absurd hlabel hne
    | cons c rest => exact breaks_cons (h c (by rw [hlabel]; rfl))

theorem scan_render {s : Select} (h : s.Plain) : scan s.render.toList = s.lexemes := by
  have hlimit : ClosesTo " LIMIT ".toList [.word "LIMIT"] := closesTo_spaced "LIMIT" (by decide)
  have hoffset : ClosesTo " OFFSET ".toList [.word "OFFSET"] := closesTo_spaced "OFFSET" (by decide)
  have hconditions := (scansTo_renderHead h).append (scansTo_renderConditions h.conditions)
    (breaks_renderConditions true s.conditions)
  have hlimited := hconditions.append (scansTo_numbered hlimit s.limit)
    (breaks_numbered " LIMIT " (breaks_cons (by decide)) (by decide) s.limit)
  have hall := hlimited.append (scansTo_numbered hoffset s.offset)
    (breaks_numbered " OFFSET " (breaks_cons (by decide)) (by decide) s.offset)
  have htext : s.render = s.renderHead ++ renderConditions true s.conditions ++
      numbered " LIMIT " s.limit ++ numbered " OFFSET " s.offset := rfl
  rw [htext, String.toList_append, String.toList_append, String.toList_append]
  exact hall.scan_eq

end Select

/-! ### What a node asks for -/

/-- The join field and the identifiers that are not null, if there is one. -/
def Link.lexemes (link : Link) : List (List Lexeme) :=
  let identifiers := link.identifiers.filter (· ≠ .null)
  if identifiers.isEmpty then []
  else
    [[.word link.joinField, .word "IN", .mark '('] ++
      separated (identifiers.map Value.lexemes) ++ [.mark ')']]

/-- The names in a link are plain and its identifiers are no floating point numbers. -/
structure Link.Plain (link : Link) : Prop where
  joinField : isName link.joinField
  identifiers : ∀ v ∈ link.identifiers, v.isReal = false

namespace Node

def filterLexemes? (n : Node) (field : String) : Option (List Lexeme) :=
  if field = "limit" ∨ field = "offset" then none
  else
    match n.arguments.find? field with
    | none => none
    | some (_, some raw) => some [.word field, .mark '=', .text (Argument.content raw)]
    | some (_, none) => some [.word field, .word "IS", .word "NULL"]

def lexemes (n : Node) (hasChildren : Bool) (link : Option Link) : List Lexeme :=
  let joinField := link.map (·.joinField)
  let joins := link.elim [] Link.lexemes
  let filters := (n.joinedFields joinField).filterMap n.filterLexemes?
  [.word "SELECT"] ++
    separated ((n.selectFields hasChildren joinField).map fun field => [.word field]) ++
    [.word "FROM", .word n.entity.name] ++ Select.chained (joins ++ filters) ++
    Select.page "LIMIT" (n.pageNumber? "limit") ++ Select.page "OFFSET" (n.pageNumber? "offset")

end Node

structure Entity.Plain (e : Entity) : Prop where
  name : isName e.name
  idField : isName e.idField
  fields : ∀ field ∈ e.fields.toList, isName field

theorem Value.isSome_literal? {v : Value} (h : v.isReal = false) :
    v.literal?.isSome = decide (v ≠ .null) := by
  cases v with
  | real x => cases h
  | null => rfl
  | bool b => rfl
  | int n => rfl
  | text s => rfl
  | bytes b => rfl

theorem Link.values_eq {link : Link} (h : link.Plain) :
    link.values = link.identifiers.filter (· ≠ .null) := by
  rw [values]
  exact List.filter_congr fun v hv => Value.isSome_literal? (h.identifiers v hv)

theorem Link.joinConditions_lexemes {link : Link} (h : link.Plain) :
    (Node.joinConditions (some link)).map Condition.lexemes = link.lexemes := by
  -- what the condition holds was filtered already
  have hall : link.values.filter (·.literal?.isSome) = link.values := by
    rw [values, List.filter_filter]
    simp
  rw [Node.joinConditions, lexemes, ← values_eq h]
  by_cases hempty : link.values.isEmpty
  · simp [hempty]
  · simp [hempty, Condition.lexemes, hall]

namespace Node

variable {n : Node} {hasChildren : Bool} {link : Option Link} {compiled : Compiled}

theorem condition_lexemes (n : Node) (field : String) :
    (n.condition? field).map Condition.lexemes = n.filterLexemes? field := by
  rw [condition?, filterLexemes?]
  by_cases hreserved : field = "limit" ∨ field = "offset"
  · have htest : (field == limitKey || field == offsetKey) = true := by
      simpa [limitKey, offsetKey] using hreserved
    rw [if_pos htest, if_pos hreserved]
    rfl
  · have htest : (field == limitKey || field == offsetKey) = false := by
      simpa [limitKey, offsetKey] using hreserved
    rw [htest, if_neg hreserved]
    rcases n.arguments.find? field with - | ⟨_, - | raw⟩
    · rfl
    · rfl
    · rfl

theorem isPlain_condition {field : String} {c : Condition} (hfield : isName field)
    (h : n.condition? field = some c) : c.isPlain := by
  unfold condition? at h
  split at h
  · cases h
  · obtain ⟨⟨key, value⟩, _, rfl⟩ := Option.map_eq_some_iff.mp h
    cases value with
    | none => exact hfield
    | some raw => exact hfield

theorem isPlain_joinConditions (h : ∀ l ∈ link, l.Plain) :
    ∀ c ∈ joinConditions link, c.isPlain := by
  intro c hc
  cases link with
  | none => cases hc
  | some link =>
    simp only [joinConditions] at hc
    split at hc
    · cases hc
    · obtain rfl := List.mem_singleton.mp hc
      have hvalues : ∀ v ∈ link.values, v.isReal = false := fun v hv =>
        (h link rfl).identifiers v (List.mem_filter.mp hv).1
      simpa [Condition.isPlain, (h link rfl).joinField] using hvalues

/-- The fields that are selected or compared have plain names. -/
theorem isName_joinField (hentity : n.entity.Plain) (hlink : ∀ l ∈ link, l.Plain) {field : String}
    (h : field ∈ n.entity.fields.toList ∨ link.map (·.joinField) = some field) : isName field := by
  rcases h with h | h
  · exact hentity.fields field h
  · obtain ⟨l, hl, rfl⟩ := Option.map_eq_some_iff.mp h
    exact (hlink l hl).joinField

theorem plain_select (hentity : n.entity.Plain) (hlink : ∀ l ∈ link, l.Plain)
    (h : n.compile hasChildren link = .ok compiled) : compiled.select.Plain := by
  rw [compile_ok h]
  constructor
  case columns =>
    -- a column is a field of the entity, the join field or the identifier
    intro column hcolumn
    rcases mem_of_mem_selectFields hcolumn with h | h | rfl
    · exact isName_joinField hentity hlink (.inl h)
    · exact isName_joinField hentity hlink (.inr h)
    · exact hentity.idField
  case table => exact hentity.name
  case conditions =>
    intro c hc
    rcases List.mem_append.mp hc with hc | hc
    · exact isPlain_joinConditions hlink c hc
    · obtain ⟨field, hfield, hc⟩ := List.mem_filterMap.mp hc
      exact isPlain_condition (isName_joinField hentity hlink (mem_of_mem_joinedFields hfield)) hc

/-- The text of a node that compiles is read as what the node asks for, and nothing else. -/
theorem scan_text (hentity : n.entity.Plain) (hlink : ∀ l ∈ link, l.Plain)
    (h : n.compile hasChildren link = .ok compiled) :
    scan compiled.text.toList = n.lexemes hasChildren link := by
  have hjoins : (joinConditions link).map Condition.lexemes = link.elim [] Link.lexemes := by
    cases link with
    | none => rfl
    | some l => exact Link.joinConditions_lexemes (hlink l rfl)
  rw [Compiled.text, Select.scan_render (plain_select hentity hlink h), compile_ok h]
  simp only [Select.lexemes, lexemes, List.map_append, hjoins, List.map_filterMap,
    condition_lexemes, limitKey, offsetKey]

end Node

/-! ### Values with quotes in them -/

namespace QuotedNames

def account : Entity := ⟨"Account", .ofList ["Id", "Name", "OwnerId"], "Id", []⟩

/-- A name that tries to end its literal, and an argument without a value. -/
def node : Node := { Node.asked "Account" "Account" account
    (.ofList [("Name", some "%27' OR Name = '%27"), ("OwnerId", none), ("limit", some "5")]) with
  requested := ["Name"] }

def link : Link := ⟨"OwnerId", [.null, .int (-3), .text "it's", .bytes [0, 39]]⟩

end QuotedNames

open QuotedNames in
theorem Node.scan_text_quoted :
    ∃ compiled, node.compile false (some link) = .ok compiled ∧
      scan compiled.text.toList =
        [.word "SELECT", .word "Name", .mark ',', .word "OwnerId", .word "FROM", .word "Account",
          .word "WHERE", .word "OwnerId", .word "IN", .mark '(', .mark '-', .number "3", .mark ',',
          .text "it's", .mark ',', .bytes [0, 39], .mark ')',
          .word "AND", .word "Name", .mark '=', .text "' OR Name = '",
          .word "AND", .word "OwnerId", .word "IS", .word "NULL",
          .word "LIMIT", .number "5"] := by
  have hok : (node.compile false (some link)).isOk := by decide +kernel
  cases hcompile : node.compile false (some link) with
  | error e => rw [hcompile] at hok; cases hok
  | ok compiled =>
    refine ⟨compiled, rfl, ?_⟩
    have hentity : node.entity.Plain := ⟨by decide, by decide, by decide +kernel⟩
    have hlink : ∀ l ∈ some link, l.Plain := by
      intro l hl
      cases hl
      exact ⟨by decide, by decide⟩
    rw [Node.scan_text hentity hlink hcompile]
    decide +kernel

end NestedQuery
