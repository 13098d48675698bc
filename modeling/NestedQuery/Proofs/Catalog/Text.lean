import NestedQuery.Catalog.File
import NestedQuery.Proofs.Keyed
import NestedQuery.Proofs.Toml.Lines
import NestedQuery.Proofs.Toml.Tables

/-!
# The text of a catalog

A catalog is written as lines of TOML, of which each is read back as it was written. The lines make
up the tables of the entities and of their relationships, and these give the entities again.

## Main result

`Catalog.listOfToml?_toToml`: the text of a catalog is read as its entities.
-/

namespace NestedQuery

namespace Toml.Written

/-- A line with a key and a string. -/
def ofString (k : String) (hk : IsKey k) (s : String) : Written where
  text := k.toList ++ ' ' :: '=' :: ' ' :: (writeString s).toList
  line := .pair [k] (.str s)
  reads rest := by
    have hread := lineContent_pair hk (isValue_writeString _ s) rest
    simpa using hread

/-- A line with a key and a list of strings. -/
def ofStrings (k : String) (hk : IsKey k) (items : List String) : Written where
  text := k.toList ++ ' ' :: '=' :: ' ' :: (writeStrings items).toList
  line := .pair [k] (.arr (items.map .str))
  reads rest := by
    have hread := lineContent_pair hk (isValue_writeStrings (depthLimit - 2) items) rest
    simpa using hread

theorem textOf_append (a b : List Written) : textOf (a ++ b) = textOf a ++ textOf b :=
  List.flatMap_append

theorem toList_writeLine_ofString (k : String) (hk : IsKey k) (s : String) :
    (writeLine k (writeString s)).toList = textOf [ofString k hk s] := by
  simp [writeLine, textOf, ofString]

theorem toList_writeLine_ofStrings (k : String) (hk : IsKey k) (items : List String) :
    (writeLine k (writeStrings items)).toList = textOf [ofStrings k hk items] := by
  simp [writeLine, textOf, ofStrings]

end Toml.Written

/-- What reads the values of items one by one reads the list of their values. -/
theorem mapM_map_eq_some {α β : Type} {read? : β → Option α} {write : α → β}
    (h : ∀ a, read? (write a) = some a) (items : List α) :
    (items.map write).mapM read? = some items := by
  induction items with
  | nil => rfl
  | cons a rest ih =>
    rw [List.map_cons, List.mapM_cons, h, ih]
    rfl

open Toml

/-! ### Relationships -/

namespace Relationship

/-- The members of the table of a relationship. -/
def members (r : Relationship) : List (String × Toml) :=
  [("name", .str r.name), ("entity", .str r.entity), ("join_field", .str r.joinField)]

theorem ofToml?_members (r : Relationship) : ofToml? (.table r.members) = some r := rfl

def lines (r : Relationship) : List Written :=
  [.blank, .childHeader, .ofString "name" (by decide +kernel) r.name,
    .ofString "entity" (by decide +kernel) r.entity,
    .ofString "join_field" (by decide +kernel) r.joinField]

theorem toList_toToml (r : Relationship) : r.toToml.toList = Written.textOf r.lines := by
  have hheader : "\n[[entity.children]]\n".toList = Written.textOf [.blank, .childHeader] := by
    decide
  unfold toToml lines
  rw [String.toList_append, String.toList_append, String.toList_append, hheader,
    Written.toList_writeLine_ofString "name" (by decide +kernel),
    Written.toList_writeLine_ofString "entity" (by decide +kernel),
    Written.toList_writeLine_ofString "join_field" (by decide +kernel), ← Written.textOf_append,
    ← Written.textOf_append, ← Written.textOf_append]
  rfl

end Relationship

/-! ### Entities -/

namespace Entity

/-- The members of the table of an entity, but for its relationships. -/
def members (e : Entity) : List (String × Toml) :=
  [("name", .str e.name), ("fields", .arr (e.fields.toList.map .str)), ("id_field", .str e.idField)]

/-- The table of an entity. -/
def table (e : Entity) : Toml :=
  .table (e.members ++ [("children", .arr (e.children.map fun r => .table r.members))])

theorem ofToml?_table (e : Entity) : ofToml? e.table = some e := by
  have hstring (s : String) : Toml.string? (.str s) = some s := rfl
  have hfields : (e.fields.toList.map Toml.str).mapM Toml.string? = some e.fields.toList :=
    mapM_map_eq_some hstring _
  have hset : (Ordered.ofList e.fields.toList : FieldSet) = e.fields :=
    Ordered.ext (Ordered.toList_ofList_of_ascending e.fields.ascending)
  have hchildren : (e.children.map fun r => Toml.table r.members).mapM Relationship.ofToml? =
      some e.children := mapM_map_eq_some Relationship.ofToml?_members _
  simp [ofToml?, table, members, Toml.Fields.of?, Toml.Fields.get?, Toml.find?, Toml.string?,
    Toml.strings?, Toml.optional?, Relationship.listOfToml?, hfields, hset, hchildren]

def lines (e : Entity) : List Written :=
  [.entityHeader, .ofString "name" (by decide +kernel) e.name,
      .ofStrings "fields" (by decide +kernel) e.fields.toList,
      .ofString "id_field" (by decide +kernel) e.idField] ++
    if e.children.isEmpty then [.ofStrings "children" (by decide +kernel) []]
    else e.children.flatMap Relationship.lines

theorem toList_toToml (e : Entity) : e.toToml.toList = Written.textOf e.lines := by
  have hheader : "[[entity]]\n".toList = Written.textOf [.entityHeader] := by decide
  have hchildren : (if e.children.isEmpty then "children = []\n"
      else String.join (e.children.map (·.toToml))).toList =
        Written.textOf (if e.children.isEmpty then [.ofStrings "children" (by decide +kernel) []]
          else e.children.flatMap Relationship.lines) := by
    split
    · exact Written.toList_writeLine_ofStrings "children" (by decide +kernel) []
    · rw [String.toList_join, List.flatMap_map, Written.textOf, List.flatMap_assoc]
      exact List.flatMap_congr fun r _ => r.toList_toToml
  unfold toToml lines
  rw [String.toList_append, String.toList_append, String.toList_append,
    String.toList_append, hheader, Written.toList_writeLine_ofString "name" (by decide +kernel),
    Written.toList_writeLine_ofStrings "fields" (by decide +kernel),
    Written.toList_writeLine_ofString "id_field" (by decide +kernel), hchildren,
    ← Written.textOf_append, ← Written.textOf_append, ← Written.textOf_append,
    ← Written.textOf_append]
  rfl

end Entity

/-! ### Lines of tables -/

namespace Toml

/-- The members of a table while the document is read. -/
def drafts (members : List (String × Toml)) : Draft.DraftMembers :=
  members.map fun (k, v) => (k, .value v)

theorem finishedMembers_drafts (members : List (String × Toml)) :
    Draft.finishedMembers (drafts members) = members := by
  rw [Draft.finishedMembers_eq_map, drafts, List.map_map]
  exact List.map_id _

end Toml

section Documents

variable {d : Toml.Document} {all below : List Draft.DraftMembers} {ms : Draft.DraftMembers}

/-- Members are added to a table that has none. -/
theorem foldlM_add_members {root : Draft.DraftMembers} {path : List String} {isArray : Bool}
    {members : List (String × Toml)} (h : (members.map Prod.fst).Nodup) :
    (members.map fun (k, v) => Line.pair [k] v).foldlM Document.add ⟨root, path, isArray, []⟩ =
      some ⟨root, path, isArray, drafts members⟩ := by
  rw [Document.foldlM_add_pairs]
  · rfl
  · simpa using h

/-- The lines of a relationship add a table to the array below the last entity. -/
theorem Relationship.exists_foldlM_add (r : Relationship)
    (h : d.close = some [("entity", .tables (all ++ [ms ++ Draft.arrayOf "children" below]))])
    (hfree : "children" ∉ ms.map Prod.fst) :
    ∃ d', (r.lines.map (·.line)).foldlM Document.add d = some d' ∧
      d'.close = some [("entity",
        .tables (all ++ [ms ++ Draft.arrayOf "children" (below ++ [drafts r.members])]))] := by
  have hlines : r.lines.map (·.line) = .blank :: .arrayHeader ["entity", "children"] ::
      r.members.map fun (k, v) => .pair [k] v := rfl
  have hblank : d.add .blank = some d := rfl
  have hkeys : (r.members.map Prod.fst).Nodup := by
    simp [members]
  refine ⟨⟨[("entity", .tables (all ++ [ms ++ [("children", .tables below)]]))],
    ["entity", "children"], true, drafts r.members⟩, ?_, ?_⟩
  · rw [hlines, List.foldlM_cons, hblank, Option.bind_eq_bind, Option.bind_some, List.foldlM_cons,
      Document.add_headerBelow h hfree, Option.bind_eq_bind, Option.bind_some]
    exact foldlM_add_members hkeys
  · rw [Document.close_headerBelow hfree, Draft.arrayOf_append]

theorem Relationship.exists_foldlM_addAll (rs : List Relationship)
    (h : d.close = some [("entity", .tables (all ++ [ms ++ Draft.arrayOf "children" below]))])
    (hfree : "children" ∉ ms.map Prod.fst) :
    ∃ d', ((rs.flatMap Relationship.lines).map (·.line)).foldlM Document.add d = some d' ∧
      d'.close = some [("entity", .tables (all ++
        [ms ++ Draft.arrayOf "children" (below ++ rs.map fun r => drafts r.members)]))] := by
  induction rs generalizing d below with
  | nil =>
    refine ⟨d, rfl, ?_⟩
    rw [List.map_nil, List.append_nil]
    exact h
  | cons r rest ih =>
    obtain ⟨d₁, hr, hclose⟩ := r.exists_foldlM_add h hfree
    obtain ⟨d₂, hrest, hclose⟩ := ih hclose
    refine ⟨d₂, ?_, ?_⟩
    · rw [List.flatMap_cons, List.map_append, List.foldlM_append, hr]
      exact hrest
    · rw [hclose]
      simp

/-- The table of an entity while the document is read. -/
def Entity.draft (e : Entity) : Draft.DraftMembers :=
  drafts e.members ++
    if e.children.isEmpty then drafts [("children", .arr [])]
    else Draft.arrayOf "children" (e.children.map fun r => drafts r.members)

theorem Entity.finished_draft (e : Entity) :
    Toml.table (Draft.finishedMembers e.draft) = e.table := by
  have happend (a b : Draft.DraftMembers) :
      Draft.finishedMembers (a ++ b) = Draft.finishedMembers a ++ Draft.finishedMembers b := by
    simp [Draft.finishedMembers_eq_map]
  rw [draft, table, happend, finishedMembers_drafts]
  cases hchildren : e.children with
  | nil => rfl
  | cons r rest =>
    simp [Draft.arrayOf, Draft.finishedMembers, Draft.finished, Draft.finishedTables_eq_map,
      finishedMembers_drafts]

/-- The lines of an entity add a table to the array of the entities. -/
theorem Entity.exists_foldlM_add (e : Entity) (h : d.close = some (Draft.arrayOf "entity" all)) :
    ∃ d', (e.lines.map (·.line)).foldlM Document.add d = some d' ∧
      d'.close = some (Draft.arrayOf "entity" (all ++ [e.draft])) := by
  have hkeys : (e.members.map Prod.fst).Nodup := by
    simp [members]
  have hfree : "children" ∉ (drafts e.members).map Prod.fst := by
    simp [members, drafts]
  have hhead : (Line.arrayHeader ["entity"] :: e.members.map fun (k, v) => Line.pair [k] v).foldlM
      Document.add d =
        some ⟨[("entity", .tables all)], ["entity"], true, drafts e.members⟩ := by
    rw [List.foldlM_cons, Document.add_header h, Option.bind_eq_bind, Option.bind_some]
    exact foldlM_add_members hkeys
  rw [Draft.arrayOf_append]
  cases hchildren : e.children with
  | nil =>
    have hlines : e.lines.map (·.line) =
        (.arrayHeader ["entity"] :: e.members.map fun (k, v) => .pair [k] v) ++
          [.pair ["children"] (.arr [])] := by
      rw [lines, hchildren]
      rfl
    refine ⟨⟨[("entity", .tables all)], ["entity"], true,
      drafts e.members ++ [("children", .value (.arr []))]⟩, ?_, ?_⟩
    · rw [hlines, List.foldlM_append, hhead, Option.bind_eq_bind, Option.bind_some,
        List.foldlM_cons, Document.add_pair hfree]
      rfl
    · rw [Document.close_header, draft, hchildren]
      rfl
  | cons r rest =>
    have hlines : e.lines.map (·.line) =
        (.arrayHeader ["entity"] :: e.members.map fun (k, v) => .pair [k] v) ++
          (e.children.flatMap Relationship.lines).map (·.line) := by
      rw [lines, hchildren, List.map_append]
      rfl
    have hclose : (Document.mk [("entity", .tables all)] ["entity"] true (drafts e.members)).close =
        some [("entity", .tables (all ++ [drafts e.members ++ Draft.arrayOf "children" []]))] := by
      rw [Document.close_header]
      simp [Draft.arrayOf]
    obtain ⟨d', hrest, hd'⟩ := Relationship.exists_foldlM_addAll e.children hclose hfree
    refine ⟨d', ?_, ?_⟩
    · rw [hlines, List.foldlM_append, hhead]
      exact hrest
    · rw [hd', draft, hchildren]
      rfl

/-- The lines of entities, each of them after a blank line. -/
theorem Entity.exists_foldlM_addAll (entities : List Entity)
    (h : d.close = some (Draft.arrayOf "entity" all)) :
    ∃ d', ((entities.flatMap fun e => .blank :: e.lines).map (·.line)).foldlM Document.add d =
        some d' ∧
      d'.close = some (Draft.arrayOf "entity" (all ++ entities.map draft)) := by
  induction entities generalizing d all with
  | nil =>
    refine ⟨d, rfl, ?_⟩
    rw [List.map_nil, List.append_nil]
    exact h
  | cons e rest ih =>
    have hblank : d.add Written.blank.line = some d := rfl
    obtain ⟨d₁, he, hclose⟩ := e.exists_foldlM_add h
    obtain ⟨d₂, hrest, hclose⟩ := ih hclose
    refine ⟨d₂, ?_, ?_⟩
    · rw [List.flatMap_cons, List.cons_append, List.map_cons, List.foldlM_cons, hblank,
        Option.bind_eq_bind, Option.bind_some, List.map_append, List.foldlM_append, he]
      exact hrest
    · rw [hclose]
      simp

end Documents

/-! ### Catalogs -/

namespace Catalog

def lines : List Entity → List Written
  | [] => [.ofStrings "entity" (by decide +kernel) []]
  | e :: rest => e.lines ++ rest.flatMap fun e => .blank :: e.lines

theorem toList_intercalate_toToml (e : Entity) (rest : List Entity) :
    ("
".intercalate ((e :: rest).map (·.toToml))).toList =
      Written.textOf (lines (e :: rest)) := by
  induction rest generalizing e with
  | nil => simp [lines, e.toList_toToml]
  | cons e' rest ih =>
    have hblank : ("
" : String).toList = Written.textOf [.blank] := by decide
    rw [List.map_cons, List.map_cons, String.intercalate_cons_cons, String.toList_append,
      String.toList_append, ← List.map_cons, ih, e.toList_toToml, hblank,
      ← Written.textOf_append, ← Written.textOf_append]
    simp [lines]

theorem toList_toToml (c : Catalog) : c.toToml.toList = Written.textOf (lines c.toList) := by
  rw [toToml]
  cases hentities : c.toList with
  | nil => decide
  | cons e rest => exact toList_intercalate_toToml e rest

theorem exists_foldlM_add_lines (e : Entity) (rest : List Entity) :
    ∃ d, ((lines (e :: rest)).map (·.line)).foldlM Document.add .empty = some d ∧
      d.close = some [("entity", .tables ((e :: rest).map Entity.draft))] := by
  have hempty : Document.empty.close = some (Draft.arrayOf "entity" []) := rfl
  obtain ⟨d₁, he, hclose⟩ := e.exists_foldlM_add hempty
  obtain ⟨d₂, hrest, hclose⟩ := Entity.exists_foldlM_addAll rest hclose
  refine ⟨d₂, ?_, hclose⟩
  rw [lines, List.map_append, List.foldlM_append, he]
  exact hrest

/-- A text that does not begin with a byte order mark is read line by line. -/
theorem ofText?_textOf {s : String} {written : List Written} {c : Char} {cs : List Char}
    {d : Document} {ms : Draft.DraftMembers} (hs : s.toList = Written.textOf written)
    (hhead : Written.textOf written = c :: cs) (hmark : c ≠ '\uFEFF')
    (hadd : (written.map (·.line)).foldlM Document.add .empty = some d)
    (hclose : d.close = some ms) : Toml.ofText? s = some (Draft.finishedMembers ms) := by
  have hne : written ≠ [] := by
    rintro rfl
    cases hhead
  have hlength : written.length ≤ (c :: cs).length + 1 := by
    have hitem (w : Written) : w.text ++ ['\n'] ≠ [] := by simp
    rw [← hhead]
    exact Nat.le_succ_of_le (length_le_flatMap hitem written)
  have hread := readLines_written hne hlength
  rw [hhead] at hs hread
  rw [ofText?, hs]
  split
  · next heq => exact absurd (List.cons.inj heq).1 hmark
  · simp only [hread, hadd, hclose, Option.bind_eq_bind, Option.bind_some, Option.pure_def]

/-- What is read of the tables of entities is the list of the entities. -/
theorem listOfToml?_drafts (entities : List Entity) :
    Entity.listOfToml? (Draft.finishedMembers [("entity", .tables (entities.map Entity.draft))]) =
      some entities := by
  have htables : (entities.map Entity.draft).map (fun ms => .table (Draft.finishedMembers ms)) =
      entities.map Entity.table := by
    rw [List.map_map]
    exact List.map_congr_left fun e _ => e.finished_draft
  have hmembers : Draft.finishedMembers [("entity", .tables (entities.map Entity.draft))] =
      [("entity", .arr (entities.map Entity.table))] := by
    rw [Draft.finishedMembers_eq_map, ← htables, ← Draft.finishedTables_eq_map]
    rfl
  have hfind : Toml.find? "entity" [("entity", .arr (entities.map Entity.table))] =
      some (.arr (entities.map Entity.table)) := rfl
  rw [hmembers, Entity.listOfToml?, hfind]
  exact mapM_map_eq_some Entity.ofToml?_table entities

/-- The text of a catalog is read as its entities. -/
theorem listOfToml?_toToml (c : Catalog) :
    (Toml.ofText? c.toToml).bind Entity.listOfToml? = some c.toList := by
  have htext := c.toList_toToml
  cases hentities : c.toList with
  | nil =>
    rw [hentities] at htext
    have hhead : Written.textOf (lines []) = 'e' :: "ntity = []\n".toList := by decide
    have hclose : (Document.mk [] [] false [("entity", .value (.arr []))]).close =
        some [("entity", .value (.arr []))] := rfl
    rw [ofText?_textOf htext hhead (by decide) rfl hclose]
    rfl
  | cons e rest =>
    rw [hentities] at htext
    obtain ⟨cs, hhead⟩ : ∃ cs, Written.textOf (lines (e :: rest)) = '[' :: cs := ⟨_, rfl⟩
    obtain ⟨d, hadd, hclose⟩ := exists_foldlM_add_lines e rest
    rw [ofText?_textOf htext hhead (by decide) hadd hclose, Option.bind_some]
    exact listOfToml?_drafts (e :: rest)

end Catalog

end NestedQuery
