import NestedQuery.Proofs.Store.Schema

/-!
# The names of references

A reference is called like its child table, or after table and column where the child refers to the
parent more than once. References of one table to one parent have different names, unless they are
by one column. But a table may be called like another table and its column, and then references of
different tables have one name.

## Main result

`Database.relationship?_name`: the relationships of a table have one for each reference to it, and
the reference is found by its name just if no other table shadows it (`Reference.Shadows`).
-/

namespace NestedQuery.Store

namespace Reference

variable {references : List Reference} {r s : Reference}

theorem name_of_isRepeated (h : r.isRepeated references = true) :
    r.name references = r.child ++ "_" ++ r.column := if_pos h

theorem name_of_not_isRepeated (h : r.isRepeated references = false) :
    r.name references = r.child := by
  simp only [name, h, Bool.false_eq_true, ↓reduceIte]

/-! ### References of one table -/

theorem isRepeated_congr (hparent : s.parent = r.parent) (hchild : s.child = r.child) :
    s.isRepeated references = r.isRepeated references := by
  rw [isRepeated, isRepeated, hparent, hchild]

theorem eq_of_not_isRepeated (hs : s ∈ references) (hr : r ∈ references)
    (hparent : s.parent = r.parent) (hchild : s.child = r.child)
    (h : r.isRepeated references = false) : s = r := by
  rw [isRepeated, decide_eq_false_iff_not, List.countP_eq_length_filter] at h
  -- there is room for one reference alone
  generalize hbetween : references.filter (fun s => s.parent == r.parent && s.child == r.child) =
    between at h
  have hsmem : s ∈ between := by
    rw [← hbetween]
    simp [hs, hparent, hchild]
  have hrmem : r ∈ between := by
    rw [← hbetween]
    simp [hr]
  match between, hsmem, hrmem with
  | [a], hsmem, hrmem =>
    exact (List.mem_singleton.mp hsmem).trans (List.mem_singleton.mp hrmem).symm
  | a :: b :: rest, _, _ => simp at h

/-- References of one table to one parent that have one name are one relationship. -/
theorem relationship_eq_of_name_eq (hs : s ∈ references) (hr : r ∈ references)
    (hparent : s.parent = r.parent) (hchild : s.child = r.child)
    (hname : s.name references = r.name references) :
    s.relationship references = r.relationship references := by
  have hsame : s.isRepeated references = r.isRepeated references :=
    isRepeated_congr hparent hchild
  cases h : r.isRepeated references with
  | false => rw [eq_of_not_isRepeated hs hr hparent hchild h]
  | true =>
    rw [name_of_isRepeated h, name_of_isRepeated (hsame.trans h), hchild] at hname
    have hcolumn : s.column = r.column := by simpa using hname
    simp only [relationship, name, hsame, hchild, hcolumn]

/-! ### References of different tables -/

/-- Another table refers to the parent of `r` as well, its reference has the name of `r`, and what
it is called after begins the name of the table of `r`. -/
structure Shadows (references : List Reference) (s r : Reference) : Prop where
  mem : s ∈ references
  parent : s.parent = r.parent
  name : s.name references = r.name references
  child : (s.child ++ "_").toList <+: r.child.toList

/-- A name comes before those that it begins. -/
theorem lt_of_prefix {a b : String} (h : (a ++ "_").toList <+: b.toList) : a < b := by
  obtain ⟨rest, hrest⟩ := h
  have hlt : a.toList ++ [] < a.toList ++ ("_".toList ++ rest) := by
    apply List.append_left_lt
    exact List.nil_lt_cons _ _
  rw [List.append_nil, ← List.append_assoc, ← String.toList_append, hrest] at hlt
  exact hlt

theorem prefix_of_prefix_concat {a b : List Char} {c : Char} (hne : a ≠ b)
    (h : a ++ [c] <+: b ++ [c]) : a ++ [c] <+: b := by
  apply (List.prefix_concat_iff.mp h).resolve_left
  intro heq
  exact hne (List.append_cancel_right heq)

/-- References of different tables have one name only if the name of one table is begun by the name
of the other one and an underscore. -/
theorem prefix_or_prefix (hname : s.name references = r.name references)
    (hchild : s.child ≠ r.child) :
    (s.child ++ "_").toList <+: r.child.toList ∨ (r.child ++ "_").toList <+: s.child.toList := by
  have hlists : s.child.toList ≠ r.child.toList := fun h => hchild (String.toList_inj.mp h)
  have hprefix (a b : String) : (a ++ "_").toList <+: (a ++ "_" ++ b).toList := by
    rw [String.toList_append (s := a ++ "_")]
    exact List.prefix_append _ _
  cases hs : s.isRepeated references with
  | false =>
    rw [name_of_not_isRepeated hs] at hname
    cases hr : r.isRepeated references with
    | false =>
      rw [name_of_not_isRepeated hr] at hname
      exact absurd hname hchild
    | true =>
      rw [name_of_isRepeated hr] at hname
      right
      rw [hname]
      exact hprefix _ _
  | true =>
    rw [name_of_isRepeated hs] at hname
    cases hr : r.isRepeated references with
    | false =>
      rw [name_of_not_isRepeated hr] at hname
      left
      rw [← hname]
      exact hprefix _ _
    | true =>
      -- both begin one name, so that one of them begins the other
      rw [name_of_isRepeated hr] at hname
      have hsname := hprefix s.child s.column
      have hrname := hprefix r.child r.column
      rw [hname] at hsname
      rw [String.toList_append] at hsname hrname ⊢
      rw [String.toList_append]
      rcases List.prefix_or_prefix_of_prefix hsname hrname with h | h
      · exact .inl (prefix_of_prefix_concat hlists h)
      · exact .inr (prefix_of_prefix_concat hlists.symm h)

end Reference

namespace Database

variable {db : Database} {idField : String} {t : Table} {r s : Reference}

/-- References are listed in order of their tables. -/
theorem pairwise_references (db : Database) :
    (references db).Pairwise fun s r => s.child ≤ r.child := by
  have hchild (t : Table) : ∀ r ∈ t.references, r.child = t.name := by
    intro r hr
    simp only [Table.references, List.mem_flatMap, List.mem_map] at hr
    obtain ⟨key, -, column, -, rfl⟩ := hr
    rfl
  apply List.pairwise_flatMap.mpr
  constructor
  · intro t _
    apply List.pairwise_of_forall_mem_list
    intro s hs r hr
    have hsame : s.child = r.child := by rw [hchild t s hs, hchild t r hr]
    exact hsame ▸ String.le_refl _
  · apply (ascending_listed db).imp
    intro t u hlt s hs r hr
    rw [hchild t s hs, hchild u r hr]
    exact fun hgt => String.lt_irrefl _ (String.lt_trans hlt hgt)

theorem find?_relationships (references : List Reference) (parent name : String) :
    (Reference.relationships references parent).find? (fun link => link.name == name) =
      (references.find? fun s => s.parent == parent && s.name references == name).map
        (Reference.relationship references) := by
  rw [Reference.relationships, List.find?_map, List.find?_filter]
  congr 2
  funext s
  rw [Function.comp_apply, Reference.relationship, Bool.decide_and, Bool.decide_coe,
    Bool.decide_coe]

/-- By the name of a reference the first one of that name is found, and its table comes before all
other ones with references of that name. -/
theorem exists_first (idField : String) (ht : t.name = r.parent) (hr : r ∈ references db) :
    ∃ s ∈ references db, s.parent = r.parent ∧ s.name (references db) = r.name (references db) ∧
      (entity db idField t).relationship? (r.name (references db)) =
        some (s.relationship (references db)) ∧
      ∀ s' ∈ references db, s'.parent = r.parent →
        s'.name (references db) = r.name (references db) → s.child ≤ s'.child := by
  have hnamed (s : Reference) : (s.parent == t.name && s.name (references db) ==
      r.name (references db)) = true ↔
      s.parent = r.parent ∧ s.name (references db) = r.name (references db) := by
    simp [ht]
  have hsome : ((references db).find? fun s => s.parent == t.name &&
      s.name (references db) == r.name (references db)).isSome = true := by
    rw [List.find?_isSome]
    exact ⟨r, hr, (hnamed r).mpr ⟨rfl, rfl⟩⟩
  obtain ⟨s, hs⟩ := Option.isSome_iff_exists.mp hsome
  have hlookup : (entity db idField t).relationship? (r.name (references db)) =
      some (s.relationship (references db)) := by
    rw [Entity.relationship?, Relationship.find?, entity, find?_relationships, hs]
    rfl
  obtain ⟨hfound, before, behind, hsplit, hbefore⟩ := List.find?_eq_some_iff_append.mp hs
  obtain ⟨hparent, hname⟩ := (hnamed s).mp hfound
  refine ⟨s, List.mem_of_find?_eq_some hs, hparent, hname, hlookup, ?_⟩
  intro s' hs' hparent' hname'
  have hpairwise := pairwise_references db
  rw [hsplit] at hs' hpairwise
  rcases List.mem_append.mp hs' with hmem | hmem
  · have hnot := hbefore s' hmem
    rw [(hnamed s').mpr ⟨hparent', hname'⟩] at hnot
    cases hnot
  · rcases List.mem_cons.mp hmem with rfl | hmem
    · exact String.le_refl _
    · have hrest := (List.pairwise_append.mp hpairwise).2.1
      exact List.rel_of_pairwise_cons hrest hmem

/-- A reference to a listed table is always found by its name or taken for another reference of that
name, and it is taken for another one just if another table shadows it. -/
theorem relationship?_name (idField : String) (ht : t ∈ listed db) (hr : r ∈ references db)
    (hparent : r.parent = t.name) :
    ∃ parent found, (catalog db idField).describe t.name = some parent ∧
      parent.relationship? (r.name (references db)) = some found ∧
      found.name = r.name (references db) ∧
      (found.entity = r.child ∧ found.joinField = r.column ↔
        ∀ s : Reference, ¬ s.Shadows (references db) r) := by
  obtain ⟨s, hs, hsparent, hsname, hlookup, hfirst⟩ := exists_first idField hparent.symm hr
  refine ⟨_, _, describe_of_mem_listed ht, hlookup, hsname, ?_⟩
  constructor
  · rintro ⟨hentity, -⟩ s' shadows
    -- the table that shadows the reference would have been found before its own one
    have hle : s.child ≤ s'.child := hfirst s' shadows.mem shadows.parent shadows.name
    have hlt := Reference.lt_of_prefix shadows.child
    have hchild : s.child = r.child := hentity
    rw [hchild] at hle
    exact hle hlt
  · intro hshadows
    have hchild : s.child = r.child := by
      apply Classical.byContradiction
      intro hne
      rcases Reference.prefix_or_prefix hsname hne with hprefix | hprefix
      · exact hshadows s ⟨hs, hsparent, hsname, hprefix⟩
      · exact hfirst r hr rfl rfl (Reference.lt_of_prefix hprefix)
    have hsame := Reference.relationship_eq_of_name_eq hs hr hsparent hchild hsname
    rw [hsame]
    exact ⟨rfl, rfl⟩

end Database

/-! ### The firms of a person -/

namespace Payroll

def firm : Table where
  name := "Firm"
  columns := [⟨"Id", .integer⟩, ⟨"Name", .text⟩]
  primaryKey := ["Id"]
  foreignKeys := []
  rows := []

/-- A person has a firm at home and one at work. -/
def person : Table where
  name := "Person"
  columns := [⟨"Id", .integer⟩, ⟨"home", .integer⟩, ⟨"work", .integer⟩]
  primaryKey := ["Id"]
  foreignKeys := [⟨["home"], firm.name, []⟩, ⟨["work"], firm.name, []⟩]
  rows := []

/-- The table is called like a person at home. -/
def personHome : Table where
  name := "Person_home"
  columns := [⟨"Id", .integer⟩, ⟨"firm", .integer⟩]
  primaryKey := ["Id"]
  foreignKeys := [⟨["firm"], firm.name, []⟩]
  rows := []

def database : Database := [firm, person, personHome]

def references : List Reference :=
  [⟨"Firm", "Person", "work"⟩, ⟨"Firm", "Person", "home"⟩, ⟨"Firm", "Person_home", "firm"⟩]

theorem firm_mem_listed : firm ∈ Database.listed database := by decide +kernel

theorem references_eq : Database.references database = references := by decide +kernel

end Payroll

open Payroll in
theorem Database.relationship?_name_work :
    ∃ parent found, (Database.catalog database "Id").describe "Firm" = some parent ∧
      parent.relationship? "Person_work" = some found ∧
      found.entity = "Person" ∧ found.joinField = "work" := by
  have hr : (⟨"Firm", "Person", "work"⟩ : Reference) ∈ Database.references database := by
    rw [references_eq]
    exact List.mem_cons_self
  obtain ⟨parent, found, hparent, hlookup, -, hfound⟩ :=
    Database.relationship?_name "Id" firm_mem_listed hr rfl
  rw [references_eq] at hlookup hfound
  refine ⟨parent, found, hparent, hlookup, hfound.mpr ?_⟩
  intro s shadows
  -- no table has a name that goes on as that of the persons does
  have hnone : ∀ s ∈ Payroll.references,
      ¬ (s.child ++ "_").toList <+: "Person".toList := by decide +kernel
  exact hnone s shadows.mem shadows.child

open Payroll in
/-- The reference of the table that is called like a person at home is taken for that of a
person. -/
theorem Database.relationship?_name_shadowed :
    firm ∈ Database.listed database ∧
    ∃ r ∈ Database.references database, r.parent = firm.name ∧
      ((Database.catalog database "Id").describe firm.name).bind (fun parent =>
        parent.relationship? (r.name (Database.references database))) =
          some ⟨"Person_home", "Person", "home"⟩ ∧
      r.child ≠ "Person" := by
  refine ⟨firm_mem_listed, ⟨"Firm", "Person_home", "firm"⟩, ?_, rfl, ?_, by decide⟩
  · rw [references_eq]
    decide
  · rw [references_eq]
    decide +kernel

end NestedQuery.Store
