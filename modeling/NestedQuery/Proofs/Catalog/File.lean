import NestedQuery.Catalog.File
import NestedQuery.Proofs.Catalog.Text
import NestedQuery.Proofs.Store.Schema

/-!
# Catalogs and their texts

Entities may be put into a catalog one after the other, and nobody asks where their relationships
lead. A catalog that is read from a text has to be closed. So a catalog is read back from its own
text just if it is closed, and the catalog of a database always is.
-/

namespace NestedQuery

namespace Catalog

variable {c : Catalog} {entities : List Entity}

/-- Every relationship leads to an entity of the catalog. -/
def Closed (c : Catalog) : Prop :=
  ∀ e ∈ c.toList, ∀ r ∈ e.children, c.contains r.entity = true

theorem contains_eq_false_iff {name : String} :
    c.contains name = false ↔ ∀ e ∈ c.toList, e.name ≠ name := by
  rw [← Bool.not_eq_true, Ordered.contains_iff]
  simp

/-- Entities with distinct names, none of them taken, are added as they are inserted. -/
theorem addAll_eq_ok (hnames : ((entities ++ c.toList).map Entity.name).Nodup) :
    addAll c entities = .ok (entities.foldl (fun c e => c.insert e) c) := by
  induction entities generalizing c with
  | nil => rfl
  | cons e rest ih =>
    have hhead : e.name ∉ (rest ++ c.toList).map Entity.name := (List.nodup_cons.mp hnames).1
    rw [List.map_append, List.mem_append, not_or] at hhead
    have hfree : c.contains e.name = false := by
      rw [contains_eq_false_iff]
      intro e' he' heq
      exact hhead.2 (heq ▸ List.mem_map_of_mem he')
    rw [addAll, hfree]
    apply ih
    exact ((Ordered.perm_append_insert rest hhead.2).map Entity.name).nodup_iff.mpr hnames

/-- The entities of a catalog make up the catalog again. -/
theorem addAll_toList (c : Catalog) : addAll .empty c.toList = .ok c := by
  have hnames : ((c.toList ++ (Ordered.empty : Catalog).toList).map Entity.name).Nodup := by
    rw [Ordered.toList_empty, List.append_nil]
    exact Ordered.nodup_of_ascending c.ascending
  rw [addAll_eq_ok hnames]
  congr 1
  apply Ordered.ext
  exact Ordered.toList_ofList_of_ascending c.ascending

theorem dangling?_eq_none_iff : c.dangling? = none ↔ c.Closed := by
  simp [dangling?, Closed, List.findSome?_eq_none_iff]

theorem ofEntities_toList_of_closed (h : c.Closed) : ofEntities c.toList = .ok c := by
  simp only [ofEntities, addAll_toList, dangling?_eq_none_iff.mpr h]

/-- A relationship that leads out of the catalog is reported. -/
theorem ofEntities_toList_of_not_closed (h : ¬ c.Closed) :
    ∃ e ∈ c.toList, ∃ r ∈ e.children, c.describe r.entity = none ∧
      ofEntities c.toList = .error (.dangling e.name r.name r.entity) := by
  obtain ⟨⟨e, r⟩, hdangling⟩ := Option.ne_none_iff_exists'.mp (mt dangling?_eq_none_iff.mp h)
  obtain ⟨e', he', hr⟩ := List.exists_of_findSome?_eq_some hdangling
  obtain ⟨r', hr', hpair⟩ := Option.map_eq_some_iff.mp hr
  cases hpair
  refine ⟨e, he', r, List.mem_of_find?_eq_some hr', ?_, ?_⟩
  · have hmissing := List.find?_some hr'
    rw [Ordered.contains_eq_isSome_find?, Bool.not_eq_true', Option.isSome_eq_false_iff,
      Option.isNone_iff_eq_none] at hmissing
    exact hmissing
  · simp only [ofEntities, addAll_toList, hdangling]

end Catalog

/-- What is said of a table of a database is said of its entity. -/
theorem Store.Database.closed_catalog (db : Database) (idField : String) :
    (catalog db idField).Closed := by
  intro e he r hr
  obtain ⟨t, ht, hname, -⟩ := describe_of_mem_children he hr
  rw [Ordered.contains_eq_isSome_find?, ← hname]
  exact Option.isSome_of_mem (describe_of_mem_listed ht)

/-- A catalog is read back from its own text just if it is closed; otherwise a relationship that
leads out of it is reported. The catalog of a database is always read back. -/
theorem Catalog.ofToml_toToml :
    (∀ c : Catalog, (c.Closed → ofToml c.toToml = .ok c) ∧
      (¬ c.Closed → ∃ e ∈ c.toList, ∃ r ∈ e.children, c.describe r.entity = none ∧
        ofToml c.toToml = .error (.dangling e.name r.name r.entity))) ∧
    ∀ (db : Store.Database) (idField : String),
      ofToml (db.catalog idField).toToml = .ok (db.catalog idField) := by
  have hofToml (c : Catalog) : ofToml c.toToml = ofEntities c.toList := by
    simp only [ofToml, listOfToml?_toToml]
  constructor
  · intro c
    rw [hofToml]
    exact ⟨ofEntities_toList_of_closed, ofEntities_toList_of_not_closed⟩
  · intro db idField
    rw [hofToml]
    exact ofEntities_toList_of_closed (Store.Database.closed_catalog db idField)

end NestedQuery
