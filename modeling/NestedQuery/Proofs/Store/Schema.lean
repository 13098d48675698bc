import NestedQuery.Proofs.Keyed
import NestedQuery.Store.Schema

/-!
# The entities of a database

The catalog of a database has one entity for each listed table, and a reference from a listed table
to another one is a relationship between their entities.
-/

namespace NestedQuery.Store

theorem Reference.mem_relationships {references : List Reference} {parent : String}
    {link : Relationship} :
    link ∈ relationships references parent ↔
      ∃ r ∈ references, r.parent = parent ∧ r.relationship references = link := by
  simp [relationships, and_assoc]

namespace Database

variable {db : Database} {idField name : String} {t : Table} {r : Reference} {e : Entity}

theorem mem_of_mem_listed (h : t ∈ listed db) : t ∈ db := by
  rw [listed] at h
  exact List.mem_of_mem_filter (Ordered.mem_of_mem_ofList h)

theorem ascending_listed (db : Database) : (listed db).Pairwise fun s t => s.name < t.name :=
  Ordered.ascending _

theorem toList_catalog (db : Database) (idField : String) :
    (catalog db idField).toList = (listed db).map (entity db idField) := by
  apply Ordered.toList_ofList_of_ascending
  apply List.pairwise_map.mpr
  exact ascending_listed db

theorem mem_catalog :
    e ∈ (catalog db idField).toList ↔ ∃ t ∈ listed db, entity db idField t = e := by
  rw [toList_catalog, List.mem_map]

/-- What the catalog describes is a listed table. -/
theorem exists_listed_of_describe (h : (catalog db idField).describe name = some e) :
    ∃ t ∈ listed db, t.name = name ∧ e = entity db idField t := by
  obtain ⟨t, ht, rfl⟩ := mem_catalog.mp (Ordered.mem_of_find?_eq_some h)
  exact ⟨t, ht, Catalog.name_of_describe h, rfl⟩

theorem describe_of_mem_listed (ht : t ∈ listed db) :
    (catalog db idField).describe t.name = some (entity db idField t) := by
  have hmem : entity db idField t ∈ (catalog db idField).toList := mem_catalog.mpr ⟨t, ht, rfl⟩
  exact Ordered.find?_eq_some_of_mem hmem

/-- A reference comes from a column of a foreign key of a listed table. -/
theorem mem_references :
    r ∈ references db ↔ ∃ t ∈ listed db, ∃ key ∈ t.foreignKeys, ∃ column ∈ key.columns,
      r = ⟨key.parent, t.name, t.declaredName column⟩ := by
  simp [references, Table.references, eq_comm]

/-- The children of an entity are entities of the catalog. -/
theorem describe_of_mem_children (he : e ∈ (catalog db idField).toList) {link : Relationship}
    (hlink : link ∈ e.children) :
    ∃ t ∈ listed db, t.name = link.entity ∧
      ∃ key ∈ t.foreignKeys, ∃ column ∈ key.columns, link.joinField = t.declaredName column := by
  obtain ⟨parent, -, rfl⟩ := mem_catalog.mp he
  obtain ⟨r, hr, -, rfl⟩ := Reference.mem_relationships.mp hlink
  obtain ⟨t, ht, key, hkey, column, hcolumn, rfl⟩ := mem_references.mp hr
  exact ⟨t, ht, rfl, key, hkey, column, hcolumn, rfl⟩

end Database

end NestedQuery.Store
