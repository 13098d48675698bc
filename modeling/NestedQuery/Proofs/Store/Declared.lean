import NestedQuery.Proofs.Store.Schema

/-!
# Tables as they are declared

A database declares no two tables of one name and a table no two columns of one name, in any case of
their letters. Keys are made of columns of the table. So every table and every column is found by
its own name.
-/

namespace NestedQuery.Store

/-- What a database makes sure of when a table is declared. -/
structure Table.Declared (t : Table) : Prop where
  distinct : t.columns.Pairwise fun c d => sameName c.name d.name = false
  primaryKey : ∀ key ∈ t.primaryKey, ∃ c ∈ t.columns, sameName c.name key = true
  foreignKeys : ∀ key ∈ t.foreignKeys, ∀ column ∈ key.columns,
    ∃ c ∈ t.columns, sameName c.name column = true

structure Database.Declared (db : Database) : Prop where
  distinct : db.Pairwise fun t u => sameName t.name u.name = false
  tables : ∀ t ∈ db, t.Declared

theorem sameName_self (name : String) : sameName name name = true := beq_self_eq_true _

/-- Where no two items have one name, each item is the first one of its name. -/
theorem find?_sameName {α : Type} (name : α → String) {items : List α} {a : α}
    (distinct : items.Pairwise fun a b => sameName (name a) (name b) = false) (h : a ∈ items) :
    items.find? (fun b => sameName (name b) (name a)) = some a := by
  induction items with
  | nil => cases h
  | cons b rest ih =>
    obtain ⟨hb, hrest⟩ := List.pairwise_cons.mp distinct
    rcases List.mem_cons.mp h with rfl | h
    · exact List.find?_cons_of_pos (sameName_self _)
    · rw [List.find?_cons_of_neg (by simp [hb a h])]
      exact ih hrest h

namespace Table

variable {t : Table} {c : Column} {name : String}

/-- A column is found by its name, at its place. -/
theorem Declared.column?_getElem (h : t.Declared) {place : Nat}
    (hplace : t.columns[place]? = some c) : t.column? c.name = some (place, c) := by
  have hmem : (c, place) ∈ t.columns.zipIdx := List.mem_zipIdx_iff_getElem?.mpr hplace
  have hdistinct : t.columns.zipIdx.Pairwise fun a b => sameName a.1.name b.1.name = false := by
    have hcolumns := h.distinct
    rwa [← List.zipIdx_map_fst 0 t.columns, List.pairwise_map] at hcolumns
  rw [column?, find?_sameName (fun p : Column × Nat => p.1.name) hdistinct hmem]
  rfl

theorem getElem_of_column? {place : Nat} (h : t.column? name = some (place, c)) :
    t.columns[place]? = some c := by
  obtain ⟨⟨d, i⟩, hd, hpair⟩ := Option.map_eq_some_iff.mp h
  cases hpair
  exact List.mem_zipIdx_iff_getElem?.mp (List.mem_of_find?_eq_some hd)

theorem exists_column? (h : ∃ c ∈ t.columns, sameName c.name name = true) :
    ∃ place c, t.column? name = some (place, c) := by
  obtain ⟨c, hc, hname⟩ := h
  obtain ⟨place, hplace⟩ := List.mem_iff_getElem?.mp hc
  have hfound : (t.column? name).isSome = true := by
    rw [column?, Option.isSome_map, List.find?_isSome]
    exact ⟨(c, place), List.mem_zipIdx_iff_getElem?.mpr hplace, hname⟩
  obtain ⟨⟨i, d⟩, hd⟩ := Option.isSome_iff_exists.mp hfound
  exact ⟨i, d, hd⟩

/-- A name that stands for a column is declared as the name of one. -/
theorem declaredName_mem (h : ∃ c ∈ t.columns, sameName c.name name = true) :
    ∃ c ∈ t.columns, c.name = t.declaredName name := by
  obtain ⟨place, c, hcolumn⟩ := exists_column? h
  refine ⟨c, List.mem_of_getElem? (getElem_of_column? hcolumn), ?_⟩
  rw [declaredName, hcolumn]
  rfl

/-- A table with a primary key is identified by one of its columns. -/
theorem Declared.idField_mem (h : t.Declared) (hkey : t.primaryKey ≠ []) (default : String) :
    ∃ c ∈ t.columns, c.name = t.idField default := by
  obtain ⟨key, rest, hkeys⟩ := List.exists_cons_of_ne_nil hkey
  have hmem : key ∈ t.primaryKey := by
    rw [hkeys]
    exact List.mem_cons_self
  rw [idField, hkeys]
  exact declaredName_mem (h.primaryKey key hmem)

theorem idField_of_not_keyed (h : t.primaryKey = []) (default : String) :
    t.idField default = default := by
  rw [idField, h]
  rfl

end Table

namespace Database

variable {db : Database} {t : Table}

/-- A table is known by its name. -/
theorem Declared.eq_of_name_eq {u : Table} (h : db.Declared) (ht : t ∈ db) (hu : u ∈ db)
    (hname : t.name = u.name) : t = u := by
  have hfound := find?_sameName Table.name h.distinct ht
  rw [hname, find?_sameName Table.name h.distinct hu, Option.some_inj] at hfound
  exact hfound.symm

end Database

end NestedQuery.Store
