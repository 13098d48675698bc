import NestedQuery.Catalog
import NestedQuery.Store.Table

/-!
# The catalog of a database

Every table of a database is an entity, and every column of a foreign key is a relationship of its
parent. A relationship is called like the child table, or after table and column where the child
refers to the parent more than once. Tables that the database keeps for itself are left out.
-/

namespace NestedQuery.Store

/-- A column of a child table that refers to a parent table. -/
structure Reference where
  parent : String
  child : String
  column : String
  deriving DecidableEq, Repr

namespace Reference

/-- Whether the child refers to the parent by another column too. -/
def isRepeated (references : List Reference) (r : Reference) : Bool :=
  1 < references.countP fun s => s.parent == r.parent && s.child == r.child

/-- The name by which a query nests the records that refer to their parent. -/
def name (references : List Reference) (r : Reference) : String :=
  if r.isRepeated references then r.child ++ "_" ++ r.column else r.child

def relationship (references : List Reference) (r : Reference) : Relationship :=
  ⟨r.name references, r.child, r.column⟩

def relationships (references : List Reference) (parent : String) : List Relationship :=
  (references.filter fun r => r.parent == parent).map (relationship references)

end Reference

namespace Table

/-- Names that begin with `sqlite` and one more character, in any case. -/
def isReserved (t : Table) : Bool :=
  sameName (.ofList (t.name.toList.take 6)) "sqlite" && 6 < t.name.length

def references (t : Table) : List Reference :=
  -- foreign keys are listed from the last one to the first
  t.foreignKeys.reverse.flatMap fun key =>
    key.columns.map fun column => ⟨key.parent, t.name, t.declaredName column⟩

/-- The column that identifies the rows: the first one of the primary key. -/
def idField (t : Table) (default : String) : String :=
  (t.primaryKey.head?.map t.declaredName).getD default

end Table

namespace Database

/-- The tables that are not kept for the database itself, in order of their names. -/
def listed (db : Database) : List Table :=
  (Ordered.ofList (db.filter fun t => !t.isReserved) : Ordered Table Table.name).toList

def references (db : Database) : List Reference := (listed db).flatMap Table.references

def entity (db : Database) (idField : String) (t : Table) : Entity where
  name := t.name
  fields := .ofList (t.columns.map (·.name))
  idField := t.idField idField
  children := Reference.relationships (references db) t.name

/-- The entities that are the tables of a database. A table without a primary key is identified by
`idField`. -/
def catalog (db : Database) (idField : String) : Catalog :=
  .ofList ((listed db).map (entity db idField))

end Database

end NestedQuery.Store
