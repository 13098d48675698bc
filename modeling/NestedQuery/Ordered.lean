/-!
# Ordered collections

A finite collection with one item per key, kept in ascending order of the keys. Keys are strings in
code point order. Catalogs, argument lists, field sets, records and request variables are all
collections of this kind, so two of them are equal exactly when they hold the same items.

Inserting an item replaces the one with its key (`find?_insert`).
-/

namespace NestedQuery

/-- A finite collection with one item per key, in ascending order of the keys. -/
structure Ordered (α : Type) (key : α → String) where
  toList : List α
  ascending : toList.Pairwise fun a b => key a < key b

namespace Ordered

variable {α : Type} {key : α → String}

instance [DecidableEq α] : DecidableEq (Ordered α key) := fun a b =>
  decidable_of_iff (a.toList = b.toList) <| by
    cases a; cases b; simp

instance [Repr α] : Repr (Ordered α key) := ⟨fun a => reprPrec a.toList⟩

/-- Puts an item at its place in an ascending list, instead of one with the same key. -/
def insertInto (key : α → String) (a : α) : List α → List α
  | [] => [a]
  | b :: rest =>
    if key a < key b then a :: b :: rest
    else if key b < key a then b :: insertInto key a rest
    else a :: rest

theorem mem_of_mem_insertInto {a x : α} {items : List α} (h : x ∈ insertInto key a items) :
    x = a ∨ x ∈ items := by
  induction items with
  | nil => simpa [insertInto] using h
  | cons b rest ih =>
    simp only [insertInto] at h
    split at h
    · simpa using h
    · split at h
      · rcases List.mem_cons.mp h with rfl | h
        · simp
        · rcases ih h with rfl | h <;> simp_all
      · rcases List.mem_cons.mp h with rfl | h <;> simp_all

theorem pairwise_insertInto {a : α} {items : List α}
    (h : items.Pairwise fun x y => key x < key y) :
    (insertInto key a items).Pairwise fun x y => key x < key y := by
  induction items with
  | nil => simp [insertInto]
  | cons b rest ih =>
    obtain ⟨hb, hrest⟩ := List.pairwise_cons.mp h
    simp only [insertInto]
    split
    · next hab =>
      refine List.pairwise_cons.mpr ⟨fun x hx => ?_, h⟩
      rcases List.mem_cons.mp hx with rfl | hx
      · exact hab
      · exact String.lt_trans hab (hb x hx)
    · next hab =>
      split
      · next hba =>
        refine List.pairwise_cons.mpr ⟨fun x hx => ?_, ih hrest⟩
        rcases mem_of_mem_insertInto hx with rfl | hx
        · exact hba
        · exact hb x hx
      · next hba =>
        have heq : key a = key b := String.le_antisymm hba hab
        exact List.pairwise_cons.mpr ⟨fun x hx => heq ▸ hb x hx, hrest⟩

def empty : Ordered α key := ⟨[], .nil⟩

instance : Inhabited (Ordered α key) := ⟨empty⟩

/-- The collection with `a` in it, instead of an item with the same key. -/
def insert (a : α) (c : Ordered α key) : Ordered α key :=
  ⟨insertInto key a c.toList, pairwise_insertInto c.ascending⟩

/-- The collection of the listed items; of two with one key the later one stays. -/
def ofList (items : List α) : Ordered α key := items.foldl (fun c a => c.insert a) empty

/-- The item with the given key. -/
def find? (c : Ordered α key) (k : String) : Option α := c.toList.find? fun a => key a == k

def contains (c : Ordered α key) (k : String) : Bool := c.toList.any fun a => key a == k

def size (c : Ordered α key) : Nat := c.toList.length

@[ext] theorem ext {c d : Ordered α key} (h : c.toList = d.toList) : c = d := by
  cases c; cases d; simp_all

@[simp] theorem toList_empty : (empty : Ordered α key).toList = [] := rfl

@[simp] theorem toList_insert (a : α) (c : Ordered α key) :
    (c.insert a).toList = insertInto key a c.toList := rfl

theorem find?_insertInto (a : α) (items : List α) (k : String) :
    (insertInto key a items).find? (fun x => key x == k) =
      if key a = k then some a else items.find? fun x => key x == k := by
  induction items with
  | nil => by_cases h : key a = k <;> simp [insertInto, h]
  | cons b rest ih =>
    simp only [insertInto]
    split
    · by_cases h : key a = k <;> simp [h]
    · next hab =>
      split
      · next hba =>
        rw [List.find?_cons, ih]
        by_cases h : key a = k
        · have hne : (key b == k) = false := by
            simpa using fun hb => String.lt_irrefl k (by rwa [h, hb] at hba)
          simp only [hne, if_pos h]
        · simp [List.find?_cons, h]
      · next hba =>
        have heq : key a = key b := String.le_antisymm hba hab
        by_cases h : key a = k
        · simp [h]
        · have hne : ¬ key b = k := by rwa [← heq]
          simp [h, hne]

/-- An inserted item is the one found at its key, and nothing else changes. -/
theorem find?_insert (a : α) (c : Ordered α key) (k : String) :
    (c.insert a).find? k = if key a = k then some a else c.find? k :=
  find?_insertInto a c.toList k

theorem key_of_find?_eq_some {c : Ordered α key} {k : String} {a : α} (h : c.find? k = some a) :
    key a = k := by
  simpa using List.find?_some h

theorem mem_of_find?_eq_some {c : Ordered α key} {k : String} {a : α} (h : c.find? k = some a) :
    a ∈ c.toList := List.mem_of_find?_eq_some h

theorem contains_eq_isSome_find? (c : Ordered α key) (k : String) :
    c.contains k = (c.find? k).isSome := by
  rw [contains, find?, Bool.eq_iff_iff, List.find?_isSome, List.any_eq_true]

end Ordered

end NestedQuery
