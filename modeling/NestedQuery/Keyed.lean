/-!
# Lists with keys

Lists in which at most one item has a given key and items keep the place of their first insertion:
the members of a JSON object, the child nodes of a request.
-/

namespace NestedQuery.Keyed

variable {α κ : Type} [DecidableEq κ]

/-- Replaces the first item with the key of `a` by `a`, or appends `a` if there is none. -/
def put (key : α → κ) (a : α) : List α → List α
  | [] => [a]
  | b :: rest => if key b = key a then a :: rest else b :: put key a rest

/-- Puts the items one after the other, so that a key keeps its first place and its last item. -/
def ofList (key : α → κ) (items : List α) : List α := items.foldl (fun acc a => put key a acc) []

/-- The first item with the given key. -/
def find? (key : α → κ) (k : κ) (items : List α) : Option α := items.find? fun a => key a == k

/-- The keys after an item was put: the same ones, or its own behind them. -/
theorem map_put (key : α → κ) (a : α) (items : List α) :
    (put key a items).map key =
      if key a ∈ items.map key then items.map key else items.map key ++ [key a] := by
  induction items with
  | nil => simp [put]
  | cons b rest ih =>
    by_cases h : key b = key a
    · simp [put, h]
    · simp only [put, h, ↓reduceIte, List.map_cons, ih, List.mem_cons, Ne.symm h, false_or]
      split <;> simp

theorem nodup_map_put {key : α → κ} {a : α} {items : List α} (h : (items.map key).Nodup) :
    ((put key a items).map key).Nodup := by
  rw [map_put]
  split
  · exact h
  · next hnot =>
    rw [List.nodup_append]
    simp_all

/-- The keys of a list of puts are distinct. -/
theorem nodup_map_ofList (key : α → κ) (items : List α) : ((ofList key items).map key).Nodup := by
  suffices ∀ acc : List α, (acc.map key).Nodup →
      ((items.foldl (fun acc a => put key a acc) acc).map key).Nodup from this [] (by simp)
  induction items with
  | nil => exact fun _ h => h
  | cons a rest ih => exact fun acc h => ih _ (nodup_map_put h)

theorem find?_put (key : α → κ) (a : α) (items : List α) (k : κ) :
    find? key k (put key a items) = if key a = k then some a else find? key k items := by
  induction items with
  | nil => by_cases h : key a = k <;> simp [put, find?, h]
  | cons b rest ih =>
    simp only [find?] at ih ⊢
    by_cases hb : key b = key a
    · rw [put, if_pos hb, List.find?_cons, List.find?_cons, hb]
      by_cases h : key a = k
      · simp [h]
      · have hne : (key a == k) = false := by simpa using h
        simp only [hne, if_neg h]
    · rw [put, if_neg hb, List.find?_cons, ih, List.find?_cons]
      by_cases h : key b = k
      · have hne : ¬ key a = k := fun ha => hb (h.trans ha.symm)
        simp only [h, hne, beq_self_eq_true, ↓reduceIte]
      · have hne : (key b == k) = false := by simpa using h
        simp only [hne]

theorem mem_of_mem_put {key : α → κ} {a x : α} {items : List α} (h : x ∈ put key a items) :
    x = a ∨ x ∈ items := by
  induction items with
  | nil => simpa [put] using h
  | cons b rest ih =>
    rw [put] at h
    split at h
    · rcases List.mem_cons.mp h with rfl | h
      · exact .inl rfl
      · exact .inr (List.mem_cons_of_mem _ h)
    · rcases List.mem_cons.mp h with rfl | h
      · exact .inr List.mem_cons_self
      · exact (ih h).imp_right (List.mem_cons_of_mem _)

/-- An item with a new key goes behind the others. -/
theorem put_of_not_mem {key : α → κ} {a : α} {items : List α} (h : key a ∉ items.map key) :
    put key a items = items ++ [a] := by
  induction items with
  | nil => rfl
  | cons b rest ih =>
    rw [List.map_cons, List.mem_cons, not_or] at h
    rw [put, if_neg (Ne.symm h.1), ih h.2, List.cons_append]

/-- Items with distinct new keys go behind the others in order. -/
theorem foldl_put_of_nodup {key : α → κ} {items acc : List α}
    (h : ((acc ++ items).map key).Nodup) :
    items.foldl (fun acc a => put key a acc) acc = acc ++ items := by
  induction items generalizing acc with
  | nil => simp
  | cons a rest ih =>
    have hnot : key a ∉ acc.map key := by
      rw [List.map_append, List.map_cons] at h
      have hdisjoint := (List.nodup_append.mp h).2.2
      exact fun hmem => hdisjoint _ hmem _ List.mem_cons_self rfl
    rw [List.foldl_cons, put_of_not_mem hnot, ih (by simpa using h)]
    simp

theorem ofList_of_nodup {key : α → κ} {items : List α} (h : (items.map key).Nodup) :
    ofList key items = items :=
  foldl_put_of_nodup (by simpa using h)

end NestedQuery.Keyed
