import Mathlib.Data.List.Basic
import NestedQuery.Keyed
import NestedQuery.Ordered

/-!
# Items put one after the other

A list of puts keeps the first place and the last item of every key. `Keyed.lastOfEach` says so of
the finished list, and `Keyed.ofList_eq_lastOfEach` that putting the items one after the other gives
that list. In either kind of collection a key finds the last item that was put at it
(`Keyed.lookup_foldl`). Items whose keys differ do not disturb each other: two such lists are put
beside each other (`Keyed.ofList_append`), and an ordered collection has all the items it was made
of (`Ordered.perm_ofList`).
-/

namespace NestedQuery.Keyed

variable {α κ : Type} [DecidableEq κ]

/-- For every key, in order of first appearance, the last item that has it. -/
def lastOfEach (key : α → κ) (items : List α) : List α :=
  (items.map key).eraseDups.filterMap fun k => (items.filter fun a => key a == k).getLast?

/-- New keys go behind the old ones in order of first appearance. -/
theorem map_foldl_put (key : α → κ) (items acc : List α) :
    (items.foldl (fun acc a => put key a acc) acc).map key =
      acc.map key ++ ((items.map key).removeAll (acc.map key)).eraseDups := by
  induction items generalizing acc with
  | nil => simp [List.removeAll]
  | cons a rest ih =>
    rw [List.foldl_cons, ih, map_put, List.map_cons, List.cons_removeAll]
    by_cases h : key a ∈ acc.map key
    · have hcontains : (acc.map key).contains (key a) = true := List.contains_iff_mem.mpr h
      rw [if_pos h, hcontains, if_neg (by decide)]
    · have hcontains : (acc.map key).contains (key a) = false := by simpa using h
      -- the key of `a` is dropped from the rest before or after the old keys are
      have hrest : (rest.map key).removeAll (acc.map key ++ [key a]) =
          ((rest.map key).removeAll (acc.map key)).filter fun k => !k == key a := by
        simp [List.removeAll, List.filter_filter, Bool.and_comm, Bool.beq_eq_decide_eq]
      rw [if_neg h, hcontains, if_pos (by decide), List.eraseDups_cons, hrest, List.append_assoc]
      rfl

theorem map_ofList (key : α → κ) (items : List α) :
    (ofList key items).map key = (items.map key).eraseDups := by
  have hall : (items.map key).removeAll [] = items.map key :=
    List.filter_eq_self.mpr fun _ _ => rfl
  rw [ofList, map_foldl_put, List.map_nil, List.nil_append, hall]

/-- Where every step changes a look-up just for the key of its item, the last item with the key is
found behind all of them. -/
theorem lookup_foldl {σ : Type} {step : σ → α → σ} (lookup : σ → Option α) {key : α → κ} {k : κ}
    (hstep : ∀ s a, lookup (step s a) = if key a = k then some a else lookup s) (items : List α)
    (s : σ) :
    lookup (items.foldl step s) = (items.filter fun a => key a == k).getLast?.or (lookup s) := by
  induction items generalizing s with
  | nil => rfl
  | cons a rest ih =>
    rw [List.foldl_cons, ih, hstep, List.filter_cons]
    by_cases h : key a = k
    · rw [if_pos h, if_pos (by simpa using h), List.getLast?_cons, Option.or_some]
      cases (rest.filter fun a => key a == k).getLast? <;> rfl
    · rw [if_neg h, if_neg (by simpa using h)]

theorem find?_foldl_put (key : α → κ) (items acc : List α) (k : κ) :
    find? key k (items.foldl (fun acc a => put key a acc) acc) =
      (items.filter fun a => key a == k).getLast?.or (find? key k acc) :=
  lookup_foldl (find? key k) (fun acc a => find?_put key a acc k) items acc

theorem find?_ofList (key : α → κ) (items : List α) (k : κ) :
    find? key k (ofList key items) = (items.filter fun a => key a == k).getLast? := by
  rw [ofList, find?_foldl_put]
  simp [find?]

/-- Items with distinct keys are found again by their keys. -/
theorem filterMap_find?_of_nodup {key : α → κ} {items : List α} (h : (items.map key).Nodup) :
    ((items.map key).filterMap fun k => find? key k items) = items := by
  induction items with
  | nil => rfl
  | cons a rest ih =>
    obtain ⟨hnot, hrest⟩ := List.nodup_cons.mp h
    have hself : find? key (key a) (a :: rest) = some a := by simp [find?]
    have hother : ∀ k ∈ rest.map key, find? key k (a :: rest) = find? key k rest := by
      intro k hk
      have hne : (key a == k) = false := beq_eq_false_iff_ne.mpr fun heq => hnot (heq ▸ hk)
      simp only [find?, List.find?_cons, hne]
    rw [List.map_cons, List.filterMap_cons, hself, List.filterMap_congr hother, ih hrest]

theorem ofList_eq_lastOfEach (key : α → κ) (items : List α) :
    ofList key items = lastOfEach key items := by
  rw [← filterMap_find?_of_nodup (nodup_map_ofList key items), map_ofList, lastOfEach]
  simp only [find?_ofList]

theorem mem_of_mem_lastOfEach {key : α → κ} {items : List α} {a : α}
    (h : a ∈ lastOfEach key items) : a ∈ items := by
  obtain ⟨k, -, hlast⟩ := List.mem_filterMap.mp h
  exact (List.mem_filter.mp (List.mem_of_getLast? hlast)).1

/-! ### Items with distinct keys -/

theorem eraseDups_of_nodup [DecidableEq α] {items : List α} (h : items.Nodup) :
    items.eraseDups = items := by
  induction items with
  | nil => rfl
  | cons a rest ih =>
    obtain ⟨hnot, hrest⟩ := List.nodup_cons.mp h
    have hkept : rest.filter (fun b => !b == a) = rest := by
      rw [List.filter_eq_self]
      intro b hb
      have hne : b ≠ a := fun heq => hnot (heq ▸ hb)
      simp [hne]
    rw [List.eraseDups_cons, hkept, ih hrest]

/-- Of items with distinct keys, those with new ones go behind the old items. -/
theorem map_foldl_put_of_nodup {key : α → κ} {items : List α} (h : (items.map key).Nodup)
    (acc : List α) :
    (items.foldl (fun acc a => put key a acc) acc).map key =
      acc.map key ++ (items.map key).removeAll (acc.map key) := by
  rw [map_foldl_put, List.removeAll, eraseDups_of_nodup (h.filter _)]

theorem filter_key_of_nodup {key : α → κ} {items : List α} {a : α}
    (h : (items.map key).Nodup) (ha : a ∈ items) :
    items.filter (fun b => key b == key a) = [a] := by
  induction items with
  | nil => cases ha
  | cons b rest ih =>
    obtain ⟨hnot, hrest⟩ := List.nodup_cons.mp h
    rcases List.mem_cons.mp ha with rfl | ha
    · have hnil : rest.filter (fun b => key b == key a) = [] := by
        rw [List.filter_eq_nil_iff]
        intro c hc
        have hne : key c ≠ key a := fun heq => hnot (heq ▸ List.mem_map_of_mem hc)
        simpa using hne
      rw [List.filter_cons_of_pos (by simp), hnil]
    · have hne : key b ≠ key a := fun heq => hnot (heq ▸ List.mem_map_of_mem ha)
      rw [List.filter_cons_of_neg (by simpa using hne), ih hrest ha]

/-- An item with a key of its own is found there, whatever it was put behind. -/
theorem find?_foldl_put_of_mem {key : α → κ} {items : List α} {a : α}
    (h : (items.map key).Nodup) (ha : a ∈ items) (acc : List α) :
    find? key (key a) (items.foldl (fun acc a => put key a acc) acc) = some a := by
  rw [find?_foldl_put, filter_key_of_nodup h ha]
  rfl

/-- At other keys nothing changes. -/
theorem find?_foldl_put_of_not_mem {key : α → κ} {items : List α} {k : κ}
    (h : k ∉ items.map key) (acc : List α) :
    find? key k (items.foldl (fun acc a => put key a acc) acc) = find? key k acc := by
  have hnil : items.filter (fun a => key a == k) = [] := by
    rw [List.filter_eq_nil_iff]
    intro a ha
    have hne : key a ≠ k := fun heq => h (heq ▸ List.mem_map_of_mem ha)
    simpa using hne
  rw [find?_foldl_put, hnil]
  rfl

/-! ### Items beside items with other keys -/

theorem put_append {key : α → κ} {a : α} {items : List α} (h : key a ∉ items.map key)
    (behind : List α) : put key a (items ++ behind) = items ++ put key a behind := by
  induction items with
  | nil => rfl
  | cons b rest ih =>
    rw [List.map_cons, List.mem_cons, not_or] at h
    rw [List.cons_append, put, if_neg (Ne.symm h.1), ih h.2, List.cons_append]

theorem foldl_put_append {key : α → κ} {items before : List α}
    (h : ∀ k ∈ before.map key, k ∉ items.map key) (behind : List α) :
    items.foldl (fun acc a => put key a acc) (before ++ behind) =
      before ++ items.foldl (fun acc a => put key a acc) behind := by
  induction items generalizing behind with
  | nil => rfl
  | cons a rest ih =>
    have hnot : key a ∉ before.map key := fun hmem => h _ hmem List.mem_cons_self
    rw [List.foldl_cons, List.foldl_cons, put_append hnot]
    exact ih (fun k hk hmem => h k hk (List.mem_cons_of_mem _ hmem)) _

theorem ofList_append {key : α → κ} {items items' : List α}
    (h : ∀ k ∈ items.map key, k ∉ items'.map key) :
    ofList key (items ++ items') = ofList key items ++ ofList key items' := by
  have hkeys : ∀ k ∈ (ofList key items).map key, k ∉ items'.map key := by
    intro k hk
    rw [map_ofList] at hk
    exact h k (List.mem_eraseDups.mp hk)
  have hput := foldl_put_append hkeys []
  rw [List.append_nil] at hput
  rw [ofList, List.foldl_append]
  exact hput

end NestedQuery.Keyed

/-! ### Ordered collections -/

namespace NestedQuery.Ordered

variable {α : Type} {key : α → String}

theorem perm_insertInto {a : α} {items : List α} (h : key a ∉ items.map key) :
    (insertInto key a items).Perm (a :: items) := by
  induction items with
  | nil => exact .refl _
  | cons b rest ih =>
    rw [List.map_cons, List.mem_cons, not_or] at h
    rw [insertInto]
    split
    · exact .refl _
    next hab =>
    split
    · exact ((ih h.2).cons b).trans (.swap a b rest)
    next hba => exact absurd (String.le_antisymm hba hab) h.1

theorem perm_append_insert {a : α} {c : Ordered α key} (items : List α)
    (h : key a ∉ c.toList.map key) :
    (items ++ (c.insert a).toList).Perm (a :: (items ++ c.toList)) :=
  ((perm_insertInto h).append_left items).trans List.perm_middle

/-- Items with distinct keys are all put into a collection that has none of the keys. -/
theorem perm_foldl_insert {items : List α} {c : Ordered α key}
    (h : ((items ++ c.toList).map key).Nodup) :
    (items.foldl (fun c a => c.insert a) c).toList.Perm (items ++ c.toList) := by
  induction items generalizing c with
  | nil => exact .refl _
  | cons a rest ih =>
    have hhead : key a ∉ (rest ++ c.toList).map key := (List.nodup_cons.mp h).1
    rw [List.map_append, List.mem_append, not_or] at hhead
    have hinsert := perm_append_insert rest hhead.2
    exact (ih ((hinsert.map key).nodup_iff.mpr h)).trans hinsert

/-- Items with distinct keys are all there, and nothing else is. -/
theorem perm_ofList {items : List α} (h : (items.map key).Nodup) :
    (ofList items : Ordered α key).toList.Perm items := by
  have hitems : items ++ (empty : Ordered α key).toList = items := List.append_nil items
  have hperm := perm_foldl_insert (c := empty) (hitems.symm ▸ h)
  rwa [hitems] at hperm

theorem nodup_of_ascending {items : List α} (h : items.Pairwise fun a b => key a < key b) :
    (items.map key).Nodup := by
  apply List.pairwise_map.mpr
  apply h.imp
  intro a b hlt heq
  exact String.lt_irrefl _ (heq ▸ hlt)

/-- A list in ascending order is the list of its own collection. -/
theorem toList_ofList_of_ascending {items : List α}
    (h : items.Pairwise fun a b => key a < key b) :
    (ofList items : Ordered α key).toList = items := by
  have hperm : (ofList items : Ordered α key).toList.Perm items := perm_ofList (nodup_of_ascending h)
  refine hperm.eq_of_pairwise (fun a b _ _ hab hba => ?_) (ofList items).ascending h
  exact absurd (String.lt_trans hab hba) (String.lt_irrefl _)

theorem mem_of_mem_ofList {items : List α} {a : α}
    (h : a ∈ (ofList items : Ordered α key).toList) : a ∈ items := by
  have hfold : ∀ (items : List α) (c : Ordered α key),
      a ∈ (items.foldl (fun c a => c.insert a) c).toList → a ∈ items ∨ a ∈ c.toList := by
    intro items
    induction items with
    | nil => exact fun c h => .inr h
    | cons b rest ih =>
      intro c h
      rcases ih (c.insert b) h with h | h
      · exact .inl (List.mem_cons_of_mem _ h)
      · rcases mem_of_mem_insertInto h with rfl | h
        · exact .inl List.mem_cons_self
        · exact .inr h
  exact (hfold items empty h).resolve_right List.not_mem_nil

/-- An item is found at its key. -/
theorem find?_eq_some_of_mem {c : Ordered α key} {a : α} (h : a ∈ c.toList) :
    c.find? (key a) = some a := by
  obtain ⟨items, ascending⟩ := c
  rw [find?]
  induction items with
  | nil => cases h
  | cons b rest ih =>
    obtain ⟨hb, hrest⟩ := List.pairwise_cons.mp ascending
    rcases List.mem_cons.mp h with rfl | h
    · simp
    · have hne : (key b == key a) = false := by
        simpa using fun heq => String.lt_irrefl _ (heq ▸ hb a h)
      rw [List.find?_cons, hne]
      exact ih hrest h

/-- At every key the last item that has it is found, and nothing if there is none. -/
theorem find?_ofList (items : List α) (k : String) :
    (ofList items : Ordered α key).find? k = (items.filter fun a => key a == k).getLast? := by
  have hfold := Keyed.lookup_foldl (fun c : Ordered α key => c.find? k)
    (fun c a => find?_insert a c k) items empty
  exact hfold.trans Option.or_none

/-- The item of a list that is the only one with its key is found in the collection. -/
theorem find?_ofList_of_unique {items : List α} {a : α} (ha : a ∈ items)
    (hunique : ∀ b ∈ items, key b = key a → b = a) :
    (ofList items : Ordered α key).find? (key a) = some a := by
  have hne : (items.filter fun b => key b == key a) ≠ [] :=
    List.ne_nil_of_mem (List.mem_filter.mpr ⟨ha, beq_self_eq_true _⟩)
  -- the last item with the key has the key, so it is the one that does
  obtain ⟨hmem, hkey⟩ := List.mem_filter.mp (List.getLast_mem hne)
  rw [find?_ofList, List.getLast?_eq_some_getLast hne, hunique _ hmem (beq_iff_eq.mp hkey)]

theorem contains_iff {c : Ordered α key} {k : String} :
    c.contains k = true ↔ ∃ a ∈ c.toList, key a = k := by
  simp [contains, List.any_eq_true]

/-- The items with the keys that are kept. -/
def restrict (keep : String → Bool) (c : Ordered α key) : Ordered α key :=
  ⟨c.toList.filter fun a => keep (key a), c.ascending.filter _⟩

theorem find?_restrict (keep : String → Bool) (c : Ordered α key) (k : String) :
    (c.restrict keep).find? k = if keep k then c.find? k else none := by
  rw [find?, restrict, List.find?_filter]
  cases hkeep : keep k with
  | false =>
    rw [if_neg Bool.false_ne_true, List.find?_eq_none]
    intro a _ h
    rw [decide_eq_true_eq, beq_iff_eq] at h
    rw [h.2, hkeep] at h
    exact Bool.false_ne_true h.1
  | true =>
    rw [if_pos rfl, find?]
    congr 1
    funext a
    by_cases ha : key a = k
    · simp [ha, hkeep]
    · simp [ha]

end NestedQuery.Ordered
