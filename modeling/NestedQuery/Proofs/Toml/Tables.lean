import Mathlib.Data.List.Basic
import NestedQuery.Toml.Reader

/-!
# Arrays of tables

A document may be written as an array of tables, each with members of its own and perhaps another
array of tables below it. The lines of the document add to the last table of the array, or to the
last table of the array below it.
-/

namespace NestedQuery.Toml

namespace Draft

variable {key : String} {ms : DraftMembers} {d : Draft} {all : List DraftMembers}

theorem find?_eq_none_iff : find? key ms = none ↔ key ∉ ms.map Prod.fst := by
  simp only [find?, Option.map_eq_none_iff, List.find?_eq_none, List.mem_map, not_exists, not_and,
    beq_iff_eq]

theorem find?_append_of_none (h : find? key ms = none) : find? key (ms ++ [(key, d)]) = some d := by
  rw [find?, Option.map_eq_none_iff] at h
  simp [find?, List.find?_append, h]

theorem put_append_of_none (h : find? key ms = none) (old : Draft) :
    put key d (ms ++ [(key, old)]) = ms ++ [(key, d)] := by
  induction ms with
  | nil => simp [put]
  | cons m rest ih =>
    rw [find?_eq_none_iff, List.map_cons, List.mem_cons, not_or] at h
    rw [List.cons_append, put, if_neg (Ne.symm h.1), ih (find?_eq_none_iff.mpr h.2),
      List.cons_append]

theorem changeLast_append {α : Type} (change : α → Option α) (items : List α) (a : α) :
    changeLast change (items ++ [a]) = (change a).map fun a => items ++ [a] := by
  induction items with
  | nil => rfl
  | cons b rest ih =>
    cases hrest : rest ++ [a] with
    | nil => simp at hrest
    | cons c more =>
      rw [List.cons_append, hrest, changeLast, ← hrest, ih, Option.map_map]
      · rfl
      · simp

/-- An array of tables that has no key before it has a table. -/
def arrayOf (key : String) (all : List DraftMembers) : DraftMembers :=
  if all.isEmpty then [] else [(key, .tables all)]

theorem arrayOf_append (key : String) (all : List DraftMembers) (ms : DraftMembers) :
    arrayOf key (all ++ [ms]) = [(key, .tables (all ++ [ms]))] := by
  simp [arrayOf]

theorem finishedMembers_eq_map (ms : DraftMembers) :
    finishedMembers ms = ms.map fun (k, d) => (k, finished d) := by
  induction ms with
  | nil => rfl
  | cons m rest ih => rw [finishedMembers, ih, List.map_cons]

theorem finishedTables_eq_map (all : List DraftMembers) :
    finishedTables all = all.map fun ms => .table (finishedMembers ms) := by
  induction all with
  | nil => rfl
  | cons ms rest ih => rw [finishedTables, ih, List.map_cons]

end Draft

namespace Document

open Draft

variable {d : Document} {a b key : String} {ms : DraftMembers} {all below : List DraftMembers}

/-! ### Members -/

theorem add_pair {v : Toml} (h : key ∉ d.current.map Prod.fst) :
    d.add (.pair [key] v) = some { d with current := d.current ++ [(key, .value v)] } := by
  have hnone := find?_eq_none_iff.mpr h
  simp [add, splitLast, addValue, changeAt, hnone]

/-- Members with different keys are added one after the other. -/
theorem foldlM_add_pairs {pairs : List (String × Toml)}
    (h : (d.current.map Prod.fst ++ pairs.map Prod.fst).Nodup) :
    (pairs.map fun (k, v) => Line.pair [k] v).foldlM add d =
      some { d with current := d.current ++ pairs.map fun (k, v) => (k, .value v) } := by
  induction pairs generalizing d with
  | nil => simp
  | cons p rest ih =>
    obtain ⟨k, v⟩ := p
    have hfree : k ∉ d.current.map Prod.fst := by
      intro hmem
      rw [List.nodup_append] at h
      exact h.2.2 k hmem k (by simp) rfl
    rw [List.map_cons, List.foldlM_cons, add_pair hfree]
    have hrest := ih (d := { d with current := d.current ++ [(k, .value v)] }) (by simpa using h)
    simpa using hrest

/-! ### Tables of an array -/

theorem add_header (h : d.close = some (arrayOf a all)) :
    d.add (.arrayHeader [a]) = some ⟨[(a, .tables all)], [a], true, []⟩ := by
  cases all with
  | nil => simp [add, h, arrayOf, changeParent, splitLast, changeAt, Draft.find?]
  | cons ms rest => simp [add, h, arrayOf, changeParent, splitLast, changeAt, Draft.find?]

theorem close_header (current : DraftMembers) :
    (Document.mk [(a, .tables all)] [a] true current).close =
      some [(a, .tables (all ++ [current]))] := by
  simp [close, changeParent, splitLast, changeAt, Draft.find?, put]

theorem add_headerBelow (h : d.close = some [(a, .tables (all ++ [ms ++ arrayOf b below]))])
    (hfree : b ∉ ms.map Prod.fst) :
    d.add (.arrayHeader [a, b]) =
      some ⟨[(a, .tables (all ++ [ms ++ [(b, .tables below)]]))], [a, b], true, []⟩ := by
  have hnone := find?_eq_none_iff.mpr hfree
  have hfind : Draft.find? a [(a, .tables (all ++ [ms ++ arrayOf b below]))] =
      some (.tables (all ++ [ms ++ arrayOf b below])) := by simp [Draft.find?]
  cases below with
  | nil =>
    simp only [arrayOf, List.isEmpty_nil, ↓reduceIte, List.append_nil] at h hfind
    simp [add, h, changeParent, splitLast, changeAt, hfind, changeLast_append, hnone, put]
  | cons sub subs =>
    have hsome := find?_append_of_none (d := .tables (sub :: subs)) hnone
    simp only [arrayOf, List.isEmpty_cons, Bool.false_eq_true, ↓reduceIte] at h hfind
    simp [add, h, changeParent, splitLast, changeAt, hfind, changeLast_append, hsome, put]

theorem close_headerBelow (hfree : b ∉ ms.map Prod.fst) (current : DraftMembers) :
    (Document.mk [(a, .tables (all ++ [ms ++ [(b, .tables below)]]))] [a, b] true current).close =
      some [(a, .tables (all ++ [ms ++ [(b, .tables (below ++ [current]))]]))] := by
  have hnone := find?_eq_none_iff.mpr hfree
  have hsome := find?_append_of_none (d := .tables below) hnone
  have hput := put_append_of_none (d := .tables (below ++ [current])) hnone (.tables below)
  have hfind : Draft.find? a [(a, .tables (all ++ [ms ++ [(b, .tables below)]]))] =
      some (.tables (all ++ [ms ++ [(b, .tables below)]])) := by simp [Draft.find?]
  simp [close, changeParent, splitLast, changeAt, hfind, changeLast_append, hsome, hput, put]

end Document

end NestedQuery.Toml
