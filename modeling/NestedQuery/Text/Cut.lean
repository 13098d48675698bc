/-!
# Cutting text at separators

A text is cut at the first or the last occurrence of a character, or at all of them, and every
occurrence of a reference can be replaced. Each cut gives the text back when the separator is put
between its parts.
-/

namespace NestedQuery.Text

/-- The text before the first `c` and the text after it. -/
def cutFirst (c : Char) : List Char → Option (List Char × List Char)
  | [] => none
  | d :: rest =>
    if d = c then some ([], rest)
    else (cutFirst c rest).map fun (before, after) => (d :: before, after)

/-- The text before the last `c` and the text after it. -/
def cutLast (c : Char) : List Char → Option (List Char × List Char)
  | [] => none
  | d :: rest =>
    match cutLast c rest with
    | some (before, after) => some (d :: before, after)
    | none => if d = c then some ([], rest) else none

/-- The pieces between the occurrences of `c`; one more than there are occurrences. -/
def pieces (c : Char) : List Char → List (List Char)
  | [] => [[]]
  | d :: rest =>
    if d = c then [] :: pieces c rest
    else
      match pieces c rest with
      | [] => [[d]]
      | piece :: more => (d :: piece) :: more

/-- The text behind `mark`, if the text starts with it. -/
def dropMark? (mark s : List Char) : Option (List Char) :=
  if mark.isPrefixOf s then some (s.drop mark.length) else none

/-- The text before the first occurrence of `mark`, and the text behind it if there is one. -/
def cutAt (mark : List Char) : List Char → List Char × Option (List Char)
  | [] => ([], dropMark? mark [])
  | c :: rest =>
    match dropMark? mark (c :: rest) with
    | some behind => ([], some behind)
    | none => let (before, behind) := cutAt mark rest; (c :: before, behind)

theorem cutFirst_eq_some {c : Char} {s before after : List Char}
    (h : cutFirst c s = some (before, after)) : s = before ++ c :: after ∧ c ∉ before := by
  induction s generalizing before with
  | nil => simp [cutFirst] at h
  | cons d rest ih =>
    by_cases hd : d = c
    · simp only [cutFirst, hd, ↓reduceIte, Option.some.injEq, Prod.mk.injEq] at h
      obtain ⟨rfl, rfl⟩ := h
      simp [hd]
    · simp only [cutFirst, hd, ↓reduceIte, Option.map_eq_some_iff, Prod.mk.injEq] at h
      obtain ⟨⟨before', after'⟩, hcut, rfl, rfl⟩ := h
      obtain ⟨rfl, hnot⟩ := ih hcut
      simp [hnot, Ne.symm hd]

theorem cutFirst_eq_none_iff {c : Char} {s : List Char} : cutFirst c s = none ↔ c ∉ s := by
  induction s with
  | nil => simp [cutFirst]
  | cons d rest ih =>
    by_cases hd : d = c
    · simp [cutFirst, hd]
    · simp [cutFirst, hd, ih, Ne.symm hd]

theorem cutLast_eq_none_iff {c : Char} {s : List Char} : cutLast c s = none ↔ c ∉ s := by
  induction s with
  | nil => simp [cutLast]
  | cons d rest ih =>
    cases hcut : cutLast c rest with
    | some parts =>
      have hmem : c ∈ rest := by
        refine Classical.byContradiction fun hnot => ?_
        rw [ih.mpr hnot] at hcut
        cases hcut
      simp [cutLast, hcut, hmem]
    | none =>
      have hnot := ih.mp hcut
      by_cases hd : d = c
      · simp [cutLast, hcut, hd]
      · simp [cutLast, hcut, hd, hnot, Ne.symm hd]

theorem cutLast_eq_some {c : Char} {s before after : List Char}
    (h : cutLast c s = some (before, after)) : s = before ++ c :: after ∧ c ∉ after := by
  induction s generalizing before with
  | nil => simp [cutLast] at h
  | cons d rest ih =>
    cases hcut : cutLast c rest with
    | some parts =>
      simp only [cutLast, hcut, Option.some.injEq, Prod.mk.injEq] at h
      obtain ⟨rfl, rfl⟩ := h
      obtain ⟨hrest, hnot⟩ := ih hcut
      exact ⟨by rw [hrest]; rfl, hnot⟩
    | none =>
      by_cases hd : d = c
      · simp only [cutLast, hcut, hd, ↓reduceIte, Option.some.injEq, Prod.mk.injEq] at h
        obtain ⟨rfl, rfl⟩ := h
        exact ⟨by rw [hd]; rfl, cutLast_eq_none_iff.mp hcut⟩
      · simp [cutLast, hcut, hd] at h

theorem cutFirst_append {c : Char} {before : List Char} (h : c ∉ before) (after : List Char) :
    cutFirst c (before ++ c :: after) = some (before, after) := by
  induction before with
  | nil => simp [cutFirst]
  | cons d before ih =>
    rw [List.mem_cons, not_or] at h
    simp [cutFirst, Ne.symm h.1, ih h.2]

theorem cutLast_append {c : Char} (before : List Char) {after : List Char} (h : c ∉ after) :
    cutLast c (before ++ c :: after) = some (before, after) := by
  induction before with
  | nil => simp [cutLast, cutLast_eq_none_iff.mpr h]
  | cons d before ih => simp [cutLast, ih]

theorem pieces_of_not_mem {c : Char} {s : List Char} (h : c ∉ s) : pieces c s = [s] := by
  induction s with
  | nil => rfl
  | cons d rest ih =>
    rw [List.mem_cons, not_or] at h
    simp [pieces, Ne.symm h.1, ih h.2]

theorem pieces_append {c : Char} {s : List Char} (h : c ∉ s) (rest : List Char) :
    pieces c (s ++ c :: rest) = s :: pieces c rest := by
  induction s with
  | nil => simp [pieces]
  | cons d s ih =>
    rw [List.mem_cons, not_or] at h
    simp [pieces, Ne.symm h.1, ih h.2]

/-- The pieces of parts with a separator between them are the parts. -/
theorem pieces_intercalate {c : Char} {parts : List (List Char)} (hne : parts ≠ [])
    (h : ∀ part ∈ parts, c ∉ part) : pieces c ([c].intercalate parts) = parts := by
  induction parts with
  | nil => exact absurd rfl hne
  | cons part rest ih =>
    have hpart : c ∉ part := h part List.mem_cons_self
    cases rest with
    | nil =>
      rw [List.intercalate_singleton]
      exact pieces_of_not_mem hpart
    | cons next rest =>
      have hrest := ih (by simp) fun p hp => h p (List.mem_cons_of_mem _ hp)
      rw [List.intercalate_cons_cons, List.append_assoc, List.singleton_append, pieces_append hpart,
        hrest]

end NestedQuery.Text
