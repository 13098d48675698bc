import NestedQuery.Text.Utf8

/-!
# Slices

A slice of a text is given by the bytes at which it begins and ends. There is one just if both lie in
the text, in this order and not inside of a character (`Text.slice?_eq_some_iff`).
-/

namespace NestedQuery.Text

open Utf8

namespace Utf8

@[simp] theorem size_nil : size [] = 0 := rfl

@[simp] theorem size_append (a b : List Char) : size (a ++ b) = size a + size b := by
  simp [size, encode]

/-- The number of bytes of a character. -/
def width (c : Char) : Nat := (encodeChar c).length

theorem width_pos (c : Char) : 0 < width c := by
  obtain ⟨lead, tail, hc, -⟩ := next_encodeChar c []
  simp [width, hc]

@[simp] theorem size_cons (c : Char) (s : List Char) : size (c :: s) = width c + size s := by
  simp [size, encode, width]

theorem lt_size (before : List Char) (c : Char) (rest : List Char) :
    size before < size (before ++ c :: rest) := by
  have hc := width_pos c
  rw [size_append, size_cons]
  omega

end Utf8

/-- The first `n` bytes of a text and those behind them, unless they end behind the text or inside of
a character. -/
def splitBytes? : Nat → List Char → Option (List Char × List Char)
  | 0, s => some ([], s)
  | _ + 1, [] => none
  | n + 1, c :: rest =>
    if width c ≤ n + 1 then
      (splitBytes? (n + 1 - width c) rest).map fun (before, behind) => (c :: before, behind)
    else none

theorem splitBytes?_append (before behind : List Char) :
    splitBytes? (size before) (before ++ behind) = some (before, behind) := by
  induction before with
  | nil => cases behind <;> rfl
  | cons c before ih =>
    obtain ⟨n, hn⟩ : ∃ n, width c + size before = n + 1 :=
      Nat.exists_eq_add_one_of_ne_zero (Nat.ne_of_gt (Nat.add_pos_left (width_pos c) _))
    rw [size_cons, hn, List.cons_append, splitBytes?, ← hn, if_pos (Nat.le_add_right _ _),
      Nat.add_sub_cancel_left, ih]
    rfl

theorem splitBytes?_eq_some_iff {n : Nat} {s before behind : List Char} :
    splitBytes? n s = some (before, behind) ↔ s = before ++ behind ∧ size before = n := by
  constructor
  case mpr =>
    rintro ⟨rfl, rfl⟩
    exact splitBytes?_append before behind
  case mp =>
    intro h
    induction s generalizing n before with
    | nil =>
      cases n with
      | zero =>
        cases h
        exact ⟨rfl, rfl⟩
      | succ n => cases h
    | cons c rest ih =>
      cases n with
      | zero =>
        cases h
        exact ⟨rfl, rfl⟩
      | succ n =>
        rw [splitBytes?] at h
        split at h
        · next hle =>
          obtain ⟨⟨before', behind'⟩, hsplit, heq⟩ := Option.map_eq_some_iff.mp h
          cases heq
          obtain ⟨rfl, hsize⟩ := ih hsplit
          refine ⟨rfl, ?_⟩
          rw [size_cons, hsize]
          omega
        · cases h

/-- The text between two bytes. -/
def slice? (s : List Char) (first last : Nat) : Option (List Char) :=
  (splitBytes? last s).bind fun (before, _) => (splitBytes? first before).map Prod.snd

theorem slice?_eq_some_iff {s w : List Char} {first last : Nat} :
    slice? s first last = some w ↔
      ∃ before behind, s = before ++ w ++ behind ∧ size before = first ∧
        size (before ++ w) = last := by
  constructor
  · intro h
    obtain ⟨⟨upTo, behind⟩, hlast, h⟩ := Option.bind_eq_some_iff.mp h
    obtain ⟨⟨before, w'⟩, hfirst, rfl⟩ := Option.map_eq_some_iff.mp h
    obtain ⟨rfl, hsize⟩ := splitBytes?_eq_some_iff.mp hlast
    obtain ⟨rfl, hbefore⟩ := splitBytes?_eq_some_iff.mp hfirst
    exact ⟨before, behind, rfl, hbefore, hsize⟩
  · rintro ⟨before, behind, rfl, rfl, rfl⟩
    simp only [slice?, splitBytes?_append, Option.bind_some, Option.map_some]

example : slice? ['é', 'a'] 2 3 = some ['a'] ∧ slice? ['é', 'a'] 1 3 = none := by decide

theorem slice?_eq_none_of_lt {s : List Char} {first last : Nat} (h : last < first) :
    slice? s first last = none := by
  rw [Option.eq_none_iff_forall_ne_some]
  intro w hw
  obtain ⟨before, _, -, rfl, rfl⟩ := slice?_eq_some_iff.mp hw
  rw [size_append] at h
  omega

/-- What stands between two parts of a text is a slice. -/
theorem slice?_append (before w behind : List Char) :
    slice? (before ++ (w ++ behind)) (size before) (size before + size w) = some w :=
  slice?_eq_some_iff.mpr ⟨before, behind, (List.append_assoc _ _ _).symm, rfl, size_append _ _⟩

theorem slice?_prefix (w behind : List Char) : slice? (w ++ behind) 0 (size w) = some w :=
  slice?_eq_some_iff.mpr ⟨[], behind, rfl, rfl, rfl⟩

theorem slice?_suffix (before w : List Char) :
    slice? (before ++ w) (size before) (size (before ++ w)) = some w :=
  slice?_eq_some_iff.mpr ⟨before, [], by simp, rfl, rfl⟩

end NestedQuery.Text
