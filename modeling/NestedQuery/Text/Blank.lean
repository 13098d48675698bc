/-!
# Blank characters

Blank characters are those with the Unicode property `White_Space`. They separate words in a query
document and are dropped at the ends of names and argument values.
-/

namespace NestedQuery.Text

/-- The characters with the Unicode property `White_Space`. -/
def isBlank (c : Char) : Bool :=
  let n := c.toNat
  (0x09 ≤ n && n ≤ 0x0D) || n == 0x20 || n == 0x85 || n == 0xA0 || n == 0x1680 ||
    (0x2000 ≤ n && n ≤ 0x200A) || n == 0x2028 || n == 0x2029 || n == 0x202F || n == 0x205F ||
    n == 0x3000

def trimStart (s : List Char) : List Char := s.dropWhile isBlank

def trimEnd (s : List Char) : List Char := (s.reverse.dropWhile isBlank).reverse

/-- The text without the blank characters at its two ends. -/
def trim (s : List Char) : List Char := trimEnd (trimStart s)

@[simp] theorem trim_nil : trim [] = [] := rfl

theorem dropWhile_isBlank_eq_self_iff {s : List Char} :
    s.dropWhile isBlank = s ↔ ∀ c ∈ s.head?, isBlank c = false := by
  cases s with
  | nil => simp
  | cons c rest =>
    cases hc : isBlank c with
    | true =>
      have hlength := (List.dropWhile_sublist isBlank (l := rest)).length_le
      simp only [List.dropWhile_cons_of_pos hc, List.head?_cons, Option.mem_some_iff, forall_eq', hc,
        Bool.true_eq_false, iff_false]
      intro h
      rw [h, List.length_cons] at hlength
      omega
    | false => simp [hc]

theorem trim_sublist_trimStart (s : List Char) : (trim s).Sublist (trimStart s) := by
  rw [trim, trimEnd, ← List.reverse_sublist, List.reverse_reverse]
  exact List.dropWhile_sublist _

theorem trim_sublist (s : List Char) : (trim s).Sublist s :=
  (trim_sublist_trimStart s).trans (List.dropWhile_sublist _)

/-- Nothing is dropped from a text exactly when no blank stands at its ends. -/
theorem trim_eq_self_iff {s : List Char} :
    trim s = s ↔ (∀ c ∈ s.head?, isBlank c = false) ∧ ∀ c ∈ s.getLast?, isBlank c = false := by
  have hend : trimEnd s = s ↔ ∀ c ∈ s.getLast?, isBlank c = false := by
    rw [trimEnd, List.reverse_eq_iff, dropWhile_isBlank_eq_self_iff, List.head?_reverse]
  constructor
  · intro h
    have hstart : trimStart s = s := by
      have hle : (trimStart s).length ≤ s.length := (List.dropWhile_sublist _).length_le
      have hsub := trim_sublist_trimStart s
      rw [h] at hsub
      exact (hsub.eq_of_length_le hle).symm
    refine ⟨dropWhile_isBlank_eq_self_iff.mp hstart, hend.mp ?_⟩
    rwa [trim, hstart] at h
  · rintro ⟨hstart, hlast⟩
    rw [trim, trimStart, dropWhile_isBlank_eq_self_iff.mpr hstart, hend.mpr hlast]

/-- The blanks around a text are dropped. -/
theorem trim_append {before s behind : List Char} (hbefore : ∀ c ∈ before, isBlank c)
    (hbehind : ∀ c ∈ behind, isBlank c) (hs : trim s = s) (hne : s ≠ []) :
    trim (before ++ (s ++ behind)) = s := by
  obtain ⟨hstart, hend⟩ := trim_eq_self_iff.mp hs
  have htrimStart : trimStart (before ++ (s ++ behind)) = s ++ behind := by
    rw [trimStart, List.dropWhile_append_of_pos hbefore, dropWhile_isBlank_eq_self_iff]
    cases s with
    | nil => exact absurd rfl hne
    | cons c rest => exact hstart
  have hreverse : ∀ c ∈ behind.reverse, isBlank c := fun c hc => hbehind c (List.mem_reverse.mp hc)
  have hkeep : s.reverse.dropWhile isBlank = s.reverse := by
    rw [dropWhile_isBlank_eq_self_iff, List.head?_reverse]
    exact hend
  rw [trim, htrimStart, trimEnd, List.reverse_append, List.dropWhile_append_of_pos hreverse, hkeep,
    List.reverse_reverse]

/-- The first maximal run of characters that are not blank, or nothing if there is none. -/
def firstWord (s : List Char) : List Char := (trimStart s).takeWhile fun c => !isBlank c

end NestedQuery.Text
