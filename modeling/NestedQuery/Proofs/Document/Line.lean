import NestedQuery.Document.Flat

/-!
# Writing a line

What the next character of a document does to a flat line depends on the class of the character:
a parenthesis, a gap, a colon, or anything else. The characters of a name or a value are ordinary:
they are written as they stand, behind a space where one is due.
-/

namespace NestedQuery.Document

open Text

/-- The characters of which gaps between words and arguments are made. -/
def isGap (c : Char) : Bool := isBlank c || c == ','

/-- The characters that are written as they stand. -/
def isInner (c : Char) : Bool := !isGap c && c != '(' && c != ')' && c != ':'

/-- The characters that are no part of the structure of a document. -/
def isOrdinary (c : Char) : Bool := isInner c && c != '\x7b' && c != '\x7d'

theorem isInner_of_isOrdinary {c : Char} (h : isOrdinary c) : isInner c := by
  simp only [isOrdinary, Bool.and_eq_true] at h
  exact h.1.1

theorem isBlank_of_isInner {c : Char} (h : isInner c) : isBlank c = false := by
  simp only [isInner, isGap, Bool.and_eq_true, Bool.not_eq_true', Bool.or_eq_false_iff] at h
  exact h.1.1.1.1

theorem ne_of_isInner {c : Char} (h : isInner c) : c ≠ '(' ∧ c ≠ ')' ∧ c ≠ ':' ∧ c ≠ ',' := by
  simp only [isInner, isGap, Bool.and_eq_true, Bool.not_eq_true', Bool.or_eq_false_iff,
    bne_iff_ne, beq_eq_false_iff_ne] at h
  exact ⟨h.1.1.2, h.1.2, h.2, h.1.1.1.2⟩

theorem isBlank_of_isOrdinary {c : Char} (h : isOrdinary c) : isBlank c = false :=
  isBlank_of_isInner (isInner_of_isOrdinary h)

theorem isGap_of_isBlank {c : Char} (h : isBlank c) : isGap c := by
  rw [isGap, h]
  rfl

theorem isOrdinary_eq_false_of_isBlank {c : Char} (h : isBlank c) : isOrdinary c = false := by
  rw [Bool.eq_false_iff]
  intro hordinary
  rw [isBlank_of_isOrdinary hordinary] at h
  cases h

/-- No blank stands at the ends of a document. -/
theorem trim_braces (s : List Char) :
    trim ('\x7b' :: (s ++ ['\x7d'])) = '\x7b' :: (s ++ ['\x7d']) := by
  rw [trim_eq_self_iff]
  constructor
  · intro c hc
    cases hc
    decide
  · intro c hc
    simp [List.getLast?_append, List.getLast?_cons] at hc
    subst hc
    decide

namespace Line

variable {line : Line} {c : Char}

/-- What stands between a line and the next word. -/
def separator (line : Line) : List Char :=
  if line.pending && !line.endsWith ':' then [' '] else []

theorem push_opening (line : Line) :
    line.push '(' = ⟨'(' :: line.written, line.depth + 1, false⟩ := rfl

theorem push_closing (line : Line) :
    line.push ')' = ⟨')' :: dropCommas line.written, line.depth - 1, false⟩ := rfl

theorem push_colon (line : Line) :
    line.push ':' =
      ⟨':' :: (if 0 < line.depth then dropCommas line.written else line.written), line.depth,
        false⟩ := rfl

theorem push_gap (h : isGap c) :
    line.push c =
      if 0 < line.depth then
        if line.endsWith '(' || line.endsWith ',' || line.endsWith ':' then line
        else { line with written := ',' :: line.written }
      else { line with pending := !line.written.isEmpty } := by
  have hopening : c ≠ '(' := by
    rintro rfl
    cases h
  have hclosing : c ≠ ')' := by
    rintro rfl
    cases h
  rw [push, if_neg hopening, if_neg hclosing, if_pos (by exact h)]

theorem push_inner (h : isInner c) :
    line.push c = ⟨c :: (line.separator ++ line.written), line.depth, false⟩ := by
  simp only [isInner, Bool.and_eq_true, Bool.not_eq_true', bne_iff_ne, ne_eq] at h
  obtain ⟨⟨⟨hgap, hopening⟩, hclosing⟩, hcolon⟩ := h
  rw [push, if_neg hopening, if_neg hclosing, if_neg (by rw [← isGap, hgap]; simp), if_neg hcolon,
    separator]
  split
  · rfl
  · rfl

theorem dropCommas_of_head? {written : List Char} (h : written.head? ≠ some ',') :
    dropCommas written = written := by
  cases written with
  | nil => rfl
  | cons c rest =>
    have hc : c ≠ ',' := fun heq => h (congrArg some heq)
    simp [dropCommas, hc]

theorem class_cases (c : Char) : c = '(' ∨ c = ')' ∨ c = ':' ∨ isGap c ∨ isInner c := by
  by_cases hopening : c = '('
  · exact .inl hopening
  by_cases hclosing : c = ')'
  · exact .inr (.inl hclosing)
  by_cases hcolon : c = ':'
  · exact .inr (.inr (.inl hcolon))
  by_cases hgap : isGap c
  · exact .inr (.inr (.inr (.inl hgap)))
  · exact .inr (.inr (.inr (.inr (by simp [isInner, hgap, hopening, hclosing, hcolon]))))

/-- A word is written as it stands, behind a space where one is due. -/
theorem foldl_push_word {word : List Char} (hne : word ≠ []) (h : ∀ c ∈ word, isInner c) :
    word.foldl push line =
      ⟨word.reverse ++ (line.separator ++ line.written), line.depth, false⟩ := by
  induction word generalizing line with
  | nil => exact absurd rfl hne
  | cons c rest ih =>
    rw [List.foldl_cons, push_inner (h c List.mem_cons_self)]
    cases rest with
    | nil => rfl
    | cons d rest =>
      rw [ih (by simp) fun d hd => h d (List.mem_cons_of_mem _ hd)]
      simp [separator]

end Line

end NestedQuery.Document
