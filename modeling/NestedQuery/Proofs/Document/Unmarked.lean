import NestedQuery.Proofs.Document.Marks

/-!
# Taking the marks away

The marks of a flat document can be told from a text that looks like them: taken away by two textual
replacements (`Document.unmark`) they leave the plain line, whatever is written beside the braces.

## Main result

`Document.scan_flatten_unmark`: the tokens of a flat document are what is left of this line when it
is cut at its spaces and braces, and the braces of the line are those of the document behind its
first one. So no brace gets lost on the way, and none becomes part of a word.
-/

namespace NestedQuery

open Text

/-! ### Replacing a text -/

namespace Text

/-- Replaces every occurrence of `mark` by `value`, from the left. -/
def replaceEach (mark value : List Char) : List Char → List Char
  | [] => []
  | c :: rest =>
    if mark.isPrefixOf (c :: rest) then
      value ++ replaceEach mark value (rest.drop (mark.length - 1))
    else c :: replaceEach mark value rest
termination_by s => s.length
decreasing_by all_goals simp only [List.length_drop, List.length_cons]; omega

variable {mark value : List Char}

theorem replaceEach_nil (mark value : List Char) : replaceEach mark value [] = [] := by
  rw [replaceEach]

theorem replaceEach_append (hne : mark ≠ []) (rest : List Char) :
    replaceEach mark value (mark ++ rest) = value ++ replaceEach mark value rest := by
  obtain ⟨c, mark, rfl⟩ := List.exists_cons_of_ne_nil hne
  rw [List.cons_append, replaceEach, if_pos (by simp)]
  simp

theorem replaceEach_cons {c : Char} {rest : List Char} (h : ¬mark <+: c :: rest) :
    replaceEach mark value (c :: rest) = c :: replaceEach mark value rest := by
  rw [replaceEach, if_neg (by simpa using h)]

/-- Where blanks do not count, it does not matter whether they stand at the start. -/
theorem filter_dropWhile {p q : Char → Bool} (h : ∀ c, q c → p c = false) (s : List Char) :
    (s.dropWhile q).filter p = s.filter p := by
  induction s with
  | nil => rfl
  | cons c rest ih =>
    cases hc : q c with
    | true => simp [hc, h c hc, ih]
    | false => simp [hc]

theorem filter_trim {p : Char → Bool} (h : ∀ c, isBlank c → p c = false) (s : List Char) :
    (trim s).filter p = s.filter p := by
  rw [trim, trimEnd, List.filter_reverse, filter_dropWhile h, List.filter_reverse,
    List.reverse_reverse, trimStart, filter_dropWhile h]

end Text

namespace Document

/-! ### The plain line again -/

/-- The text without the marks beside its braces. -/
def unmark (flat : List Char) : List Char :=
  replaceEach Token.closingMark ['\x7d'] (replaceEach Token.openingMark ['\x7b'] flat)

/-- A character whose mark is still there only if it stands behind a closing brace. -/
def markClosing (c : Char) : List Char := if c = '\x7d' then Token.closingMark else [c]

theorem flatMap_markBrace_eq_self {u : List Char} (h : ∀ c ∈ u, markBrace c = [c]) :
    u.flatMap markBrace = u := by
  induction u with
  | nil => rfl
  | cons c u ih =>
    rw [List.forall_mem_cons] at h
    rw [List.flatMap_cons, h.1, ih h.2, List.singleton_append]

/-- Between marks no text is taken for the mark of an opening brace. -/
theorem replaceEach_openingMark_append {u : List Char} (h : ∀ c ∈ u, markBrace c = [c])
    (value s : List Char) :
    replaceEach Token.openingMark value (u ++ s.flatMap markBrace) =
      u ++ replaceEach Token.openingMark value (s.flatMap markBrace) := by
  induction u with
  | nil => rfl
  | cons c u ih =>
    have hu : ∀ d ∈ u, markBrace d = [d] := fun d hd => h d (List.mem_cons_of_mem c hd)
    have htext : u ++ s.flatMap markBrace = (u ++ s).flatMap markBrace := by
      rw [List.flatMap_append, flatMap_markBrace_eq_self hu]
    have hno : ¬Token.openingMark <+: c :: (u ++ s.flatMap markBrace) := by
      intro hprefix
      have hcons : Token.openingMark = '@' :: Token.openingMark.drop 1 := rfl
      rw [hcons, List.cons_prefix_cons, htext] at hprefix
      exact Token.not_isPrefix_flatMap_markBrace (by decide) (by decide) _ hprefix.2
    rw [List.cons_append, replaceEach_cons hno, ih hu, List.cons_append]

theorem replaceEach_openingMark (s : List Char) :
    replaceEach Token.openingMark ['\x7b'] (s.flatMap markBrace) = s.flatMap markClosing := by
  induction s with
  | nil => exact replaceEach_nil _ _
  | cons c rest ih =>
    rw [List.flatMap_cons, List.flatMap_cons, ← ih]
    by_cases hstart : c = '\x7b'
    · subst hstart
      exact replaceEach_append (by decide) _
    by_cases hend : c = '\x7d'
    · subst hend
      have hno : ¬Token.openingMark <+: '\x7d' :: (endMark ++ rest.flatMap markBrace) := by
        intro hprefix
        cases (List.cons_prefix_cons.mp hprefix).1
      have hchars : endMark = ['@', '@', 'e', 'n', 'd', '@', '@'] := rfl
      have hmark : ∀ c ∈ endMark, markBrace c = [c] := by simp [hchars, markBrace]
      have hbrace : markBrace '\x7d' = '\x7d' :: endMark := rfl
      rw [hbrace, List.cons_append, replaceEach_cons hno, replaceEach_openingMark_append hmark]
      rfl
    · have hbrace := markBrace_of_ne hstart hend
      have hclosing : markClosing c = [c] := if_neg hend
      rw [hbrace, hclosing]
      exact replaceEach_openingMark_append (by simpa using hbrace) _ rest

theorem replaceEach_closingMark (s : List Char) :
    replaceEach Token.closingMark ['\x7d'] (s.flatMap markClosing) = s := by
  induction s with
  | nil => exact replaceEach_nil _ _
  | cons c rest ih =>
    rw [List.flatMap_cons, markClosing]
    split
    · next hend => rw [replaceEach_append (by decide), ih, hend, List.singleton_append]
    · next hend =>
      have hno : ¬Token.closingMark <+: c :: rest.flatMap markClosing := by
        intro hprefix
        exact hend (List.cons_prefix_cons.mp hprefix).1.symm
      rw [List.singleton_append, replaceEach_cons hno, ih]

/-- Without its marks a flat document is the plain line. -/
theorem unmark_flatten (raw : List Char) : unmark (flatten raw) = trim (plain raw) := by
  rw [flatten_eq_flatMap, unmark, replaceEach_openingMark, replaceEach_closingMark]

/-! ### Spaces and braces -/

def isBrace (c : Char) : Bool := c == '\x7b' || c == '\x7d'

theorem isBrace_of_isGap {c : Char} (h : isGap c) : isBrace c = false := by
  rw [isBrace, Bool.or_eq_false_iff, beq_eq_false_iff_ne, beq_eq_false_iff_ne]
  constructor
  · rintro rfl
    cases h
  · rintro rfl
    cases h

theorem isBrace_of_isBlank {c : Char} (h : isBlank c) : isBrace c = false :=
  isBrace_of_isGap (isGap_of_isBlank h)

/-- Of the blanks only spaces stand in the text. -/
def Spaced (s : List Char) : Prop := ∀ c ∈ s, isBlank c → c = ' '

theorem Spaced.cons {s : List Char} (h : Spaced s) {c : Char} (hc : isBlank c = false) :
    Spaced (c :: s) := by
  intro d hd hblank
  rcases List.mem_cons.mp hd with rfl | hd
  · rw [hc] at hblank
    cases hblank
  · exact h d hd hblank

theorem Spaced.space {s : List Char} (h : Spaced s) : Spaced (' ' :: s) := by
  intro d hd hblank
  rcases List.mem_cons.mp hd with rfl | hd
  · rfl
  · exact h d hd hblank

namespace Line

theorem filter_dropCommas (written : List Char) :
    (dropCommas written).filter isBrace = written.filter isBrace := by
  apply filter_dropWhile
  intro c hc
  rw [beq_iff_eq.mp hc]
  rfl

theorem filter_separator (line : Line) : line.separator.filter isBrace = [] := by
  rw [separator]
  split
  · rfl
  · rfl

/-- A brace is written, and no character makes another one or takes one away. -/
theorem filter_push (line : Line) (c : Char) :
    (line.push c).written.filter isBrace =
      [c].filter isBrace ++ line.written.filter isBrace := by
  rcases class_cases c with rfl | rfl | rfl | hgap | hinner
  · rfl
  · rw [push_closing]
    exact filter_dropCommas _
  · rw [push_colon]
    show (if 0 < line.depth then _ else _ : List Char).filter isBrace = _
    split
    · exact filter_dropCommas _
    · rfl
  · have hnone : [c].filter isBrace = [] := by simp [isBrace_of_isGap hgap]
    rw [push_gap hgap, hnone]
    split
    · split
      · rfl
      · rfl
    · rfl
  · rw [push_inner hinner, ← List.singleton_append, List.filter_append, List.filter_append,
      filter_separator, List.nil_append]

theorem filter_foldl_push (line : Line) (s : List Char) :
    (s.foldl push line).written.filter isBrace =
      (s.filter isBrace).reverse ++ line.written.filter isBrace := by
  induction s generalizing line with
  | nil => rfl
  | cons c rest ih =>
    have hcons : (c :: rest).filter isBrace = [c].filter isBrace ++ rest.filter isBrace := by
      rw [← List.filter_append, List.singleton_append]
    have hone : ([c].filter isBrace).reverse = [c].filter isBrace := by
      rw [← List.filter_reverse, List.reverse_singleton]
    rw [List.foldl_cons, ih, filter_push, hcons, List.reverse_append, hone, List.append_assoc]

theorem push_spaced {line : Line} (h : Spaced line.written) (c : Char) :
    Spaced (line.push c).written := by
  have hcommas : Spaced (dropCommas line.written) :=
    fun d hd => h d ((List.dropWhile_sublist _).subset hd)
  rcases class_cases c with rfl | rfl | rfl | hgap | hinner
  · exact h.cons rfl
  · exact hcommas.cons rfl
  · rw [push_colon]
    refine Spaced.cons ?_ rfl
    split
    · exact hcommas
    · exact h
  · rw [push_gap hgap]
    split
    · split
      · exact h
      · exact h.cons rfl
    · exact h
  · rw [push_inner hinner, separator]
    refine Spaced.cons ?_ (isBlank_of_isInner hinner)
    split
    · exact h.space
    · exact h

theorem foldl_push_spaced {line : Line} (h : Spaced line.written) (s : List Char) :
    Spaced (s.foldl push line).written := by
  induction s generalizing line with
  | nil => exact h
  | cons c rest ih => exact ih (push_spaced h c)

end Line

theorem spaced_plain (raw : List Char) : Spaced (plain raw) := by
  have hempty : Spaced Line.empty.written := fun _ hc => nomatch hc
  intro c hc
  exact Line.foldl_push_spaced hempty _ c (List.mem_reverse.mp hc)

/-- The brace that opens a document, if it has one. -/
def openingBrace (raw : List Char) : List Char :=
  if (trimStart raw).head? = some '\x7b' then ['\x7b'] else []

theorem filter_plain (raw : List Char) :
    (plain raw).filter isBrace = (body raw).filter isBrace := by
  rw [plain, List.filter_reverse, Line.filter_foldl_push]
  simp [Line.empty]

/-- The braces of a document are the one that opens it and those behind. -/
theorem filter_body (raw : List Char) :
    raw.filter isBrace = openingBrace raw ++ (body raw).filter isBrace := by
  have htrim : raw.filter isBrace = (trimStart raw).filter isBrace :=
    (filter_dropWhile (fun _ => isBrace_of_isBlank) raw).symm
  rw [htrim, openingBrace, body]
  cases hstart : trimStart raw with
  | nil => rfl
  | cons c rest =>
    by_cases hc : c = '\x7b'
    · subst hc
      rfl
    · split
      · next h => exact absurd (Option.some.inj h) hc
      · split
        · next h => exact absurd (List.cons.inj h).1 hc
        · rfl

end Document

/-! ### Cutting the line -/

namespace Token

open Document

/-- The brace that a token stands for. -/
def brace? : Token → Option Char
  | word _ => none
  | opening => some '\x7b'
  | closing => some '\x7d'

/-- A word has a character, and none at which a line is cut. -/
def IsWhole : Token → Prop
  | word w => w ≠ [] ∧ ∀ c ∈ w, isStop c = false
  | _ => True

theorem brace?_ofRead (read : List Char) : (ofRead read).filterMap brace? = [] := by
  rw [ofRead]
  split
  · rfl
  · rfl

theorem brace?_ofStop (c : Char) : (ofStop c).filterMap brace? = [c].filter isBrace := by
  by_cases hstart : c = '\x7b'
  · subst hstart
    rfl
  by_cases hend : c = '\x7d'
  · subst hend
    rfl
  · simp [ofStop, isBrace, hstart, hend]

/-- Every brace of a line is a token of its own. -/
theorem brace?_cutFrom (read s : List Char) :
    (cutFrom read s).filterMap brace? = s.filter isBrace := by
  induction s generalizing read with
  | nil => exact brace?_ofRead read
  | cons c rest ih =>
    rw [cutFrom]
    split
    · rw [List.filterMap_append, List.filterMap_append, brace?_ofRead, brace?_ofStop, ih,
        List.nil_append, ← List.filter_append]
      rfl
    · next hc =>
      have hbrace : isBrace c = false := by
        simp [isStop] at hc
        simp [isBrace, hc]
      rw [ih, List.filter_cons_of_neg (by simp [hbrace])]

theorem isWhole_ofRead {read : List Char} (h : ∀ c ∈ read, isStop c = false) :
    ∀ t ∈ ofRead read, t.IsWhole := by
  rw [ofRead]
  split
  · exact fun _ ht => nomatch ht
  · next hne =>
    rw [List.forall_mem_singleton]
    exact ⟨by simpa using hne, fun c hc => h c (List.mem_reverse.mp hc)⟩

theorem isWhole_ofStop (c : Char) : ∀ t ∈ ofStop c, t.IsWhole := by
  unfold ofStop
  split
  · simp [IsWhole]
  split
  · simp [IsWhole]
  · simp

theorem isWhole_cutFrom {read : List Char} (h : ∀ c ∈ read, isStop c = false) (s : List Char) :
    ∀ t ∈ cutFrom read s, t.IsWhole := by
  induction s generalizing read with
  | nil => exact isWhole_ofRead h
  | cons c rest ih =>
    rw [cutFrom]
    split
    · rw [List.forall_mem_append, List.forall_mem_append]
      exact ⟨isWhole_ofRead h, isWhole_ofStop c, ih (List.forall_mem_nil _)⟩
    · next hc => exact ih (List.forall_mem_cons.mpr ⟨by simpa using hc, h⟩)

end Token

/-- The tokens of a flat document are what is left of it without its marks when it is cut at spaces
and braces, and its braces are those of the document behind the first one. -/
theorem Document.scan_flatten_unmark (raw : List Char) :
    (∀ c ∈ unmark (flatten raw), isBlank c → c = ' ') ∧
      Token.scan (flatten raw) = Token.cut (unmark (flatten raw)) ∧
      (∀ t ∈ Token.scan (flatten raw), t.IsWhole) ∧
      (Token.scan (flatten raw)).filterMap Token.brace? = (unmark (flatten raw)).filter isBrace ∧
      raw.filter isBrace = openingBrace raw ++ (unmark (flatten raw)).filter isBrace := by
  have hscan : Token.scan (flatten raw) = Token.cut (unmark (flatten raw)) := by
    rw [unmark_flatten, scan_flatten, Token.cut_trim]
  have hbraces : (unmark (flatten raw)).filter isBrace = (body raw).filter isBrace := by
    rw [unmark_flatten, filter_trim fun _ => isBrace_of_isBlank, filter_plain]
  refine ⟨?_, hscan, ?_, ?_, ?_⟩
  · intro c hc
    rw [unmark_flatten] at hc
    exact spaced_plain raw c ((trim_sublist _).subset hc)
  · rw [hscan]
    exact Token.isWhole_cutFrom (List.forall_mem_nil _) _
  · rw [hscan]
    exact Token.brace?_cutFrom [] _
  · rw [hbraces]
    exact filter_body raw

end NestedQuery
