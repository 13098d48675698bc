import Mathlib.Data.List.Chain
import NestedQuery.Proofs.Document.Unmarked

/-!
# The form of a flat line

A flat line has one form only (`Document.Canonical`): outside of parentheses words are kept apart by
single spaces, inside of them arguments are kept apart by single commas, and no separator stands
beside a colon or at the inside of a parenthesis. Which character may be written next depends on
what is written already (`Line.Follows`), and every step of writing keeps to it (`Line.Tidy.push`).

## Main result

`Document.flatten_canonical`: a flat document has this form, and a text of this form is written as
it stands, so that flattening a flat document once more changes nothing.
-/

namespace NestedQuery.Document

open Text

/-! ### The form -/

/-- How many parentheses are open behind a character. One that closes none is passed over. -/
def nest (depth : Nat) (c : Char) : Nat :=
  if c = '(' then depth + 1 else if c = ')' then depth - 1 else depth

/-- How many parentheses are open behind a text. -/
def depthBehind (s : List Char) : Nat := s.foldl nest 0

/-- The second character may stand behind the first one in a flat line. -/
structure Adjoins (c d : Char) : Prop where
  blank : isBlank d → isBlank c = false ∧ c ≠ ':'
  behindBlank : isBlank c → d ≠ '(' ∧ d ≠ ')' ∧ d ≠ ':' ∧ d ≠ ','
  comma : d = ',' → c ≠ '(' ∧ c ≠ ',' ∧ c ≠ ':'
  behindComma : c = ',' → d ≠ ')' ∧ d ≠ ':'

structure Canonical (line : List Char) : Prop where
  -- blanks are spaces and stand outside of parentheses, commas stand inside of them
  space : ∀ before c behind, line = before ++ c :: behind → isBlank c →
    c = ' ' ∧ depthBehind before = 0
  comma : ∀ before behind, line = before ++ ',' :: behind → 0 < depthBehind before
  neighbours : line.IsChain Adjoins
  start : ∀ c ∈ line.head?, isBlank c = false
  ending : ∀ c ∈ line.getLast?, isBlank c = false

namespace Line

/-! ### What may be written next -/

/-- How many parentheses are open behind what is written. -/
def openIn (written : List Char) : Nat := depthBehind written.reverse

theorem openIn_cons (c : Char) (written : List Char) :
    openIn (c :: written) = nest (openIn written) c := by
  rw [openIn, depthBehind, List.reverse_cons, List.foldl_append]
  rfl

theorem openIn_cons_of_ne {c : Char} (hopening : c ≠ '(') (hclosing : c ≠ ')')
    (written : List Char) : openIn (c :: written) = openIn written := by
  rw [openIn_cons, nest, if_neg hopening, if_neg hclosing]

/-- The character may be written behind a text, of which the last character comes first. -/
structure Follows (written : List Char) (c : Char) : Prop where
  blank : isBlank c → c = ' ' ∧ openIn written = 0 ∧ written ≠ []
  comma : c = ',' → 0 < openIn written
  adjoins : ∀ d ∈ written.head?, Adjoins d c

/-- Every character may be written behind those before it. -/
inductive Tidy : List Char → Prop where
  | nil : Tidy []
  | cons {c : Char} {written : List Char} (follows : Follows written c) (rest : Tidy written) :
      Tidy (c :: written)

variable {written : List Char}

theorem Tidy.follows {c : Char} {before behind : List Char} (h : Tidy (behind ++ c :: before)) :
    Follows before c := by
  induction behind with
  | nil =>
    cases h with
    | cons follows _ => exact follows
  | cons d behind ih =>
    cases h with
    | cons _ rest => exact ih rest

theorem Tidy.isChain (h : Tidy written) : written.IsChain fun d c => Adjoins c d := by
  induction h with
  | nil => exact .nil
  | cons follows _ ih => exact List.isChain_cons.mpr ⟨follows.adjoins, ih⟩

/-- What was written without a blank at its end has the form of a flat line. -/
theorem Tidy.canonical (h : Tidy written) (hend : ∀ c ∈ written.head?, isBlank c = false) :
    Canonical written.reverse := by
  have hfollows : ∀ before c behind, written.reverse = before ++ c :: behind →
      Follows before.reverse c := by
    intro before c behind hsplit
    have hwritten : written = behind.reverse ++ c :: before.reverse := by
      rw [List.reverse_eq_iff] at hsplit
      simp [hsplit]
    rw [hwritten] at h
    exact h.follows
  constructor
  case space =>
    intro before c behind hsplit hc
    obtain ⟨hspace, hdepth, -⟩ := (hfollows before c behind hsplit).blank hc
    rw [openIn, List.reverse_reverse] at hdepth
    exact ⟨hspace, hdepth⟩
  case comma =>
    intro before behind hsplit
    have hdepth := (hfollows before ',' behind hsplit).comma rfl
    rwa [openIn, List.reverse_reverse] at hdepth
  case neighbours => exact List.isChain_reverse.mpr h.isChain
  case start =>
    intro c hc
    obtain ⟨behind, hsplit⟩ := List.head?_eq_some_iff.mp hc
    -- a blank has something before it
    rw [Bool.eq_false_iff]
    intro hblank
    exact ((hfollows [] c behind hsplit).blank hblank).2.2 rfl
  case ending =>
    intro c hc
    rw [List.getLast?_reverse] at hc
    exact hend c hc

/-- A character that is no separator may be written behind anything but a blank, and behind a comma
if it does not close the arguments or go on with the one before. -/
theorem Follows.of_adjoins {c : Char} (hblank : isBlank c = false) (hcomma : c ≠ ',')
    (hend : ∀ d ∈ written.head?, isBlank d = false)
    (hbehind : written.head? = some ',' → c ≠ ')' ∧ c ≠ ':') : Follows written c where
  blank := by simp [hblank]
  comma hc := absurd hc hcomma
  adjoins d hd := by
    constructor
    case blank => simp [hblank]
    case behindBlank => simp [hend d hd]
    case comma => exact fun hc => absurd hc hcomma
    case behindComma =>
      rintro rfl
      exact hbehind hd

/-! ### Writing keeps the form -/

/-- A line as writing leaves it. -/
structure Sound (line : Line) : Prop where
  tidy : Tidy line.written
  depth : line.depth = openIn line.written
  ending : ∀ c ∈ line.written.head?, isBlank c = false
  -- a separator waits outside of parentheses only, and never at the start
  pending : line.pending → line.written ≠ [] ∧ line.depth = 0

theorem sound_empty : Sound empty := ⟨.nil, rfl, nofun, nofun⟩

theorem openIn_dropCommas (written : List Char) : openIn (dropCommas written) = openIn written := by
  induction written with
  | nil => rfl
  | cons c rest ih =>
    by_cases hc : c = ','
    · subst hc
      rw [openIn_cons_of_ne (by decide) (by decide)]
      exact ih
    · rw [dropCommas_of_head? (by simpa using hc)]

theorem head?_dropCommas (written : List Char) : (dropCommas written).head? ≠ some ',' := by
  intro h
  have hnot := List.head?_dropWhile_not (· == ',') written
  rw [dropCommas] at h
  simp [h] at hnot

/-- Without the commas at its end a text is as tidy, and no blank stood before them. -/
theorem Tidy.dropCommas (h : Tidy written) (hend : ∀ c ∈ written.head?, isBlank c = false) :
    Tidy (dropCommas written) ∧ ∀ c ∈ (Line.dropCommas written).head?, isBlank c = false := by
  induction h with
  | nil => exact ⟨.nil, nofun⟩
  | @cons c rest follows htidy ih =>
    by_cases hc : c = ','
    · subst hc
      apply ih
      intro d hd
      rw [Bool.eq_false_iff]
      intro hblank
      exact ((follows.adjoins d hd).behindBlank hblank).2.2.2 rfl
    · rw [dropCommas_of_head? (by simpa using hc)]
      exact ⟨.cons follows htidy, hend⟩

/-- Outside of parentheses no comma is written. -/
theorem Sound.head?_ne_comma {line : Line} (h : line.Sound) (hdepth : line.depth = 0) :
    line.written.head? ≠ some ',' := by
  intro hhead
  obtain ⟨rest, hwritten⟩ := List.head?_eq_some_iff.mp hhead
  have htidy := h.tidy
  rw [h.depth, hwritten, openIn_cons_of_ne (by decide) (by decide)] at hdepth
  rw [hwritten] at htidy
  cases htidy with
  | cons follows _ => exact Nat.ne_of_gt (follows.comma rfl) hdepth

/-- A character that is no separator is written behind what it may adjoin. -/
theorem Sound.of_mark {c : Char} {depth : Nat} (h : Tidy written)
    (hend : ∀ d ∈ written.head?, isBlank d = false)
    (hcomma : written.head? = some ',' → c ≠ ')' ∧ c ≠ ':') (hc : c ≠ ',')
    (hblank : isBlank c = false) (hdepth : depth = nest (openIn written) c) :
    Sound ⟨c :: written, depth, false⟩ where
  tidy := .cons (.of_adjoins hblank hc hend hcomma) h
  depth := by rw [openIn_cons, hdepth]
  ending := by simpa using hblank
  pending := nofun

/-- In parentheses a comma is written behind an argument. -/
theorem Sound.comma {line : Line} (h : line.Sound) (hdepth : 0 < line.depth)
    (hends : line.written.head? ≠ some '(' ∧ line.written.head? ≠ some ',' ∧
      line.written.head? ≠ some ':') :
    Sound { line with written := ',' :: line.written } where
  tidy := by
    refine .cons ⟨nofun, fun _ => h.depth ▸ hdepth, fun d hd => ?_⟩ h.tidy
    rw [Option.mem_def] at hd
    constructor
    case blank => exact nofun
    case behindBlank => simp [h.ending d hd]
    case comma => simpa [hd] using hends
    case behindComma =>
      rintro rfl
      exact absurd hd hends.2.1
  depth := by rw [h.depth, openIn_cons_of_ne (by decide) (by decide)]
  ending := by
    rintro _ ⟨⟩
    rfl
  pending hpending := ⟨by simp, (h.pending hpending).2⟩

/-- Outside of parentheses a word is written behind the space that is due. -/
theorem Sound.spaced {line : Line} (h : line.Sound) (hpending : line.pending)
    (hcolon : line.written.head? ≠ some ':') {c : Char} (hc : isInner c) :
    Sound ⟨c :: ' ' :: line.written, line.depth, false⟩ := by
  obtain ⟨hopening, hclosing, hcolonChar, hcomma⟩ := ne_of_isInner hc
  obtain ⟨hne, hdepth⟩ := h.pending hpending
  have hspace : Follows line.written ' ' := by
    refine ⟨fun _ => ⟨rfl, h.depth ▸ hdepth, hne⟩, nofun, fun d hd => ?_⟩
    rw [Option.mem_def] at hd
    constructor
    case blank =>
      refine fun _ => ⟨h.ending d hd, ?_⟩
      rintro rfl
      exact hcolon hd
    case behindBlank => simp [h.ending d hd]
    case comma => exact nofun
    case behindComma => exact fun _ => ⟨by decide, by decide⟩
  have hword : Follows (' ' :: line.written) c := by
    refine ⟨by simp [isBlank_of_isInner hc], fun h => absurd h hcomma, ?_⟩
    rintro _ ⟨⟩
    constructor
    case blank => simp [isBlank_of_isInner hc]
    case behindBlank => exact fun _ => ⟨hopening, hclosing, hcolonChar, hcomma⟩
    case comma => exact fun h => absurd h hcomma
    case behindComma => exact nofun
  constructor
  case tidy => exact .cons hword (.cons hspace h.tidy)
  case depth =>
    rw [openIn_cons_of_ne hopening hclosing, openIn_cons_of_ne (by decide) (by decide), h.depth]
  case ending => simpa using isBlank_of_isInner hc
  case pending => exact nofun

theorem Sound.push {line : Line} (h : line.Sound) (c : Char) : (line.push c).Sound := by
  obtain ⟨hdrop, hdropEnd⟩ := h.tidy.dropCommas h.ending
  have hdropComma : ∀ {p : Prop}, (dropCommas line.written).head? = some ',' → p :=
    fun hhead => absurd hhead (head?_dropCommas _)
  rcases class_cases c with rfl | rfl | rfl | hgap | hinner
  · refine .of_mark h.tidy h.ending (fun _ => ⟨by decide, by decide⟩) (by decide) rfl ?_
    rw [h.depth]
    rfl
  · refine .of_mark hdrop hdropEnd hdropComma (by decide) rfl ?_
    rw [openIn_dropCommas, h.depth]
    rfl
  · rw [push_colon]
    split
    · refine .of_mark hdrop hdropEnd hdropComma (by decide) rfl ?_
      rw [openIn_dropCommas, h.depth]
      rfl
    · next hdepth =>
      have hzero : line.depth = 0 := Nat.eq_zero_of_not_pos hdepth
      refine .of_mark h.tidy h.ending (fun hhead => absurd hhead (h.head?_ne_comma hzero))
        (by decide) rfl ?_
      rw [h.depth]
      rfl
  · rw [push_gap hgap]
    split
    · next hdepth =>
      split
      · exact h
      · next hends => exact h.comma hdepth (by simpa [endsWith, and_assoc] using hends)
    · next hdepth =>
      refine ⟨h.tidy, h.depth, h.ending, fun hpending => ⟨by simpa using hpending, ?_⟩⟩
      exact Nat.eq_zero_of_not_pos hdepth
  · obtain ⟨hopening, hclosing, hcolon, hcomma⟩ := ne_of_isInner hinner
    rw [push_inner hinner, separator]
    split
    · next hdue =>
      rw [Bool.and_eq_true] at hdue
      exact h.spaced hdue.1 (by simpa [endsWith] using hdue.2) hinner
    · refine .of_mark h.tidy h.ending (fun _ => ⟨hclosing, hcolon⟩) hcomma
        (isBlank_of_isInner hinner) ?_
      rw [nest, if_neg hopening, if_neg hclosing, h.depth, List.nil_append]

theorem Sound.foldl {line : Line} (h : line.Sound) (s : List Char) :
    (s.foldl Line.push line).Sound := by
  induction s generalizing line with
  | nil => exact h
  | cons c rest ih => exact ih (h.push c)

/-! ### Writing what has the form -/

/-- The line by which a tidy text is written. A space at its end is still due. -/
def ofTidy : List Char → Line
  | ' ' :: rest => ⟨rest, 0, true⟩
  | written => ⟨written, openIn written, false⟩

theorem ofTidy_of_head? (h : written.head? ≠ some ' ') :
    ofTidy written = ⟨written, openIn written, false⟩ := by
  unfold ofTidy
  split
  · exact absurd rfl h
  · rfl

/-- Behind a space stands an inner character. -/
theorem Follows.head?_ne_space {c : Char} (h : Follows written c) (hc : isInner c = false) :
    written.head? ≠ some ' ' := by
  intro hhead
  have hadjoins := h.adjoins ' ' hhead
  obtain ⟨hopening, hclosing, hcolon, hcomma⟩ := hadjoins.behindBlank (by decide)
  rcases class_cases c with rfl | rfl | rfl | hgap | hinner
  · exact hopening rfl
  · exact hclosing rfl
  · exact hcolon rfl
  · rw [isGap, Bool.or_eq_true] at hgap
    rcases hgap with hblank | hc
    · cases (hadjoins.blank hblank).1
    · exact hcomma (by simpa using hc)
  · rw [hc] at hinner
    cases hinner

theorem Follows.dropCommas_eq {c : Char} (h : Follows written c) (hc : c = ')' ∨ c = ':') :
    dropCommas written = written := by
  apply dropCommas_of_head?
  intro hhead
  obtain ⟨hclosing, hcolon⟩ := (h.adjoins ',' hhead).behindComma rfl
  exact hc.elim hclosing hcolon

theorem ofTidy_cons_of_ne {c : Char} (hc : c ≠ ' ') :
    ofTidy (c :: written) = ⟨c :: written, nest (openIn written) c, false⟩ := by
  rw [ofTidy_of_head? (by simpa using hc), openIn_cons]

/-- The next character of a tidy text is written as it stands. -/
theorem push_ofTidy {c : Char} (follows : Follows written c) (h : Tidy written) :
    (ofTidy written).push c = ofTidy (c :: written) := by
  rcases class_cases c with rfl | rfl | rfl | hgap | hinner
  · rw [ofTidy_of_head? (follows.head?_ne_space rfl), ofTidy_cons_of_ne (by decide)]
    rfl
  · rw [ofTidy_of_head? (follows.head?_ne_space rfl), ofTidy_cons_of_ne (by decide), push_closing,
      follows.dropCommas_eq (.inl rfl)]
    rfl
  · rw [ofTidy_of_head? (follows.head?_ne_space rfl), ofTidy_cons_of_ne (by decide), push_colon,
      follows.dropCommas_eq (.inr rfl), ite_self]
    rfl
  · have hspace : written.head? ≠ some ' ' := follows.head?_ne_space (by simp [isInner, hgap])
    rw [ofTidy_of_head? hspace, push_gap hgap]
    rw [isGap, Bool.or_eq_true] at hgap
    rcases hgap with hblank | hcomma
    · -- a space is not written before the word behind it
      obtain ⟨rfl, hdepth, hne⟩ := follows.blank hblank
      simp [hdepth, hne, ofTidy]
    · obtain rfl : c = ',' := by simpa using hcomma
      have hends : (endsWith '(' ⟨written, openIn written, false⟩ ||
          endsWith ',' ⟨written, openIn written, false⟩ ||
          endsWith ':' ⟨written, openIn written, false⟩) = false := by
        rw [Bool.eq_false_iff]
        intro hends
        simp only [endsWith, Bool.or_eq_true, beq_iff_eq] at hends
        rcases hends with (hhead | hhead) | hhead
        · exact ((follows.adjoins _ hhead).comma rfl).1 rfl
        · exact ((follows.adjoins _ hhead).comma rfl).2.1 rfl
        · exact ((follows.adjoins _ hhead).comma rfl).2.2 rfl
      rw [if_pos (follows.comma rfl), hends, if_neg (by decide), ofTidy_cons_of_ne (by decide)]
      rfl
  · obtain ⟨hopening, hclosing, -, -⟩ := ne_of_isInner hinner
    have hspace : c ≠ ' ' := by
      rintro rfl
      cases hinner
    rw [ofTidy_cons_of_ne hspace, nest, if_neg hopening, if_neg hclosing, push_inner hinner]
    by_cases hhead : written.head? = some ' '
    · -- the space that is still due stands there already
      obtain ⟨rest, rfl⟩ := List.head?_eq_some_iff.mp hhead
      cases h with
      | cons before _ =>
        have hcolon : rest.head? ≠ some ':' := fun hend =>
          ((before.adjoins _ hend).blank (by decide)).2 rfl
        obtain ⟨-, hdepth, -⟩ := before.blank (by decide)
        rw [openIn_cons_of_ne (by decide) (by decide), hdepth]
        simp [ofTidy, separator, endsWith, hcolon]
    · rw [ofTidy_of_head? hhead]
      rfl

theorem foldl_push_reverse (h : Tidy written) :
    written.reverse.foldl push empty = ofTidy written := by
  induction h with
  | nil => rfl
  | cons follows h ih =>
    rw [List.reverse_cons, List.foldl_append, ih, List.foldl_cons, List.foldl_nil,
      push_ofTidy follows h]

end Line

/-! ### Flat documents -/

theorem sound_foldl (s : List Char) : (s.foldl Line.push .empty).Sound := Line.sound_empty.foldl s

/-- No blank stands at the ends of what is written. -/
theorem trim_written {line : Line} (h : line.Sound) :
    trim line.written.reverse = line.written.reverse := by
  have hcanonical := h.tidy.canonical h.ending
  exact trim_eq_self_iff.mpr ⟨hcanonical.start, hcanonical.ending⟩

theorem body_brace (s : List Char) : body ('\x7b' :: s) = s := rfl

/-- A flat document has the form of a flat line, and flattening what is left of it without its marks
gives it back. -/
theorem flatten_canonical (raw : List Char) :
    Canonical (flatten raw) ∧ flatten ('\x7b' :: unmark (flatten raw)) = flatten raw := by
  constructor
  · have hsound := sound_foldl ((body raw).flatMap markBrace)
    rw [flatten, trim_written hsound]
    exact hsound.tidy.canonical hsound.ending
  · -- the plain line is written once more as it stands
    have hsound := sound_foldl (body raw)
    have hspace : (((body raw).foldl Line.push .empty).written).head? ≠ some ' ' := by
      intro hhead
      cases hsound.ending ' ' hhead
    have hplain : plain ('\x7b' :: plain raw) = plain raw := by
      rw [plain, body_brace, plain, Line.foldl_push_reverse hsound.tidy,
        Line.ofTidy_of_head? hspace]
    have htrim : trim (plain raw) = plain raw := trim_written hsound
    rw [unmark_flatten, htrim, flatten_eq_flatMap, flatten_eq_flatMap, hplain]

end NestedQuery.Document
