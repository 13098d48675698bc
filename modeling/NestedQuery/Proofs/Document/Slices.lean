import Mathlib.Data.Nat.PSub
import NestedQuery.Document.Heading
import NestedQuery.Document.Token
import NestedQuery.Proofs.Text.Slice
import NestedQuery.Select.Argument

/-!
# Texts cut by their bytes

Tokens, the parts of a heading and the inside of quotes are slices of a text, which a program takes by
the bytes that it counted or searched for. The strict form of a function below goes by bytes too, and
has no result where a slice is not one. It always has the result of the function: the scanner counts
whole characters, what is searched for is one byte wide, and so are the quotes.
-/

namespace NestedQuery

open Text Utf8

/-! ### Tokens -/

namespace Token

open Document

/-- The word from the byte `first` up to the byte `last`, if one was begun. -/
def strictWord? (text : List Char) (first : Option Nat) (last : Nat) : Option (List Token) :=
  match first with
  | none => some []
  | some first => (slice? text first last).map fun w => [.word w]

/-- The tokens of a text from the byte `place` on; a word was perhaps begun at the byte `first`. -/
def strictScanFrom? (text : List Char) (first : Option Nat) (place : Nat) : Option (List Token) :=
  if place < size text then
    match slice? text place (size text) with
    | none => none
    | some rest =>
      if openingMark.isPrefixOf rest then do
        let word ← strictWord? text first place
        return word ++ .opening :: (← strictScanFrom? text none (place + size openingMark))
      else if closingMark.isPrefixOf rest then do
        let word ← strictWord? text first place
        return word ++ .closing :: (← strictScanFrom? text none (place + size closingMark))
      else
        match rest with
        | [] => strictWord? text first (size text)
        | c :: _ =>
          if isBlank c then do
            let word ← strictWord? text first place
            return word ++ (← strictScanFrom? text none (place + width c))
          else strictScanFrom? text (first.or (some place)) (place + width c)
  else strictWord? text first (size text)
termination_by size text - place
decreasing_by
  all_goals
    have hopening : 0 < size openingMark := by decide
    have hclosing : 0 < size closingMark := by decide
    first
      | omega
      | have hc := width_pos c
        omega

def strictScan? (text : List Char) : Option (List Token) := strictScanFrom? text none 0

/-- The characters in `read`, the last one first, are the word that was begun at the byte `first` and
goes on behind `before`. -/
inductive Begun (before : List Char) : List Char → Option Nat → Prop where
  | nothing : Begun before [] none
  | word {outside read : List Char} (ne : read ≠ []) (eq : before = outside ++ read.reverse) :
      Begun before read (some (size outside))

theorem Begun.push {before read : List Char} {first : Option Nat} (h : Begun before read first)
    (c : Char) : Begun (before ++ [c]) (c :: read) (first.or (some (size before))) := by
  cases h with
  | nothing => exact .word (List.cons_ne_nil _ _) rfl
  | @word outside _ ne eq => exact .word (List.cons_ne_nil _ _) (by simp [eq])

theorem Begun.strictWord?_eq {before read : List Char} {first : Option Nat}
    (h : Begun before read first) (behind : List Char) :
    strictWord? (before ++ behind) first (size before) = some (ofRead read) := by
  cases h with
  | nothing => rfl
  | @word outside _ ne eq =>
    have hslice : slice? (before ++ behind) (size outside) (size before) = some read.reverse := by
      rw [eq, List.append_assoc, size_append]
      exact slice?_append outside read.reverse behind
    rw [strictWord?, hslice, ofRead, if_neg (by simpa using ne)]
    rfl

theorem eq_append_of_isPrefixOf {mark rest : List Char} {c : Char} (hne : mark ≠ [])
    (h : mark.isPrefixOf (c :: rest)) : c :: rest = mark ++ rest.drop (mark.length - 1) := by
  obtain ⟨behind, hbehind⟩ := List.isPrefixOf_iff_prefix.mp h
  cases mark with
  | nil => exact absurd rfl hne
  | cons d mark =>
    obtain ⟨rfl, rfl⟩ := List.cons.inj hbehind
    simp

theorem strictScanFrom?_eq (before : List Char) {read : List Char} {first : Option Nat}
    (h : Begun before read first) (rest : List Char) :
    strictScanFrom? (before ++ rest) first (size before) = some (scanFrom read rest) := by
  fun_induction scanFrom read rest generalizing before first with
  | case1 read =>
    rw [strictScanFrom?, if_neg (by simp), List.append_nil]
    have hword := h.strictWord?_eq []
    rwa [List.append_nil] at hword
  | case2 read c rest hmark ih =>
    -- a mark ends the word before it, and behind it no word is begun
    have hword := h.strictWord?_eq (c :: rest)
    have hbehind := ih (before ++ openingMark) .nothing
    rw [List.append_assoc, ← eq_append_of_isPrefixOf (by decide) hmark, size_append] at hbehind
    rw [strictScanFrom?, if_pos (lt_size before c rest), slice?_suffix]
    simp only [hmark, ↓reduceIte, hword, hbehind]
    rfl
  | case3 read c rest hopening hmark ih =>
    have hword := h.strictWord?_eq (c :: rest)
    have hbehind := ih (before ++ closingMark) .nothing
    rw [List.append_assoc, ← eq_append_of_isPrefixOf (by decide) hmark, size_append] at hbehind
    rw [strictScanFrom?, if_pos (lt_size before c rest), slice?_suffix]
    simp only [hopening, Bool.false_eq_true, hmark, ↓reduceIte, hword, hbehind]
    rfl
  | case4 read c rest hopening hclosing hblank ih =>
    have hword := h.strictWord?_eq (c :: rest)
    have hbehind := ih (before ++ [c]) .nothing
    rw [List.append_assoc, List.singleton_append, size_append, size_cons, size_nil,
      Nat.add_zero] at hbehind
    rw [strictScanFrom?, if_pos (lt_size before c rest), slice?_suffix]
    simp only [hopening, hclosing, Bool.false_eq_true, hblank, ↓reduceIte, hword, hbehind]
    rfl
  | case5 read c rest hopening hclosing hblank ih =>
    -- the character begins a word or goes on with one
    have hbehind := ih (before ++ [c]) (h.push c)
    rw [List.append_assoc, List.singleton_append, size_append, size_cons, size_nil,
      Nat.add_zero] at hbehind
    rw [strictScanFrom?, if_pos (lt_size before c rest), slice?_suffix]
    simp only [hopening, hclosing, Bool.false_eq_true, hblank, ↓reduceIte, hbehind]

theorem strictScan?_eq (text : List Char) : strictScan? text = some (scan text) :=
  strictScanFrom?_eq [] .nothing text

end Token

/-! ### Headings -/

namespace Text

/-- The byte at which a character stands first. -/
def firstByte? (c : Char) (s : List Char) : Option Nat :=
  (cutFirst c s).map fun (before, _) => size before

/-- The byte at which a character stands last. -/
def lastByte? (c : Char) (s : List Char) : Option Nat :=
  (cutLast c s).map fun (before, _) => size before

end Text

namespace Heading

def strictOfWord? (w : List Char) : Option Heading :=
  match firstByte? '(' w with
  | none => some (ofTitle w .empty)
  | some opened => do
    -- what closes stands behind what opens; otherwise the arguments reach to the end
    let closed := ((lastByte? ')' w).filter (opened < ·)).getD (size w)
    let before ← slice? w 0 opened
    let inside ← slice? w (opened + 1) closed
    -- behind the end there is no slice, and nothing is taken
    let behind := (slice? w (closed + 1) (size w)).getD []
    return ofTitle (before ++ behind) (.ofText inside)

/-- A parenthesis that closes does not count if it stands before the one that opens. -/
theorem filter_lastByte?_eq_none (before : List Char) {rest : List Char} (h : ')' ∉ rest) :
    (lastByte? ')' (before ++ '(' :: rest)).filter (size before < ·) = none := by
  rw [Option.filter_eq_none_iff, lastByte?]
  intro place hplace
  obtain ⟨⟨outside, behind⟩, hlast, rfl⟩ := Option.map_eq_some_iff.mp hplace
  obtain ⟨heq, -⟩ := cutLast_eq_some hlast
  rw [decide_eq_true_eq, Nat.not_lt]
  rcases List.append_eq_append_iff.mp heq with ⟨between, hbetween, hrest⟩ | ⟨between, hbetween, -⟩
  · -- behind what opens there is nothing that closes
    cases between with
    | nil => cases hrest
    | cons c between =>
      obtain ⟨-, rfl⟩ := List.cons.inj hrest
      exact absurd (List.mem_append_right between List.mem_cons_self) h
  · rw [hbetween, size_append]
    exact Nat.le_add_right _ _

theorem strictOfWord?_eq (w : List Char) : strictOfWord? w = some (ofWord w) := by
  rw [strictOfWord?, ofWord, firstByte?]
  cases hfirst : cutFirst '(' w with
  | none => rfl
  | some parts =>
    obtain ⟨before, rest⟩ := parts
    obtain ⟨rfl, -⟩ := cutFirst_eq_some hfirst
    have hbefore : slice? (before ++ '(' :: rest) 0 (size before) = some before :=
      slice?_prefix before _
    have hopened : size (before ++ ['(']) = size before + 1 := size_append _ _
    cases hlast : cutLast ')' rest with
    | some parts =>
      obtain ⟨inside, behind⟩ := parts
      obtain ⟨rfl, hnot⟩ := cutLast_eq_some hlast
      have hclosed : lastByte? ')' (before ++ '(' :: (inside ++ ')' :: behind)) =
          some (size (before ++ '(' :: inside)) := by
        have hcut := cutLast_append (before ++ '(' :: inside) hnot
        rw [List.append_assoc, List.cons_append] at hcut
        rw [lastByte?, hcut]
        rfl
      have hbehindOpened : size before < size (before ++ '(' :: inside) := lt_size before '(' inside
      have hinside : slice? (before ++ '(' :: (inside ++ ')' :: behind)) (size before + 1)
          (size (before ++ '(' :: inside)) = some inside :=
        slice?_eq_some_iff.mpr ⟨before ++ ['('], ')' :: behind, by simp, hopened, by simp⟩
      have hbehind : slice? (before ++ '(' :: (inside ++ ')' :: behind))
          (size (before ++ '(' :: inside) + 1) (size (before ++ '(' :: (inside ++ ')' :: behind))) =
            some behind :=
        slice?_eq_some_iff.mpr
          ⟨before ++ '(' :: inside ++ [')'], [], by simp, size_append _ _, by simp⟩
      simp only [Option.map_some, hbefore, hclosed, Option.filter, hbehindOpened, decide_true,
        ↓reduceIte, Option.getD_some, hinside, hbehind, hlast]
      rfl
    | none =>
      have hclosed := filter_lastByte?_eq_none before (cutLast_eq_none_iff.mp hlast)
      have hinside : slice? (before ++ '(' :: rest) (size before + 1) (size (before ++ '(' :: rest)) =
          some rest :=
        slice?_eq_some_iff.mpr ⟨before ++ ['('], [], by simp, hopened, by simp⟩
      have hbehind : slice? (before ++ '(' :: rest) (size (before ++ '(' :: rest) + 1)
          (size (before ++ '(' :: rest)) = none :=
        slice?_eq_none_of_lt (Nat.lt_succ_self _)
      simp only [Option.map_some, hbefore, hclosed, Option.getD_none, hinside, hbehind, hlast,
        List.append_nil]
      rfl

end Heading

/-! ### Quotes -/

namespace Argument

/-- Whether a quote stands at both ends of a text that is at least two bytes long. -/
def isBetween (s : List Char) (quote : Char) : Bool :=
  2 ≤ size s && s.head? == some quote && s.getLast? == some quote

/-- The text without a pair of quotes, which are taken off by their bytes. -/
def strictUnquote? (s : List Char) : Option (List Char) :=
  if ['\'', '"'].any (isBetween s) then (size s).ppred.bind (slice? s 1) else some s

theorem width_of_quote {q : Char} (h : q = '\'' ∨ q = '"') : width q = 1 := by
  rcases h with rfl | rfl
  · rfl
  · rfl

theorem any_isBetween_iff {q : Char} {rest : List Char} :
    ['\'', '"'].any (isBetween (q :: rest)) ↔
      (q = '\'' ∨ q = '"') ∧ rest.getLast? = some q := by
  have hany : ['\'', '"'].any (isBetween (q :: rest)) ↔
      (q = '\'' ∨ q = '"') ∧ 2 ≤ size (q :: rest) ∧ (q :: rest).getLast? = some q := by
    simp only [isBetween, List.any_cons, List.any_nil, Bool.or_false, Bool.or_eq_true,
      Bool.and_eq_true, decide_eq_true_eq, beq_iff_eq, List.head?_cons, Option.some.injEq]
    constructor
    · rintro (⟨⟨hsize, rfl⟩, hlast⟩ | ⟨⟨hsize, rfl⟩, hlast⟩)
      · exact ⟨.inl rfl, hsize, hlast⟩
      · exact ⟨.inr rfl, hsize, hlast⟩
    · rintro ⟨rfl | rfl, hsize, hlast⟩
      · exact .inl ⟨⟨hsize, rfl⟩, hlast⟩
      · exact .inr ⟨⟨hsize, rfl⟩, hlast⟩
  rw [hany]
  refine and_congr_right fun hquote => ?_
  rw [size_cons, width_of_quote hquote]
  cases rest with
  | nil => simp
  | cons c rest =>
    have hc := width_pos c
    rw [List.getLast?_cons_cons, size_cons]
    exact and_iff_right (by omega)

theorem strictUnquote?_eq (s : List Char) : strictUnquote? s = some (unquote s) := by
  cases s with
  | nil => rfl
  | cons q rest =>
    rw [strictUnquote?, unquote]
    by_cases h : (q = '\'' ∨ q = '"') ∧ rest.getLast? = some q
    · obtain ⟨inside, hinside⟩ := List.getLast?_eq_some_iff.mp h.2
      have hwidth := width_of_quote h.1
      have hsize : size (q :: rest) = size (q :: inside) + 1 := by
        rw [hinside, size_cons, size_cons, size_append, size_cons, hwidth]
        rfl
      have hslice : slice? (q :: rest) 1 (size (q :: inside)) = some inside :=
        slice?_eq_some_iff.mpr
          ⟨[q], [q], by rw [hinside]; rfl, by rw [size_cons, hwidth]; rfl, rfl⟩
      rw [if_pos (any_isBetween_iff.mpr h), if_pos h, hsize, hinside, List.dropLast_concat,
        ← hinside]
      exact hslice
    · rw [if_neg (any_isBetween_iff.not.mpr h), if_neg h]

def strictDecode? (raw : List Char) : Option (List Char) := strictUnquote? (trim (Percent.decode raw))

theorem strictDecode?_eq (raw : List Char) : strictDecode? raw = some (decode raw) :=
  strictUnquote?_eq _

end Argument

end NestedQuery
