import NestedQuery.Text.Cut
import NestedQuery.Text.Numeral
import NestedQuery.Value

/-!
# Lexemes of query text

Query text is read by the lexical rules of SQL: words, numbers, text between single quotes in which
two quotes stand for one, bytes in hexadecimal digits behind an `X`, and single marks. Whatever
value is written as a literal is read back as that one literal, and reading goes on right behind it
(`Value.scansTo_literal`).
-/

namespace NestedQuery

inductive Lexeme where
  | word (w : String)
  | number (digits : String)
  | text (content : String)
  | bytes (b : List UInt8)
  | mark (c : Char)
  -- the rest of a text in which a literal is not closed or not well formed
  | broken (rest : List Char)
  deriving DecidableEq, Repr

namespace Lexeme

open Text

def isWordStart (c : Char) : Bool := c.isAlpha || c == '_'

def isWordChar (c : Char) : Bool := c.isAlphanum || c == '_'

/-- The characters of a number, or of something that only begins like one. -/
def isNumberChar (c : Char) : Bool := isWordChar c || c == '.'

/-- A letter or an underscore, and then letters, digits and underscores. -/
def isName (s : String) : Bool :=
  match s.toList with
  | [] => false
  | c :: rest => isWordStart c && rest.all isWordChar

/-- The content of a text literal behind its first quote, and what follows its last quote. -/
def untilQuote : List Char → Option (List Char × List Char)
  | [] => none
  | [c] => if c = '\'' then some ([], []) else none
  | c :: d :: rest =>
    if c = '\'' then
      if d = '\'' then (untilQuote rest).map fun (content, behind) => ('\'' :: content, behind)
      else some ([], d :: rest)
    else (untilQuote (d :: rest)).map fun (content, behind) => (c :: content, behind)

theorem length_untilQuote_le {s content behind : List Char}
    (h : untilQuote s = some (content, behind)) : behind.length ≤ s.length := by
  fun_induction untilQuote s generalizing content with
  | case1 => cases h
  | case2 => cases h; exact Nat.zero_le _
  | case3 => cases h
  | case4 rest ih =>
    obtain ⟨⟨content', behind'⟩, hrest, heq⟩ := Option.map_eq_some_iff.mp h
    cases heq
    exact Nat.le_succ_of_le (Nat.le_succ_of_le (ih hrest))
  | case5 d rest _ => cases h; exact Nat.le_succ _
  | case6 c d rest _ ih =>
    obtain ⟨⟨content', behind'⟩, hrest, heq⟩ := Option.map_eq_some_iff.mp h
    cases heq
    exact Nat.le_succ_of_le (ih hrest)

/-- The first lexeme of a text that begins with `c`, if that is no blank, and what follows it. -/
def next (c : Char) (rest : List Char) : Option Lexeme × List Char :=
  if c.isWhitespace then (none, rest)
  else if c = '\'' then
    match untilQuote rest with
    | some (content, behind) => (some (.text (.ofList content)), behind)
    | none => (some (.broken (c :: rest)), [])
  else if (c = 'X' ∨ c = 'x') ∧ rest.head? = some '\'' then
    match cutFirst '\'' (rest.drop 1) with
    | some (digits, behind) =>
      match bytesOfHex? digits with
      | some b => (some (.bytes b), behind)
      | none => (some (.broken (c :: rest)), [])
    | none => (some (.broken (c :: rest)), [])
  else if isWordStart c then
    (some (.word (.ofList (c :: rest.takeWhile isWordChar))), rest.dropWhile isWordChar)
  else if c.isDigit then
    (some (.number (.ofList (c :: rest.takeWhile isNumberChar))), rest.dropWhile isNumberChar)
  else (some (.mark c), rest)

theorem length_next_le (c : Char) (rest : List Char) :
    (next c rest).2.length ≤ rest.length := by
  unfold next
  split
  · exact Nat.le_refl _
  split
  · split
    · next content behind h => exact length_untilQuote_le h
    · exact Nat.zero_le _
  split
  · split
    · next digits behind h =>
      have hcut := congrArg List.length (cutFirst_eq_some h).1
      rw [List.length_append, List.length_cons, List.length_drop] at hcut
      split <;> simp only [List.length_nil] <;> omega
    · exact Nat.zero_le _
  split
  · exact (List.dropWhile_sublist _).length_le
  split
  · exact (List.dropWhile_sublist _).length_le
  · exact Nat.le_refl _

def scan : List Char → List Lexeme
  | [] => []
  | c :: rest => (next c rest).1.toList ++ scan (next c rest).2
termination_by s => s.length
decreasing_by exact Nat.lt_succ_of_le (length_next_le c rest)

/-! ### Texts that are read on their own -/

/-- A character that no word, number or literal goes on with. -/
def isBreak (c : Char) : Bool := !isNumberChar c && c != '\''

/-- The text begins with a break, or is empty. -/
def Breaks (s : List Char) : Prop := ∀ c ∈ s.head?, isBreak c

/-- The text is read as the lexemes if a break follows it. -/
def ScansTo (s : List Char) (lexemes : List Lexeme) : Prop :=
  ∀ rest, Breaks rest → scan (s ++ rest) = lexemes ++ scan rest

/-- The text is read as the lexemes whatever follows it. -/
def ClosesTo (s : List Char) (lexemes : List Lexeme) : Prop :=
  ∀ rest, scan (s ++ rest) = lexemes ++ scan rest

variable {s t : List Char} {ls ms : List Lexeme}

theorem breaks_cons {c : Char} (h : isBreak c) : Breaks (c :: s) := by
  intro d hd
  cases hd
  exact h

theorem Breaks.append (hs : Breaks s) (ht : Breaks t) : Breaks (s ++ t) := by
  cases s with
  | nil => exact ht
  | cons c s => exact hs

theorem ClosesTo.scansTo (h : ClosesTo s ls) : ScansTo s ls := fun rest _ => h rest

theorem ScansTo.nil : ScansTo [] [] := fun _ _ => rfl

/-- Behind a text that needs a break stands one that begins with a break. -/
theorem ScansTo.append (hs : ScansTo s ls) (ht : ScansTo t ms) (hbreak : Breaks t) :
    ScansTo (s ++ t) (ls ++ ms) := by
  intro rest hrest
  rw [List.append_assoc, hs _ (hbreak.append hrest), ht rest hrest, List.append_assoc]

theorem ScansTo.append_closesTo (hs : ScansTo s ls) (ht : ClosesTo t ms) (hbreak : Breaks t)
    (hne : t ≠ []) : ClosesTo (s ++ t) (ls ++ ms) := by
  intro rest
  have hbreaks : Breaks (t ++ rest) := by
    cases t with
    | nil => exact absurd rfl hne
    | cons c t => exact hbreak
  rw [List.append_assoc, hs _ hbreaks, ht rest, List.append_assoc]

theorem ClosesTo.append_scansTo (hs : ClosesTo s ls) (ht : ScansTo t ms) :
    ScansTo (s ++ t) (ls ++ ms) := by
  intro rest hrest
  rw [List.append_assoc, hs, ht rest hrest, List.append_assoc]

theorem ClosesTo.append (hs : ClosesTo s ls) (ht : ClosesTo t ms) :
    ClosesTo (s ++ t) (ls ++ ms) := by
  intro rest
  rw [List.append_assoc, hs, ht, List.append_assoc]

theorem ScansTo.scan_eq (h : ScansTo s ls) : scan s = ls := by
  simpa [scan] using h [] (fun _ hc => nomatch hc)

/-! ### Blanks, marks and words -/

theorem closesTo_space : ClosesTo [' '] [] := by
  intro rest
  rw [List.cons_append, scan]
  rfl

theorem closesTo_mark {c : Char} (hblank : c.isWhitespace = false) (hquote : c ≠ '\'')
    (hword : isWordStart c = false) (hdigit : c.isDigit = false) : ClosesTo [c] [.mark c] := by
  intro rest
  have hx : ¬(c = 'X' ∨ c = 'x') := by
    rintro (rfl | rfl) <;> cases hword
  have hnext : next c rest = (some (.mark c), rest) := by
    simp [next, hblank, hquote, hx, hword, hdigit]
  rw [List.singleton_append, scan, hnext]
  rfl

theorem span_append {p : Char → Bool} (hs : ∀ c ∈ s, p c) (ht : ∀ c ∈ t.head?, p c = false) :
    (s ++ t).takeWhile p = s ∧ (s ++ t).dropWhile p = t := by
  rw [List.takeWhile_append_of_pos hs, List.dropWhile_append_of_pos hs]
  cases t with
  | nil => simp
  | cons c t =>
    have hc : p c = false := ht c rfl
    simp [hc]

theorem isWordChar_eq_false_of_isBreak {c : Char} (h : isBreak c) : isWordChar c = false := by
  simp only [isBreak, isNumberChar, Bool.and_eq_true, Bool.not_eq_true', Bool.or_eq_false_iff] at h
  exact h.1.1

theorem isNumberChar_eq_false_of_isBreak {c : Char} (h : isBreak c) :
    isNumberChar c = false := by
  simp only [isBreak, Bool.and_eq_true, Bool.not_eq_true'] at h
  exact h.1

theorem not_isBreak_quote : ¬isBreak '\'' := by decide

theorem isWhitespace_eq_false_of_isWordStart {c : Char} (h : isWordStart c) :
    c.isWhitespace = false := by
  cases hblank : c.isWhitespace with
  | false => rfl
  | true =>
    simp only [Char.isWhitespace, Bool.or_eq_true, decide_eq_true_eq] at hblank
    rcases hblank with ((rfl | rfl) | rfl) | rfl <;> cases h

/-- The longest word is read, so a break has to follow it. -/
theorem scansTo_word (w : String) (h : isName w) : ScansTo w.toList [.word w] := by
  intro rest hrest
  cases hw : w.toList with
  | nil => simp [isName, hw] at h
  | cons c cs =>
    simp only [isName, hw, Bool.and_eq_true, List.all_eq_true] at h
    obtain ⟨hc, hcs⟩ := h
    have hquote : c ≠ '\'' := by
      rintro rfl
      cases hc
    -- an `X` in front of a quote would begin a literal of bytes
    have hhead : (cs ++ rest).head? ≠ some '\'' := by
      intro hhead
      cases cs with
      | nil => exact not_isBreak_quote (hrest _ hhead)
      | cons d cs =>
        have hd : d = '\'' := Option.some.inj hhead
        have hword := hcs d List.mem_cons_self
        subst hd
        cases hword
    obtain ⟨htake, hdrop⟩ := span_append hcs fun d hd => isWordChar_eq_false_of_isBreak (hrest d hd)
    have hnext : next c (cs ++ rest) = (some (.word w), rest) := by
      rw [next, if_neg (by simp [isWhitespace_eq_false_of_isWordStart hc]), if_neg hquote,
        if_neg (fun hx => hhead hx.2), if_pos hc, htake, hdrop, ← hw, String.ofList_toList]
    rw [List.cons_append, scan, hnext]
    rfl

theorem closesTo_spaced (w : String) (h : isName w) :
    ClosesTo (' ' :: (w.toList ++ [' '])) [.word w] :=
  closesTo_space.append <|
    (scansTo_word w h).append_closesTo closesTo_space (breaks_cons (by decide)) (by simp)

/-! ### Literals -/

/-- What begins a number begins nothing else. -/
theorem of_isDigit {c : Char} (h : c.isDigit) :
    c.isWhitespace = false ∧ c ≠ '\'' ∧ ¬(c = 'X' ∨ c = 'x') ∧ isWordStart c = false := by
  -- a digit is one of the first characters, which are gone through
  have hlt : c.toNat < 58 := by
    simp only [Char.isDigit, Bool.and_eq_true, decide_eq_true_eq] at h
    exact Nat.lt_succ_of_le (UInt32.le_iff_toNat_le.mp h.2)
  have hall : ∀ n < 58, (Char.ofNat n).isDigit →
      (Char.ofNat n).isWhitespace = false ∧ Char.ofNat n ≠ '\'' ∧
        ¬(Char.ofNat n = 'X' ∨ Char.ofNat n = 'x') ∧ isWordStart (Char.ofNat n) = false := by
    decide
  simpa [Char.ofNat_toNat] using hall c.toNat hlt (by rwa [Char.ofNat_toNat])

theorem scansTo_number (n : Nat) : ScansTo (toString n).toList [.number (toString n)] := by
  intro rest hrest
  have hdigits : ∀ c ∈ (toString n).toList, c.isDigit := by
    intro c hc
    rw [Nat.toString_eq_ofList_toDigits, String.toList_ofList] at hc
    exact Nat.isDigit_of_mem_toDigits (by decide) (by decide) hc
  cases hn : (toString n).toList with
  | nil =>
    rw [Nat.toString_eq_ofList_toDigits, String.toList_ofList] at hn
    exact absurd hn Nat.toDigits_ne_nil
  | cons c cs =>
    rw [hn] at hdigits
    have hc : c.isDigit := hdigits c List.mem_cons_self
    have hnumber : ∀ d ∈ cs, isNumberChar d := by
      intro d hd
      simp [isNumberChar, isWordChar, Char.isAlphanum, hdigits d (List.mem_cons_of_mem _ hd)]
    obtain ⟨hblank, hquote, hx, hword⟩ := of_isDigit hc
    obtain ⟨htake, hdrop⟩ :=
      span_append hnumber fun d hd => isNumberChar_eq_false_of_isBreak (hrest d hd)
    have hnext : next c (cs ++ rest) = (some (.number (toString n)), rest) := by
      rw [next, if_neg (by simp [hblank]), if_neg hquote, if_neg (fun h => hx h.1),
        if_neg (by simp [hword]), if_pos hc, htake, hdrop, ← hn, String.ofList_toList]
    rw [List.cons_append, scan, hnext]
    rfl

/-- The content ends at the first quote that is not one of two. -/
theorem untilQuote_append (content : List Char) {rest : List Char}
    (h : rest.head? ≠ some '\'') :
    untilQuote ((content.flatMap fun c => if c = '\'' then ['\'', '\''] else [c]) ++
      '\'' :: rest) = some (content, rest) := by
  induction content with
  | nil =>
    cases rest with
    | nil => rfl
    | cons d rest =>
      have hd : d ≠ '\'' := fun hd => h (by rw [hd]; rfl)
      simp [untilQuote, hd]
  | cons c content ih =>
    by_cases hc : c = '\''
    · -- two quotes are read as one
      simp [hc, untilQuote, ih]
    · rw [List.flatMap_cons, if_neg hc, List.append_assoc, List.singleton_append]
      generalize hbehind : (content.flatMap fun c => if c = '\'' then ['\'', '\''] else [c]) ++
        '\'' :: rest = behind at ih ⊢
      cases behind with
      | nil => simp at hbehind
      | cons d behind => simp [untilQuote, hc, ih]

/-- A quoted text is one literal, whatever characters are in it. -/
theorem scansTo_quote (content : String) :
    ScansTo (Value.quote content).toList [.text content] := by
  intro rest hrest
  have hhead : rest.head? ≠ some '\'' := fun h => not_isBreak_quote (hrest _ h)
  have hnext :
      next '\'' ((content.toList.flatMap fun c => if c = '\'' then ['\'', '\''] else [c]) ++
        '\'' :: rest) = (some (.text content), rest) := by
    rw [next, if_neg (by decide), if_pos rfl, untilQuote_append _ hhead]
    simp only [String.ofList_toList]
  rw [Value.quote, String.toList_ofList, List.cons_append, List.cons_append, List.append_assoc,
    List.singleton_append, scan, hnext]
  rfl

theorem digitValue?_hexDigit : ∀ n < 16, digitValue? 16 (hexDigit n) = some n := by decide

theorem hexDigit_ne_quote : ∀ n < 16, hexDigit n ≠ '\'' := by decide

theorem bytesOfHex?_hexOfBytes (b : List UInt8) : bytesOfHex? (hexOfBytes b) = some b := by
  induction b with
  | nil => rfl
  | cons byte b ih =>
    have hlt : byte.toNat < 256 := byte.toNat_lt
    have hvalue : byte.toNat / 16 * 16 + byte.toNat % 16 = byte.toNat := by omega
    simp only [hexOfBytes] at ih
    simp only [hexOfBytes, List.flatMap_cons, List.cons_append, List.nil_append, bytesOfHex?,
      digitValue?_hexDigit _ (show byte.toNat / 16 < 16 by omega),
      digitValue?_hexDigit _ (show byte.toNat % 16 < 16 by omega), ih, Option.bind_eq_bind,
      Option.bind_some, Option.pure_def, hvalue, UInt8.ofNat_toNat]

theorem scansTo_bytes (b : List UInt8) :
    ScansTo ("X'" ++ String.ofList (hexOfBytes b) ++ "'").toList [.bytes b] := by
  intro rest hrest
  have hquote : '\'' ∉ hexOfBytes b := by
    intro hmem
    obtain ⟨byte, _, hdigit⟩ := List.mem_flatMap.mp hmem
    have hlt : byte.toNat < 256 := byte.toNat_lt
    simp only [List.mem_cons, List.not_mem_nil, or_false] at hdigit
    rcases hdigit with h | h
    · exact hexDigit_ne_quote _ (by omega) h.symm
    · exact hexDigit_ne_quote _ (by omega) h.symm
  have hnext : next 'X' ('\'' :: (hexOfBytes b ++ '\'' :: rest)) = (some (.bytes b), rest) := by
    rw [next, if_neg (by decide), if_neg (by decide), if_pos ⟨.inl rfl, rfl⟩, List.drop_one,
      List.tail_cons, cutFirst_append hquote]
    simp only [bytesOfHex?_hexOfBytes]
  have htext : ("X'" ++ String.ofList (hexOfBytes b) ++ "'").toList ++ rest =
      'X' :: '\'' :: (hexOfBytes b ++ '\'' :: rest) := by
    simp [String.toList_append]
  rw [htext, scan, hnext]
  rfl

end Lexeme

end NestedQuery
