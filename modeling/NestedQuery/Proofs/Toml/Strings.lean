import Mathlib.Data.List.Basic
import NestedQuery.Toml.Printer
import NestedQuery.Toml.Scalar

/-!
# TOML strings

Whatever form a string is written in, it is read back, unless a quote follows it
(`Toml.string_writeString`).
-/

namespace NestedQuery.Toml

open Text

/-! ### Characters -/

theorem isPrinted_iff {c : Char} : isPrinted c = true ↔ ¬ (c.toNat < 0x20 ∨ c.toNat = 0x7F) := by
  simp only [isPrinted, Bool.or_eq_true, Bool.and_eq_true, decide_eq_true_eq]
  omega

/-- A character that needs no escape may stand between quotes, but for a line end. -/
theorem isCommentChar_of_needsEscape {c : Char} (h : needsEscape c = false) (hline : c ≠ '\n') :
    isCommentChar c = true := by
  by_cases htab : c = '\t'
  · simp [isCommentChar, htab]
  · have hprinted : isPrinted c = true := by
      rw [isPrinted_iff]
      simpa [needsEscape, htab, hline] using h
    simp [isCommentChar, hprinted]

/-- The last two digits are enough for the number of a character of ASCII. -/
theorem charOfDigits?_hex {n : Nat} (h : n < 0x80) :
    charOfDigits? ['0', '0', hexDigitUpper (n / 16), hexDigitUpper (n % 16)] =
      some (Char.ofNat n) := by
  revert n
  decide +kernel

/-- A character is written as it is or as an escape. -/
theorem escaped_cases (c : Char) :
    (escaped c = [c] ∧ isCommentChar c = true ∧ c ≠ '\\') ∨
    ∃ e, escaped c = '\\' :: e ∧
      ∀ rest, escape (e ++ rest) = some (c, rest) ∧ continued? (e ++ rest) = none := by
  unfold escaped
  split
  · exact .inr ⟨_, rfl, fun rest => ⟨rfl, rfl⟩⟩
  · exact .inr ⟨_, rfl, fun rest => ⟨rfl, rfl⟩⟩
  · exact .inr ⟨_, rfl, fun rest => ⟨rfl, rfl⟩⟩
  · exact .inr ⟨_, rfl, fun rest => ⟨rfl, rfl⟩⟩
  · exact .inr ⟨_, rfl, fun rest => ⟨rfl, rfl⟩⟩
  · next hbackslash =>
    split
    · next hcontrol =>
      refine .inr ⟨_, rfl, fun rest => ⟨?_, rfl⟩⟩
      have hn : c.toNat < 0x80 := by
        simp only [Bool.or_eq_true, decide_eq_true_eq, beq_iff_eq] at hcontrol
        omega
      have hlength : ¬ ('0' :: '0' :: hexDigitUpper (c.toNat / 16) ::
          hexDigitUpper (c.toNat % 16) :: rest).length < 4 := by
        simp
      simp only [List.cons_append, List.nil_append, escape, if_neg hlength, List.take_succ_cons,
        List.take_zero, charOfDigits?_hex hn, Char.ofNat_toNat, Option.map_some]
      rfl
    · next hcontrol =>
      refine .inl ⟨rfl, ?_, hbackslash⟩
      have hprinted : isPrinted c = true := by
        rw [isPrinted_iff]
        simpa using hcontrol
      simp [isCommentChar, hprinted]

/-! ### Bodies of strings -/

theorem length_le_flatMap {α β : Type} {write : α → List β} (h : ∀ a, write a ≠ [])
    (items : List α) : items.length ≤ (items.flatMap write).length := by
  induction items with
  | nil => exact Nat.le_refl _
  | cons a items ih =>
    have hpos := List.length_pos_of_ne_nil (h a)
    rw [List.flatMap_cons, List.length_append, List.length_cons]
    omega

/-- A reader of bodies takes a character off the front of a text, where it stands as `text`. -/
def Takes (body : Nat → Reader (List Char)) (text : List Char) (c : Char) : Prop :=
  ∀ fuel rest, body (fuel + 1) (text ++ rest) = (body fuel rest).map fun (cs, r) => (c :: cs, r)

section Bodies

variable {body : Nat → Reader (List Char)} {write : Char → List Char} {quote : Char}
  {escapes : Bool} {c : Char} {cs text rest : List Char} {fuel : Nat}

theorem Takes.flatMap (h : ∀ c ∈ cs, Takes body (write c) c) (fuel : Nat) (rest : List Char) :
    body (cs.length + fuel) (cs.flatMap write ++ rest) =
      (body fuel rest).map fun (ds, r) => (cs ++ ds, r) := by
  induction cs with
  | nil => simp
  | cons c cs ih =>
    obtain ⟨hc, hcs⟩ := List.forall_mem_cons.mp h
    have hlength : (c :: cs).length + fuel = (cs.length + fuel) + 1 := by
      rw [List.length_cons]
      omega
    rw [List.flatMap_cons, List.append_assoc, hlength, hc, ih hcs, Option.map_map]
    rfl

/-! ### Strings of one line -/

theorem takes_lineBody (hquote : c ≠ quote) (hback : escapes = true → c ≠ '\\')
    (hc : isCommentChar c = true) : Takes (lineBody quote escapes) [c] c := by
  intro fuel rest
  have hescape : (escapes && c == '\\') = false := by
    cases escapes with
    | false => rfl
    | true => simpa using hback rfl
  simp only [List.cons_append, List.nil_append, lineBody, if_neg hquote, hescape, hc,
    Bool.false_eq_true, ↓reduceIte]
  cases lineBody quote escapes fuel rest <;> rfl

theorem takes_lineBody_escape {e : List Char} (hquote : '\\' ≠ quote)
    (he : ∀ rest, escape (e ++ rest) = some (c, rest)) :
    Takes (lineBody quote true) ('\\' :: e) c := by
  intro fuel rest
  simp only [List.cons_append, lineBody, if_neg hquote, beq_self_eq_true, Bool.and_self, ↓reduceIte,
    he]
  cases hbody : lineBody quote true fuel rest <;> simp [hbody]

theorem lineBody_quote (fuel : Nat) (rest : List Char) :
    lineBody quote escapes (fuel + 1) (quote :: rest) = some ([], rest) := by
  rw [lineBody, if_pos rfl]

/-- What is written for a character of a string of one line. -/
def lineChar (c : Char) : List Char :=
  if c = '"' then ['\\', '"'] else if c = '\n' then ['\\', 'n'] else escaped c

theorem takes_lineChar (c : Char) : Takes (lineBody '"' true) (lineChar c) c := by
  rw [lineChar]
  split
  · next hquote =>
    subst hquote
    exact takes_lineBody_escape (by decide) fun rest => rfl
  · next hquote =>
    split
    · next hline =>
      subst hline
      exact takes_lineBody_escape (by decide) fun rest => rfl
    · obtain ⟨hc, hprinted, hback⟩ | ⟨e, he, hescape⟩ := escaped_cases c
      · rw [hc]
        exact takes_lineBody hquote (fun _ => hback) hprinted
      · rw [he]
        exact takes_lineBody_escape (by decide) fun rest => (hescape rest).1

theorem lineBody_lineEscaped (h : cs.length < fuel) (rest : List Char) :
    lineBody '"' true fuel (lineEscaped cs ++ '"' :: rest) = some (cs, rest) := by
  obtain ⟨more, rfl⟩ : ∃ more, fuel = cs.length + (more + 1) := ⟨fuel - cs.length - 1, by omega⟩
  have hread := Takes.flatMap (fun c (_ : c ∈ cs) => takes_lineChar c) (more + 1) ('"' :: rest)
  have hwrite : lineEscaped cs = cs.flatMap lineChar := rfl
  rw [lineBody_quote] at hread
  simpa [hwrite] using hread

/-- A string without escapes ends where its quote stands next. -/
theorem lineBody_raw (hcs : ∀ c ∈ cs, c ≠ quote ∧ isCommentChar c = true) (h : cs.length < fuel)
    (rest : List Char) :
    lineBody quote false fuel (cs ++ quote :: rest) = some (cs, rest) := by
  obtain ⟨more, rfl⟩ : ∃ more, fuel = cs.length + (more + 1) := ⟨fuel - cs.length - 1, by omega⟩
  have htakes : ∀ c ∈ cs, Takes (lineBody quote false) [c] c := fun c hc =>
    takes_lineBody (hcs c hc).1 nofun (hcs c hc).2
  have hread := Takes.flatMap htakes (more + 1) (quote :: rest)
  rw [lineBody_quote] at hread
  simpa using hread

/-! ### Strings of several lines -/

theorem takes_blockBody (hquote : c ≠ quote) (hback : escapes = true → c ≠ '\\')
    (hc : isCommentChar c = true) : Takes (blockBody quote escapes) [c] c := by
  intro fuel rest
  have hescape : (escapes && c == '\\') = false := by
    cases escapes with
    | false => rfl
    | true => simpa using hback rfl
  have hline : lineEnd? (c :: rest) = none := by
    unfold lineEnd?
    split
    · next heq =>
      cases heq
      cases hc
    · next heq =>
      cases heq
      cases hc
    · rfl
  simp only [List.cons_append, List.nil_append, blockBody, if_neg hquote, hescape, hline, hc,
    Bool.false_eq_true, ↓reduceIte]
  cases blockBody quote escapes fuel rest <;> rfl

theorem takes_blockBody_line (hquote : '\n' ≠ quote) :
    Takes (blockBody quote escapes) ['\n'] '\n' := by
  intro fuel rest
  have hescape : (escapes && '\n' == '\\') = false := by
    cases escapes <;> rfl
  simp only [List.cons_append, List.nil_append, blockBody, if_neg hquote, hescape, lineEnd?,
    Bool.false_eq_true, ↓reduceIte]
  cases blockBody quote escapes fuel rest <;> rfl

theorem takes_blockBody_escape {e : List Char} (hquote : '\\' ≠ quote)
    (he : ∀ rest, escape (e ++ rest) = some (c, rest) ∧ continued? (e ++ rest) = none) :
    Takes (blockBody quote true) ('\\' :: e) c := by
  intro fuel rest
  simp only [List.cons_append, blockBody, if_neg hquote, beq_self_eq_true, Bool.and_self,
    ↓reduceIte, (he rest).1, (he rest).2]
  cases hbody : blockBody quote true fuel rest <;> simp [hbody]

/-- Characters, and how they may stand in a string of several lines behind `run` quotes: there are
never three quotes in a row. -/
inductive Block (quote : Char) (escapes : Bool) : Nat → List Char → List Char → Prop where
  | nil {run : Nat} : Block quote escapes run [] []
  | quote {run : Nat} {text cs : List Char} (room : run < 2)
      (behind : Block quote escapes (run + 1) text cs) :
      Block quote escapes run (quote :: text) (quote :: cs)
  | char {run : Nat} {d : Char} {piece text cs : List Char} {c : Char} (apart : d ≠ quote)
      (takes : Takes (blockBody quote escapes) (d :: piece) c)
      (behind : Block quote escapes 0 text cs) :
      Block quote escapes run (d :: piece ++ text) (c :: cs)

/-- The quotes at the front of what stands in a block, which may be all there is. -/
theorem Block.quotes {run : Nat} (h : Block quote escapes run text cs) (hrun : run ≤ 2) :
    (∃ k, k + run ≤ 2 ∧ text = List.replicate k quote ∧ cs = List.replicate k quote) ∨
    ∀ rest, ((text ++ rest).takeWhile (· == quote)).length + run ≤ 2 := by
  induction h with
  | nil => exact .inl ⟨0, by omega, rfl, rfl⟩
  | @quote run text cs room behind ih =>
    rcases ih (by omega) with ⟨k, hk, rfl, rfl⟩ | hfront
    · exact .inl ⟨k + 1, by omega, rfl, rfl⟩
    · right
      intro rest
      have hrest := hfront rest
      simp only [List.cons_append, beq_self_eq_true, List.takeWhile_cons_of_pos, List.length_cons]
      omega
  | @char run d piece text cs c apart takes behind ih =>
    right
    intro rest
    have hd : (d == quote) = false := by simpa using apart
    simpa [hd] using hrun

/-- Up to two quotes may stand before the three that close a block. -/
theorem blockBody_replicate {k : Nat} (hk : k ≤ 2) (hrest : rest.head? ≠ some quote) :
    blockBody quote escapes (fuel + 1)
        (List.replicate k quote ++ quote :: quote :: quote :: rest) =
      some (List.replicate k quote, rest) := by
  have hnone : rest.takeWhile (· == quote) = [] := by
    cases rest with
    | nil => rfl
    | cons d rest =>
      have hd : (d == quote) = false := by simpa using hrest
      simp [hd]
  obtain rfl | rfl | rfl : k = 0 ∨ k = 1 ∨ k = 2 := by omega
  all_goals simp [blockBody, hnone, List.replicate]

/-- What stands in a block is read up to the three quotes that close it. -/
theorem Block.reads {run : Nat} (h : Block quote escapes run text cs) (hrun : run ≤ 2)
    (hfuel : cs.length < fuel) (hrest : rest.head? ≠ some quote) :
    blockBody quote escapes fuel (text ++ quote :: quote :: quote :: rest) = some (cs, rest) := by
  induction h generalizing fuel with
  | nil =>
    obtain ⟨more, rfl⟩ : ∃ more, fuel = more + 1 := ⟨fuel - 1, by omega⟩
    exact blockBody_replicate (Nat.zero_le 2) hrest
  | @quote run text cs room behind ih =>
    obtain ⟨more, rfl⟩ : ∃ more, fuel = more + 1 := ⟨fuel - 1, by omega⟩
    have hwhole : Block quote escapes run (quote :: text) (quote :: cs) := .quote room behind
    rcases hwhole.quotes hrun with ⟨k, hk, htext, hcs⟩ | hfront
    · rw [htext, hcs]
      exact blockBody_replicate (by omega) hrest
    · have hshort := hfront (quote :: quote :: quote :: rest)
      have hbehind := ih (by omega) (Nat.lt_of_succ_lt_succ hfuel)
      simp only [List.cons_append] at hshort
      simp only [List.cons_append, blockBody, ↓reduceIte, hbehind]
      rw [if_neg (by omega)]
      rfl
  | @char run d piece text cs c apart takes behind ih =>
    obtain ⟨more, rfl⟩ : ∃ more, fuel = more + 1 := ⟨fuel - 1, by omega⟩
    rw [List.append_assoc, takes, ih (by omega) (by simpa using hfuel)]
    rfl

theorem block_blockEscaped {run : Nat} (hrun : run ≤ 2) (cs : List Char) :
    Block '"' true run (blockEscaped run cs) cs := by
  induction cs generalizing run with
  | nil => exact .nil
  | cons c cs ih =>
    rw [blockEscaped]
    split
    · next hquote =>
      subst hquote
      split
      · have htakes : Takes (blockBody '"' true) ['\\', '"'] '"' :=
          takes_blockBody_escape (by decide) fun rest => ⟨rfl, rfl⟩
        exact .char (by decide) htakes (ih (by omega))
      · exact .quote (by omega) (ih (by omega))
    · next hquote =>
      split
      · next hline =>
        subst hline
        exact .char (by decide) (takes_blockBody_line (by decide)) (ih (by omega))
      · obtain ⟨hc, hprinted, hback⟩ | ⟨e, he, hescape⟩ := escaped_cases c
        · rw [hc]
          exact .char hquote (takes_blockBody hquote (fun _ => hback) hprinted) (ih (by omega))
        · rw [he]
          exact .char (by decide) (takes_blockBody_escape (by decide) hescape) (ih (by omega))

/-! ### Runs of a quote -/

theorem le_longestRun_go (best run : Nat) (cs : List Char) :
    best ≤ longestRun.go quote best run cs := by
  induction cs generalizing best run with
  | nil => exact Nat.le_refl _
  | cons c cs ih =>
    rw [longestRun.go]
    split
    · exact Nat.le_trans (Nat.le_max_left _ _) (ih _ _)
    · exact ih _ _

/-- Without runs of three quotes, characters stand in a block as they are. -/
theorem block_raw {best run : Nat} (hcs : ∀ c ∈ cs, needsEscape c = false) (hquote : '\n' ≠ quote)
    (hruns : longestRun.go quote best run cs ≤ 2) : Block quote false run cs cs := by
  induction cs generalizing best run with
  | nil => exact .nil
  | cons c cs ih =>
    obtain ⟨hc, hcs⟩ := List.forall_mem_cons.mp hcs
    rw [longestRun.go] at hruns
    split at hruns
    · next heq =>
      subst heq
      have hbest := Nat.le_trans (le_longestRun_go _ _ cs) hruns
      exact .quote (by omega) (ih hcs hruns)
    · next hne =>
      have htakes : Takes (blockBody quote false) [c] c := by
        by_cases hline : c = '\n'
        · rw [hline]
          exact takes_blockBody_line hquote
        · exact takes_blockBody hne nofun (isCommentChar_of_needsEscape hc hline)
      exact .char hne htakes (ih hcs hruns)

theorem not_mem_of_longestRun {best run : Nat} (h : longestRun.go quote best run cs = 0) :
    quote ∉ cs := by
  induction cs generalizing best run with
  | nil => exact List.not_mem_nil
  | cons c cs ih =>
    rw [longestRun.go] at h
    split at h
    · have hbest : max best (run + 1) ≤ longestRun.go quote (max best (run + 1)) (run + 1) cs :=
        le_longestRun_go _ _ cs
      omega
    · next hne =>
      rw [List.mem_cons, not_or]
      exact ⟨Ne.symm hne, ih h⟩

end Bodies

/-! ### Strings -/

/-- The text is read as the string if no quote follows it. -/
def IsString (text : List Char) (s : String) : Prop :=
  ∀ rest, rest.head? ≠ some '"' → rest.head? ≠ some '\'' → string (text ++ rest) = some (s, rest)

variable {s : String} {text lead rest : List Char} {quote : Char}

theorem string_of_double (h : ∀ rest, text ≠ '"' :: '"' :: rest) :
    string ('"' :: text) = lineString ('"' :: text) := by
  unfold string
  split
  · next heq =>
    cases heq
    exact absurd rfl (h _)
  · next heq => cases heq
  · rfl

theorem string_of_single (h : ∀ rest, text ≠ '\'' :: '\'' :: rest) :
    string ('\'' :: text) = lineString ('\'' :: text) := by
  unfold string
  split
  · next heq => cases heq
  · next heq =>
    cases heq
    exact absurd rfl (h _)
  · rfl

theorem lineChar_cases (c : Char) : ∃ d piece, lineChar c = d :: piece ∧ d ≠ '"' := by
  rw [lineChar]
  split
  · exact ⟨_, _, rfl, by decide⟩
  · next hquote =>
    split
    · exact ⟨_, _, rfl, by decide⟩
    · obtain ⟨hc, -, -⟩ | ⟨e, he, -⟩ := escaped_cases c
      · exact ⟨_, _, hc, hquote⟩
      · exact ⟨_, _, he, by decide⟩

theorem isString_line (s : String) : IsString ('"' :: lineEscaped s.toList ++ ['"']) s := by
  intro rest hdouble _
  have hopen : ∀ behind, lineEscaped s.toList ++ '"' :: rest ≠ '"' :: '"' :: behind := by
    intro behind heq
    cases hcs : s.toList with
    | nil =>
      rw [hcs] at heq
      cases heq
      exact hdouble rfl
    | cons c cs =>
      obtain ⟨d, piece, hpiece, hd⟩ := lineChar_cases c
      have hwrite : lineEscaped (c :: cs) = lineChar c ++ lineEscaped cs := List.flatMap_cons
      rw [hcs, hwrite, hpiece] at heq
      exact hd (List.cons.inj heq).1
  have hlength : s.toList.length < (lineEscaped s.toList ++ '"' :: rest).length + 1 := by
    have hpiece (c : Char) : lineChar c ≠ [] := by
      obtain ⟨d, piece, hpiece, -⟩ := lineChar_cases c
      rw [hpiece]
      exact List.cons_ne_nil _ _
    have hle : s.toList.length ≤ (lineEscaped s.toList).length := length_le_flatMap hpiece _
    rw [List.length_append]
    omega
  have htext : '"' :: lineEscaped s.toList ++ ['"'] ++ rest =
      '"' :: (lineEscaped s.toList ++ '"' :: rest) := by simp
  rw [htext, string_of_double hopen, lineString, lineBody_lineEscaped hlength]
  simp

theorem isString_rawLine (hs : ∀ c ∈ s.toList, c ≠ '\'' ∧ isCommentChar c = true)
    (hne : s.toList ≠ []) : IsString ('\'' :: s.toList ++ ['\'']) s := by
  intro rest _ _
  have hopen : ∀ behind, s.toList ++ '\'' :: rest ≠ '\'' :: '\'' :: behind := by
    intro behind heq
    obtain ⟨c, cs, hcs⟩ := List.exists_cons_of_ne_nil hne
    rw [hcs] at heq hs
    exact (hs c List.mem_cons_self).1 (List.cons.inj heq).1
  have hlength : s.toList.length < (s.toList ++ '\'' :: rest).length + 1 := by
    rw [List.length_append]
    omega
  have htext : '\'' :: s.toList ++ ['\''] ++ rest = '\'' :: (s.toList ++ '\'' :: rest) := by simp
  rw [htext, string_of_single hopen, lineString, lineBody_raw hs hlength]
  simp

theorem lineEnd?_eq_none (h : ∀ c ∈ text.head?, c ≠ '\n' ∧ c ≠ '\r') : lineEnd? text = none := by
  unfold lineEnd?
  split
  · exact absurd rfl (h '\n' rfl).1
  · exact absurd rfl (h '\r' rfl).2
  · rfl

theorem Block.length_le {escapes : Bool} {run : Nat} {cs : List Char}
    (h : Block quote escapes run text cs) : cs.length ≤ text.length := by
  induction h with
  | nil => exact Nat.le_refl _
  | quote room behind ih => exact Nat.succ_le_succ ih
  | char apart takes behind ih =>
    simp only [List.length_append, List.length_cons]
    omega

/-- A line end at the front of a block is dropped. -/
theorem blockString_block {escapes : Bool} (h : Block quote escapes 0 text s.toList)
    (hquote : quote ≠ '\n' ∧ quote ≠ '\r')
    (hlead : lead = ['\n'] ∨ lead = [] ∧ ∀ c ∈ text.head?, c ≠ '\n' ∧ c ≠ '\r')
    (hrest : rest.head? ≠ some quote) :
    blockString quote escapes (lead ++ (text ++ quote :: quote :: quote :: rest)) =
      some (s, rest) := by
  have hdrop : (lineEnd? (lead ++ (text ++ quote :: quote :: quote :: rest))).getD
      (lead ++ (text ++ quote :: quote :: quote :: rest)) =
        text ++ quote :: quote :: quote :: rest := by
    rcases hlead with rfl | ⟨rfl, hfront⟩
    · rfl
    · rw [List.nil_append, lineEnd?_eq_none, Option.getD_none]
      cases text with
      | nil =>
        rintro _ ⟨⟩
        exact hquote
      | cons c text => exact hfront
  have hlength : s.toList.length < (text ++ quote :: quote :: quote :: rest).length + 1 := by
    have hle := h.length_le
    rw [List.length_append]
    omega
  rw [blockString, hdrop]
  simp only [h.reads (Nat.zero_le 2) hlength hrest, Option.map_some, String.ofList_toList]

theorem head?_blockEscaped {run : Nat} {cs : List Char} (h : '\n' ∉ cs) :
    ∀ c ∈ (blockEscaped run cs).head?, c ≠ '\n' ∧ c ≠ '\r' := by
  cases cs with
  | nil => exact nofun
  | cons c cs =>
    rw [blockEscaped]
    split
    · split
      · rintro _ ⟨⟩
        decide
      · rintro _ ⟨⟩
        decide
    · rw [if_neg (List.ne_of_not_mem_cons h).symm]
      obtain ⟨hc, hprinted, -⟩ | ⟨e, he, -⟩ := escaped_cases c
      · rw [hc]
        rintro _ ⟨⟩
        constructor
        · rintro rfl
          cases hprinted
        · rintro rfl
          cases hprinted
      · rw [he]
        rintro _ ⟨⟩
        decide

/-- The line end that is written if there are any others. -/
def leadLine (cs : List Char) : List Char := if cs.contains '\n' then ['\n'] else []

theorem isString_block (s : String) :
    IsString ("\"\"\"".toList ++ leadLine s.toList ++ blockEscaped 0 s.toList ++ "\"\"\"".toList)
      s := by
  intro rest hdouble _
  have hlead : leadLine s.toList = ['\n'] ∨ leadLine s.toList = [] ∧
      ∀ c ∈ (blockEscaped 0 s.toList).head?, c ≠ '\n' ∧ c ≠ '\r' := by
    rw [leadLine]
    split
    · exact .inl rfl
    · next hline => exact .inr ⟨rfl, head?_blockEscaped (by simpa using hline)⟩
  have hread := blockString_block (block_blockEscaped (Nat.zero_le 2) s.toList) (by decide) hlead
    hdouble
  simpa [string] using hread

theorem isString_rawBlock (hs : ∀ c ∈ s.toList, needsEscape c = false)
    (hruns : longestRun '\'' s.toList ≤ 2) :
    IsString ("'''".toList ++ leadLine s.toList ++ s.toList ++ "'''".toList) s := by
  intro rest _ hsingle
  have hlead : leadLine s.toList = ['\n'] ∨ leadLine s.toList = [] ∧
      ∀ c ∈ s.toList.head?, c ≠ '\n' ∧ c ≠ '\r' := by
    rw [leadLine]
    split
    · exact .inl rfl
    · next hline =>
      refine .inr ⟨rfl, ?_⟩
      intro c hc
      have hmem := List.mem_of_mem_head? hc
      constructor
      · rintro rfl
        exact hline (List.contains_iff_mem.mpr hmem)
      · rintro rfl
        cases hs _ hmem
  have hread := blockString_block (block_raw hs (by decide) hruns) (by decide) hlead hsingle
  simpa [string] using hread

/-- Whatever it is written like, a string is read back, unless a quote follows it. -/
theorem string_writeString (s : String) : IsString (writeString s).toList s := by
  have hlead : (if s.toList.contains '\n' = true then ['\n'] else []) = leadLine s.toList := rfl
  simp only [writeString, String.toList_ofList, hlead]
  split
  · exact isString_line s
  next hline =>
  split
  · next hraw =>
    simp only [Bool.and_eq_true, Bool.not_eq_true', beq_iff_eq, List.any_eq_false,
      Bool.not_eq_true, List.contains_eq_mem, decide_eq_false_iff_not] at hraw
    obtain ⟨⟨hescapes, hsingles⟩, hlines⟩ := hraw
    apply isString_rawLine
    · intro c hc
      constructor
      · rintro rfl
        exact not_mem_of_longestRun hsingles hc
      · apply isCommentChar_of_needsEscape (hescapes c hc)
        rintro rfl
        exact hlines hc
    · -- nothing is written with the other quotes
      intro hnil
      simp [hnil, longestRun, longestRun.go] at hline
  split
  · exact isString_block s
  split
  · next hraw =>
    simp only [Bool.and_eq_true, Bool.not_eq_true', decide_eq_true_eq] at hraw
    exact isString_rawBlock (by simpa using hraw.1) hraw.2
  split
  · exact isString_block s
  · exact isString_line s

end NestedQuery.Toml
