import NestedQuery.Proofs.Toml.Strings
import NestedQuery.Toml.Reader

/-!
# TOML lines

Strings and lists of strings are read back as values, and a line that is written as a key with such
a value is read back as that. A text of lines is read line by line (`Toml.readLines_written`).
-/

namespace NestedQuery.Toml

open Text

variable {c : Char} {s text rest : List Char}

/-! ### Blanks -/

/-- The text begins with something that is not skipped. -/
def Stops (s : List Char) : Prop :=
  ∃ c rest, s = c :: rest ∧ isSpace c = false ∧ c ≠ '#' ∧ c ≠ '\n' ∧ c ≠ '\r'

theorem Stops.append (h : Stops s) (rest : List Char) : Stops (s ++ rest) := by
  obtain ⟨c, behind, rfl, hc⟩ := h
  exact ⟨c, behind ++ rest, rfl, hc⟩

theorem Stops.skipSpace_eq (h : Stops s) : skipSpace s = s := by
  obtain ⟨c, behind, rfl, hc, -⟩ := h
  rw [skipSpace, List.dropWhile_cons_of_neg (by simp [hc])]

theorem Stops.skipLines_eq (h : Stops s) (hspace : skipSpace text = s) (fuel : Nat) :
    skipLines (fuel + 1) text = s := by
  obtain ⟨c, behind, rfl, -, hcomment, hline⟩ := h
  have hskip : skipComment (c :: behind) = c :: behind := by
    unfold skipComment
    split
    · next heq =>
      cases heq
      exact absurd rfl hcomment
    · rfl
  have hend : lineEnd? (c :: behind) = none := by
    apply lineEnd?_eq_none
    rintro _ ⟨⟩
    exact hline
  rw [skipLines, hspace]
  simp only [hskip, hend]

theorem Stops.skipAll_eq (h : Stops s) : skipAll s = s := h.skipLines_eq h.skipSpace_eq _

/-- A line end is skipped, and so are the blanks on the next line. -/
theorem Stops.skipAll_line (h : Stops s) (blanks : List Char) (hblanks : ∀ c ∈ blanks, isSpace c) :
    skipAll ('\n' :: (blanks ++ s)) = s := by
  have hspace : skipSpace (blanks ++ s) = s := by
    rw [skipSpace, List.dropWhile_append_of_pos hblanks]
    exact h.skipSpace_eq
  exact h.skipLines_eq hspace _

/-! ### Values -/

/-- The text is read as the value, unless a quote follows it. -/
structure IsValue (depth : Nat) (text : List Char) (v : Toml) : Prop where
  stops : Stops text
  reads : ∀ rest, rest.head? ≠ some '"' → rest.head? ≠ some '\'' →
    readValue depth (text ++ rest) = some (v, rest)

theorem IsString.quoted {s : String} (h : IsString text s) :
    ∃ q behind, text = q :: behind ∧ (q = '"' ∨ q = '\'') := by
  have hread := h [] nofun nofun
  rw [List.append_nil] at hread
  unfold string lineString at hread
  split at hread
  · exact ⟨_, _, rfl, .inl rfl⟩
  · exact ⟨_, _, rfl, .inr rfl⟩
  · split at hread
    · exact ⟨_, _, rfl, .inl rfl⟩
    · exact ⟨_, _, rfl, .inr rfl⟩
    · cases hread

theorem stops_quote (h : c = '"' ∨ c = '\'') (rest : List Char) : Stops (c :: rest) := by
  refine ⟨c, rest, rfl, ?_⟩
  rcases h with rfl | rfl <;> decide

theorem isValue_writeString (depth : Nat) (s : String) :
    IsValue depth (writeString s).toList (.str s) := by
  have hread := string_writeString s
  obtain ⟨q, behind, htext, hq⟩ := hread.quoted
  rw [htext] at hread ⊢
  refine ⟨stops_quote hq behind, ?_⟩
  intro rest hdouble hsingle
  have hstring := hread rest hdouble hsingle
  rw [List.cons_append] at hstring ⊢
  unfold readValue
  simp only [if_pos hq, hstring, Option.map_some]

/-! ### Lists of strings -/

/-- One string on a line of its own. -/
def itemLine (s : String) : List Char := "    ".toList ++ (writeString s).toList ++ ",\n".toList

theorem stops_bracket (rest : List Char) : Stops (']' :: rest) := ⟨_, _, rfl, by decide⟩

theorem stops_comma (rest : List Char) : Stops (',' :: rest) := ⟨_, _, rfl, by decide⟩

theorem head?_writeString (s : String) (rest : List Char) :
    ((writeString s).toList ++ rest).head? ≠ some ']' := by
  obtain ⟨q, behind, htext, hq⟩ := (string_writeString s).quoted
  rw [htext]
  rcases hq with rfl | rfl <;> simp

section Arrays

variable {item : Reader Toml} {v : Toml} {behind : List Char} (fuel : Nat)

theorem arrayItems_end (hskip : skipAll text = ']' :: behind) :
    arrayItems item (fuel + 1) text = some ([], behind) := by
  simp only [arrayItems, hskip]

/-- An array goes on with an item if it does not end. -/
theorem arrayItems_item (hskip : skipAll text = s) (hs : s.head? ≠ some ']')
    (hitem : item s = some (v, ',' :: behind)) :
    arrayItems item (fuel + 1) text =
      (arrayItems item fuel behind).map fun (items, r) => (v :: items, r) := by
  have hcomma : skipAll (',' :: behind) = ',' :: behind := (stops_comma behind).skipAll_eq
  rw [arrayItems, hskip]
  split
  · exact absurd rfl hs
  · simp only [hitem, hcomma, Option.bind_eq_bind, Option.bind_some]
    cases arrayItems item fuel behind <;> rfl

theorem arrayItems_last (hskip : skipAll text = s) (hs : s.head? ≠ some ']')
    (hitem : item s = some (v, ']' :: behind)) :
    arrayItems item (fuel + 1) text = some ([v], behind) := by
  have hclose : skipAll (']' :: behind) = ']' :: behind := (stops_bracket behind).skipAll_eq
  rw [arrayItems, hskip]
  split
  · exact absurd rfl hs
  · simp only [hitem, hclose, Option.bind_eq_bind, Option.bind_some]
    rfl

end Arrays

/-- Strings on lines of their own are the items of an array. -/
theorem arrayItems_lines (depth : Nat) (items : List String) (rest : List Char) {fuel : Nat}
    (h : items.length < fuel) :
    arrayItems (readValue depth) fuel ('\n' :: (items.flatMap itemLine ++ ']' :: rest)) =
      some (items.map .str, rest) := by
  induction items generalizing fuel with
  | nil =>
    obtain ⟨more, rfl⟩ : ∃ more, fuel = more + 1 := ⟨fuel - 1, by omega⟩
    exact arrayItems_end more ((stops_bracket rest).skipAll_line [] nofun)
  | cons s items ih =>
    obtain ⟨more, rfl⟩ : ∃ more, fuel = more + 1 := ⟨fuel - 1, by omega⟩
    have hvalue := isValue_writeString depth s
    have hline : '\n' :: ((s :: items).flatMap itemLine ++ ']' :: rest) =
        '\n' :: ("    ".toList ++ ((writeString s).toList ++
          ',' :: '\n' :: (items.flatMap itemLine ++ ']' :: rest))) := by
      simp [itemLine]
    rw [hline, arrayItems_item more ((hvalue.stops.append _).skipAll_line _ (List.all_eq_true.mp rfl))
      (head?_writeString s _) (hvalue.reads _ (by simp) (by simp)), ih (Nat.lt_of_succ_lt_succ h)]
    rfl

theorem isValue_array {depth : Nat} {items : List Toml}
    (h : ∀ rest, arrayItems (readValue depth) ((text ++ rest).length + 1) (text ++ rest) =
      some (items, rest)) :
    IsValue (depth + 1) ('[' :: text) (.arr items) := by
  refine ⟨⟨_, _, rfl, by decide⟩, ?_⟩
  intro rest _ _
  have hitems := h rest
  simp only [List.length_append] at hitems
  rw [List.cons_append]
  unfold readValue
  simp [hitems]

theorem isValue_writeStrings (depth : Nat) (items : List String) :
    IsValue (depth + 1) (writeStrings items).toList (.arr (items.map .str)) := by
  match items with
  | [] =>
    have hempty : (writeStrings []).toList = '[' :: [']'] := rfl
    rw [hempty]
    apply isValue_array
    intro rest
    exact arrayItems_end _ (stops_bracket rest).skipAll_eq
  | [s] =>
    have hvalue := isValue_writeString depth s
    have htext : (writeStrings [s]).toList = '[' :: ((writeString s).toList ++ [']']) := by
      simp [writeStrings]
    rw [htext]
    apply isValue_array
    intro rest
    rw [List.append_assoc, List.singleton_append]
    apply arrayItems_last _ (hvalue.stops.append _).skipAll_eq (head?_writeString s _)
    exact hvalue.reads _ (by simp) (by simp)
  | s :: t :: items =>
    have htext : (writeStrings (s :: t :: items)).toList =
        '[' :: '\n' :: ((s :: t :: items).flatMap itemLine ++ [']']) := by
      simp only [writeStrings, String.toList_append, String.toList_join, List.flatMap_map]
      rfl
    have hitem (s : String) : itemLine s ≠ [] := by simp [itemLine]
    rw [htext]
    apply isValue_array
    intro rest
    rw [List.cons_append, List.append_assoc, List.singleton_append]
    apply arrayItems_lines
    have hlength := length_le_flatMap hitem (s :: t :: items)
    simp only [List.length_cons, List.length_append] at hlength ⊢
    omega

/-! ### Lines -/

/-- A line as it is written, without its end. -/
structure Written where
  text : List Char
  line : Line
  reads : ∀ rest, lineContent (text ++ '\n' :: rest) = some (line, '\n' :: rest)

/-- The key is a word that is written as it is. -/
structure IsKey (k : String) : Prop where
  nonempty : k.toList ≠ []
  chars : ∀ c ∈ k.toList, isKeyChar c = true

instance (k : String) : Decidable (IsKey k) :=
  decidable_of_iff (k.toList ≠ [] ∧ k.toList.all isKeyChar = true)
    ⟨fun ⟨nonempty, chars⟩ => ⟨nonempty, List.all_eq_true.mp chars⟩,
      fun h => ⟨h.nonempty, List.all_eq_true.mpr h.chars⟩⟩

theorem ne_of_isKeyChar {c d : Char} (h : isKeyChar c = true) (hd : isKeyChar d = false) :
    c ≠ d := by
  rintro rfl
  rw [h] at hd
  cases hd

theorem isSpace_of_isKeyChar {c : Char} (h : isKeyChar c = true) : isSpace c = false := by
  have hblank := ne_of_isKeyChar h (rfl : isKeyChar ' ' = false)
  have htab := ne_of_isKeyChar h (rfl : isKeyChar '\t' = false)
  simp [isSpace, hblank, htab]

theorem IsKey.stops {k : String} (h : IsKey k) (rest : List Char) : Stops (k.toList ++ rest) := by
  obtain ⟨c, cs, hk⟩ := List.exists_cons_of_ne_nil h.nonempty
  have hc : isKeyChar c = true := h.chars c (by simp [hk])
  refine ⟨c, cs ++ rest, by rw [hk, List.cons_append], isSpace_of_isKeyChar hc, ?_, ?_, ?_⟩
  all_goals exact ne_of_isKeyChar hc rfl

theorem key_of_isKey {k : String} (h : IsKey k) (rest : List Char) :
    key (k.toList ++ ' ' :: '=' :: rest) = some ([k], '=' :: rest) := by
  have hspan : Reader.span isKeyChar (k.toList ++ ' ' :: '=' :: rest) =
      (k.toList, ' ' :: '=' :: rest) := by
    rw [Reader.span, List.takeWhile_append_of_pos h.chars, List.dropWhile_append_of_pos h.chars]
    simp [isKeyChar]
  have hskip := (h.stops (' ' :: '=' :: rest)).skipSpace_eq
  have hspace : skipSpace (' ' :: '=' :: rest) = '=' :: rest := rfl
  have hsimple : simpleKey (k.toList ++ ' ' :: '=' :: rest) = some (k, ' ' :: '=' :: rest) := by
    obtain ⟨c, cs, hk⟩ := List.exists_cons_of_ne_nil h.nonempty
    have hc : isKeyChar c = true := h.chars c (by simp [hk])
    have hquote : ¬ (c = '"' ∨ c = '\'') := by
      rintro (rfl | rfl) <;> cases hc
    have hofList : String.ofList (c :: cs) = k := by rw [← hk, String.ofList_toList]
    rw [hk, List.cons_append] at hspan ⊢
    simp only [simpleKey, if_neg hquote, Reader.span1, hspan, Option.map_some, hofList]
  have hdepth : depthLimit - 1 = 78 + 1 := rfl
  rw [key, hdepth, dottedKey, hskip, hsimple]
  simp only [Option.bind_eq_bind, Option.bind_some, hspace]
  rfl

theorem lineContent_pair {k : String} {v : Toml} (hk : IsKey k)
    (hv : IsValue (depthLimit - 1) text v) (rest : List Char) :
    lineContent (k.toList ++ ' ' :: '=' :: ' ' :: (text ++ '\n' :: rest)) =
      some (.pair [k] v, '\n' :: rest) := by
  have hskip : skipSpace (' ' :: (text ++ '\n' :: rest)) = text ++ '\n' :: rest :=
    (hv.stops.append _).skipSpace_eq
  have hpair : keyValue (readValue (depthLimit - 1))
      (k.toList ++ ' ' :: '=' :: ' ' :: (text ++ '\n' :: rest)) =
        some (([k], v), '\n' :: rest) := by
    rw [keyValue, key_of_isKey hk]
    simp only [Option.bind_eq_bind, Option.bind_some, hskip, hv.reads ('\n' :: rest) nofun nofun]
    rfl
  rw [lineContent, (hk.stops _).skipSpace_eq]
  obtain ⟨c, cs, hcs⟩ := List.exists_cons_of_ne_nil hk.nonempty
  have hc : isKeyChar c = true := hk.chars c (by simp [hcs])
  rw [hcs, List.cons_append] at hpair ⊢
  -- a key is no bracket, no comment and no line end
  split
  · next heq => exact absurd (List.cons.inj heq).1 (ne_of_isKeyChar hc rfl)
  · next heq => exact absurd (List.cons.inj heq).1 (ne_of_isKeyChar hc rfl)
  · next heq => cases heq
  · next heq =>
    cases heq
    have hline : lineEnd? (c :: (cs ++ ' ' :: '=' :: ' ' :: (text ++ '\n' :: rest))) = none := by
      apply lineEnd?_eq_none
      rintro _ ⟨⟩
      exact ⟨ne_of_isKeyChar hc rfl, ne_of_isKeyChar hc rfl⟩
    have hcomment : c ≠ '#' := ne_of_isKeyChar hc rfl
    simp only [hcomment, hline, hpair, decide_false, Option.isSome_none, Bool.or_self,
      Bool.false_eq_true, ↓reduceIte, Option.map_some]

namespace Written

def blank : Written := ⟨[], .blank, fun _ => rfl⟩

def entityHeader : Written := ⟨"[[entity]]".toList, .arrayHeader ["entity"], fun _ => rfl⟩

def childHeader : Written :=
  ⟨"[[entity.children]]".toList, .arrayHeader ["entity", "children"], fun _ => rfl⟩

/-- The text of lines, each with its end. -/
def textOf (lines : List Written) : List Char := lines.flatMap fun w => w.text ++ ['\n']

end Written

/-- A text of lines is read as the lines that were written. -/
theorem readLines_written {lines : List Written} (hne : lines ≠ []) {fuel : Nat}
    (h : lines.length ≤ fuel) :
    readLines fuel (Written.textOf lines) = some (lines.map (·.line)) := by
  induction lines generalizing fuel with
  | nil => exact absurd rfl hne
  | cons w lines ih =>
    obtain ⟨more, rfl⟩ : ∃ more, fuel = more + 1 := ⟨fuel - 1, by rw [List.length_cons] at h; omega⟩
    have htext : Written.textOf (w :: lines) = w.text ++ '\n' :: Written.textOf lines := by
      simp [Written.textOf]
    have hclose : closeLine? ('\n' :: Written.textOf lines) = some (Written.textOf lines) := rfl
    rw [htext, readLines, w.reads]
    simp only [Option.bind_eq_bind, Option.bind_some, hclose]
    cases lines with
    | nil => rfl
    | cons w' lines =>
      have hmore : (Written.textOf (w' :: lines)).isEmpty = false := by
        simp [Written.textOf]
      rw [ih (List.cons_ne_nil _ _) (Nat.le_of_succ_le_succ h), hmore]
      rfl

end NestedQuery.Toml
