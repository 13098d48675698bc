import Mathlib.Data.List.Basic
import NestedQuery.Document.Heading
import NestedQuery.Proofs.Document.Marks

/-!
# Written headings

A heading is written as an output key and a colon, if it has one, a name, and arguments in
parentheses, if it has any. Taking the word apart gives these parts back
(`Heading.ofWord_word`).
-/

namespace NestedQuery

open Text

/-- The parts of a heading as they are written. -/
structure Header where
  outputKey : Option String
  name : String
  arguments : Option (List (String × Option String))
  deriving DecidableEq, Repr

namespace Header

def argument : String × Option String → List Char
  | (key, some value) => key.toList ++ ':' :: value.toList
  | (key, none) => key.toList

def list (arguments : List (String × Option String)) : List Char :=
  [','].intercalate (arguments.map argument)

theorem list_cons_cons (a b : String × Option String) (rest : List (String × Option String)) :
    list (a :: b :: rest) = argument a ++ ',' :: list (b :: rest) := by
  rw [list, List.map_cons, List.map_cons, List.intercalate_cons_cons, List.append_assoc]
  rfl

/-- What holds of the separator and of every part holds of the whole text. -/
theorem forall_mem_intercalate {p : Char → Prop} {separator : Char} {parts : List (List Char)}
    (hseparator : p separator) (h : ∀ part ∈ parts, ∀ c ∈ part, p c) :
    ∀ c ∈ [separator].intercalate parts, p c := by
  induction parts with
  | nil => exact fun _ hc => nomatch hc
  | cons part rest ih =>
    obtain ⟨hpart, hrest⟩ := List.forall_mem_cons.mp h
    cases rest with
    | nil => rwa [List.intercalate_singleton]
    | cons next rest =>
      rw [List.intercalate_cons_cons, List.append_assoc, List.singleton_append]
      intro c hc
      rcases List.mem_append.mp hc with hc | hc
      · exact hpart c hc
      · rcases List.mem_cons.mp hc with rfl | hc
        · exact hseparator
        · exact ih hrest c hc

def title (h : Header) : List Char :=
  match h.outputKey with
  | some key => key.toList ++ ':' :: h.name.toList
  | none => h.name.toList

/-- The word of a heading, without gaps. -/
def word (h : Header) : List Char :=
  match h.arguments with
  | some arguments => h.title ++ '(' :: (list arguments ++ [')'])
  | none => h.title

/-- No part has blanks at its ends, and none holds a character that ends it. -/
structure Legible (h : Header) : Prop where
  outputKey : ∀ key ∈ h.outputKey,
    trim key.toList = key.toList ∧ ':' ∉ key.toList ∧ '(' ∉ key.toList
  name : trim h.name.toList = h.name.toList ∧ ':' ∉ h.name.toList ∧ '(' ∉ h.name.toList
  keys : ∀ arguments ∈ h.arguments, ∀ a ∈ arguments,
    a.1 ≠ "" ∧ trim a.1.toList = a.1.toList ∧ ',' ∉ a.1.toList ∧ ':' ∉ a.1.toList
  values : ∀ arguments ∈ h.arguments, ∀ a ∈ arguments, ∀ value ∈ a.2,
    trim value.toList = value.toList ∧ ',' ∉ value.toList

end Header

namespace Arguments

theorem pair_argument {a : String × Option String} (hkey : trim a.1.toList = a.1.toList)
    (hcolon : ':' ∉ a.1.toList) (hvalue : ∀ value ∈ a.2, trim value.toList = value.toList) :
    pair (Header.argument a) = a := by
  obtain ⟨key, value⟩ := a
  cases value with
  | none =>
    rw [Header.argument, pair, cutFirst_eq_none_iff.mpr hcolon]
    simp
  | some value =>
    rw [Header.argument, pair, cutFirst_append hcolon]
    simp [hkey, hvalue value rfl]

/-- An argument has no blanks at its ends if its key and its value have none. -/
theorem trim_argument {a : String × Option String} (hne : a.1 ≠ "")
    (hkey : trim a.1.toList = a.1.toList)
    (hvalue : ∀ value ∈ a.2, trim value.toList = value.toList) :
    trim (Header.argument a) = Header.argument a := by
  obtain ⟨key, value⟩ := a
  cases value with
  | none => exact hkey
  | some value =>
    obtain ⟨hstart, -⟩ := trim_eq_self_iff.mp hkey
    obtain ⟨-, hend⟩ := trim_eq_self_iff.mp (hvalue value rfl)
    rw [Header.argument, trim_eq_self_iff]
    constructor
    · have hnil : key.toList ≠ [] := by simpa using hne
      obtain ⟨c, rest, hc⟩ := List.exists_cons_of_ne_nil hnil
      simpa [hc] using hstart
    · intro c hc
      cases hlast : value.toList.getLast? with
      | none =>
        -- an empty value leaves the colon at the end
        have hnil : value.toList = [] := List.getLast?_eq_none_iff.mp hlast
        simp [hnil] at hc
        subst hc
        decide
      | some d =>
        simp [List.getLast?_append, List.getLast?_cons, hlast] at hc
        subst hc
        exact hend d hlast

theorem argument_ne_nil {a : String × Option String} (h : a.1 ≠ "") : Header.argument a ≠ [] := by
  obtain ⟨key, value⟩ := a
  cases value with
  | none => simpa [Header.argument] using h
  | some value => simp [Header.argument]

theorem comma_not_mem_argument {a : String × Option String} (hkey : ',' ∉ a.1.toList)
    (hvalue : ∀ value ∈ a.2, ',' ∉ value.toList) : ',' ∉ Header.argument a := by
  obtain ⟨key, value⟩ := a
  cases value with
  | none => exact hkey
  | some value => simpa [Header.argument, hkey] using hvalue value rfl

theorem written_of_not_mem {s : List Char} (h : ',' ∉ s) :
    written s = [trim s].filter fun piece => !piece.isEmpty := by
  rw [written, pieces_of_not_mem h, List.map_singleton]

theorem written_intercalate {parts : List (List Char)} (h : ∀ part ∈ parts, ',' ∉ part) :
    written ([','].intercalate parts) = parts.flatMap written := by
  by_cases hnil : parts = []
  · -- the one piece of an empty list is empty
    subst hnil
    rfl
  · have hparts : ∀ part ∈ parts, written part = [trim part].filter fun piece => !piece.isEmpty :=
      fun part hpart => written_of_not_mem (h part hpart)
    rw [written, pieces_intercalate hnil h, List.flatMap_congr hparts, ← List.filter_flatMap,
      List.map_eq_flatMap]

/-- Each part of a list is read on its own. -/
theorem ofText_intercalate {parts : List (List Char)} (h : ∀ part ∈ parts, ',' ∉ part) :
    ofText ([','].intercalate parts) =
      .ofList (parts.flatMap fun part => (written part).map pair) := by
  rw [ofText, written_intercalate h, List.map_flatMap]

theorem map_pair_written {a : String × Option String}
    (hkey : a.1 ≠ "" ∧ trim a.1.toList = a.1.toList ∧ ',' ∉ a.1.toList ∧ ':' ∉ a.1.toList)
    (hvalue : ∀ value ∈ a.2, trim value.toList = value.toList ∧ ',' ∉ value.toList) :
    (written (Header.argument a)).map pair = [a] := by
  obtain ⟨hne, htrimKey, hcommaKey, hcolon⟩ := hkey
  have htrimValue := fun value hmem => (hvalue value hmem).1
  have hcomma := comma_not_mem_argument hcommaKey fun value hmem => (hvalue value hmem).2
  have hpiece : written (Header.argument a) = [Header.argument a] := by
    rw [written_of_not_mem hcomma, trim_argument hne htrimKey htrimValue]
    simp [argument_ne_nil hne]
  rw [hpiece, List.map_singleton, pair_argument htrimKey hcolon htrimValue]

theorem ofText_list {arguments : List (String × Option String)}
    (hkeys : ∀ a ∈ arguments,
      a.1 ≠ "" ∧ trim a.1.toList = a.1.toList ∧ ',' ∉ a.1.toList ∧ ':' ∉ a.1.toList)
    (hvalues : ∀ a ∈ arguments, ∀ value ∈ a.2,
      trim value.toList = value.toList ∧ ',' ∉ value.toList) :
    ofText (Header.list arguments) = .ofList arguments := by
  have hcomma : ∀ part ∈ arguments.map Header.argument, ',' ∉ part := by
    intro part hpart
    obtain ⟨a, ha, rfl⟩ := List.mem_map.mp hpart
    exact comma_not_mem_argument (hkeys a ha).2.2.1 fun value hvalue => (hvalues a ha value hvalue).2
  have hread : ∀ a ∈ arguments, (written (Header.argument a)).map pair = [a] := fun a ha =>
    map_pair_written (hkeys a ha) (hvalues a ha)
  rw [Header.list, ofText_intercalate hcomma, List.flatMap_map, List.flatMap_congr hread,
    List.flatMap_singleton']

end Arguments

namespace Heading

variable {h : Header}

theorem ofTitle_title (hlegible : h.Legible) (arguments : Arguments) :
    ofTitle h.title arguments = ⟨h.outputKey.getD h.name, h.name, arguments⟩ := by
  obtain ⟨hname, hcolon, -⟩ := hlegible.name
  obtain ⟨outputKey, name, args⟩ := h
  cases outputKey with
  | none =>
    rw [Header.title, ofTitle, cutFirst_eq_none_iff.mpr hcolon]
    simp [hname]
  | some key =>
    obtain ⟨hkey, hkeyColon, -⟩ := hlegible.outputKey key rfl
    rw [Header.title, ofTitle, cutFirst_append hkeyColon]
    simp [hname, hkey]

theorem not_mem_title (hlegible : h.Legible) : '(' ∉ h.title := by
  obtain ⟨outputKey, name, arguments⟩ := h
  cases outputKey with
  | none => exact hlegible.name.2.2
  | some key => simpa [Header.title, (hlegible.outputKey key rfl).2.2] using hlegible.name.2.2

theorem ofWord_closed (hlegible : h.Legible) (text : List Char) :
    ofWord (h.title ++ '(' :: (text ++ [')'])) =
      ⟨h.outputKey.getD h.name, h.name, .ofText text⟩ := by
  have hclosing : cutLast ')' (text ++ [')']) = some (text, []) := cutLast_append _ (by simp)
  rw [ofWord, cutFirst_append (not_mem_title hlegible)]
  simp only [hclosing, List.append_nil]
  exact ofTitle_title hlegible _

/-- A list that nothing closes reaches to the end. -/
theorem ofWord_open (hlegible : h.Legible) {text : List Char} (hclosing : ')' ∉ text) :
    ofWord (h.title ++ '(' :: text) = ⟨h.outputKey.getD h.name, h.name, .ofText text⟩ := by
  rw [ofWord, cutFirst_append (not_mem_title hlegible)]
  simp only [cutLast_eq_none_iff.mpr hclosing]
  exact ofTitle_title hlegible _

/-- A written heading is taken apart into what it was written from. -/
theorem ofWord_word (hlegible : h.Legible) :
    ofWord h.word = ⟨h.outputKey.getD h.name, h.name, .ofList (h.arguments.getD [])⟩ := by
  cases harguments : h.arguments with
  | none =>
    rw [Header.word, harguments, ofWord, cutFirst_eq_none_iff.mpr (not_mem_title hlegible)]
    exact ofTitle_title hlegible _
  | some arguments =>
    have htext := Arguments.ofText_list (hlegible.keys arguments harguments)
      (hlegible.values arguments harguments)
    rw [Header.word, harguments, Option.getD_some, ← htext]
    exact ofWord_closed hlegible _

end Heading

/-! ### Headings of words -/

open Document

/-- A text that is not empty and holds no blank, comma, colon, parenthesis or brace. -/
structure IsWord (s : String) : Prop where
  ne_empty : s ≠ ""
  ordinary : ∀ c ∈ s.toList, isOrdinary c

instance (s : String) : Decidable (IsWord s) :=
  decidable_of_iff (s ≠ "" ∧ s.toList.all isOrdinary)
    ⟨fun h => ⟨h.1, List.all_eq_true.mp h.2⟩,
      fun h => ⟨h.ne_empty, List.all_eq_true.mpr h.ordinary⟩⟩

theorem IsWord.not_mem {s : String} (h : IsWord s) {c : Char} (hc : isOrdinary c = false) :
    c ∉ s.toList := by
  intro hmem
  rw [h.ordinary c hmem] at hc
  cases hc

theorem IsWord.trim_eq {s : String} (h : IsWord s) : trim s.toList = s.toList := by
  rw [trim_eq_self_iff]
  constructor
  · intro c hc
    exact isBlank_of_isOrdinary (h.ordinary c (List.mem_of_head? hc))
  · intro c hc
    exact isBlank_of_isOrdinary (h.ordinary c (List.mem_of_getLast? hc))

namespace Header

/-- Every part of a heading is a word. -/
structure OfWords (h : Header) : Prop where
  outputKey : ∀ key ∈ h.outputKey, IsWord key
  name : IsWord h.name
  arguments : ∀ arguments ∈ h.arguments, ∀ a ∈ arguments, IsWord a.1 ∧ ∀ value ∈ a.2, IsWord value

variable {h : Header}

theorem OfWords.legible (words : h.OfWords) : h.Legible where
  outputKey key hkey :=
    have hword := words.outputKey key hkey
    ⟨hword.trim_eq, hword.not_mem (by decide), hword.not_mem (by decide)⟩
  name := ⟨words.name.trim_eq, words.name.not_mem (by decide), words.name.not_mem (by decide)⟩
  keys arguments harguments a ha :=
    have hword := (words.arguments arguments harguments a ha).1
    ⟨hword.ne_empty, hword.trim_eq, hword.not_mem (by decide), hword.not_mem (by decide)⟩
  values arguments harguments a ha value hvalue :=
    have hword := (words.arguments arguments harguments a ha).2 value hvalue
    ⟨hword.trim_eq, hword.not_mem (by decide)⟩

theorem isStop_argument (a : String × Option String) (hkey : IsWord a.1)
    (hvalue : ∀ value ∈ a.2, IsWord value) : ∀ c ∈ argument a, Token.isStop c = false := by
  intro c hc
  obtain ⟨key, value⟩ := a
  cases value with
  | none => exact Token.isStop_of_isOrdinary (hkey.ordinary c hc)
  | some value =>
    rcases List.mem_append.mp hc with hc | hc
    · exact Token.isStop_of_isOrdinary (hkey.ordinary c hc)
    · rcases List.mem_cons.mp hc with rfl | hc
      · decide
      · exact Token.isStop_of_isOrdinary ((hvalue value rfl).ordinary c hc)

theorem isStop_list {arguments : List (String × Option String)}
    (h : ∀ a ∈ arguments, ∀ c ∈ argument a, Token.isStop c = false) :
    ∀ c ∈ list arguments, Token.isStop c = false :=
  forall_mem_intercalate (by decide) (List.forall_mem_map.mpr h)

theorem OfWords.isStop_title (words : h.OfWords) : ∀ c ∈ h.title, Token.isStop c = false := by
  -- a title is laid out like an argument whose value is the name
  obtain ⟨outputKey, name, arguments⟩ := h
  cases outputKey with
  | none => exact fun c hc => Token.isStop_of_isOrdinary (words.name.ordinary c hc)
  | some key =>
    have hkey : IsWord key := words.outputKey key rfl
    have hname : ∀ value ∈ some name, IsWord value := by
      intro value hvalue
      cases hvalue
      exact words.name
    exact isStop_argument (key, some name) hkey hname

theorem isStop_word (htitle : ∀ c ∈ h.title, Token.isStop c = false)
    (harguments : ∀ arguments ∈ h.arguments, ∀ a ∈ arguments, ∀ c ∈ argument a,
      Token.isStop c = false) : ∀ c ∈ h.word, Token.isStop c = false := by
  cases hsome : h.arguments with
  | none => simpa [word, hsome] using htitle
  | some arguments =>
    have hlist := isStop_list (harguments arguments hsome)
    intro c hc
    simp only [word, hsome, List.mem_append, List.mem_cons, List.not_mem_nil, or_false] at hc
    rcases hc with hc | rfl | hc | rfl
    · exact htitle c hc
    · decide
    · exact hlist c hc
    · decide

theorem OfWords.isStop_word (words : h.OfWords) : ∀ c ∈ h.word, Token.isStop c = false := by
  refine Header.isStop_word words.isStop_title fun arguments harguments a ha => ?_
  obtain ⟨hkey, hvalue⟩ := words.arguments arguments harguments a ha
  exact isStop_argument a hkey hvalue

theorem OfWords.getLast?_word (words : h.OfWords) : ∃ c, h.word.getLast? = some c ∧ c ≠ ':' := by
  have hname : h.name.toList ≠ [] := by simpa using words.name.ne_empty
  have hlast : ∃ c, h.name.toList.getLast? = some c ∧ c ≠ ':' := by
    cases hlast : h.name.toList.getLast? with
    | none => exact absurd (List.getLast?_eq_none_iff.mp hlast) hname
    | some c =>
      refine ⟨c, rfl, ?_⟩
      rintro rfl
      exact words.name.not_mem (by decide) (List.mem_of_getLast? hlast)
  obtain ⟨outputKey, name, arguments⟩ := h
  cases arguments with
  | some arguments =>
    exact ⟨')', by simp [word, List.getLast?_append, List.getLast?_cons], by decide⟩
  | none =>
    cases outputKey with
    | none => exact hlast
    | some key =>
      obtain ⟨c, hc, hcolon⟩ := hlast
      exact ⟨c, by simp [word, title, List.getLast?_append, List.getLast?_cons, hc], hcolon⟩

end Header

end NestedQuery
