import NestedQuery.Proofs.Document.Header
import NestedQuery.Proofs.Document.Selection

/-!
# Layouts

One selection can be laid out in many ways: gaps of blanks and commas have to stand between
neighbouring words and arguments, and may stand beside braces and colons and inside parentheses.
Every layout is written on a line with the same tokens, those of the selection with its headings
as words (`Selection.Spells.holds`).
-/

namespace NestedQuery

open Text Document

/-- A text of blanks and commas. -/
def IsGap (s : List Char) : Prop := ∀ c ∈ s, isGap c

instance (s : List Char) : Decidable (IsGap s) :=
  decidable_of_iff (s.all isGap) List.all_eq_true

/-! ### The layouts of a selection -/

namespace Header

inductive SpellsArgument : String × Option String → List Char → Prop where
  | bare {key : String} (key_word : IsWord key) : SpellsArgument (key, none) key.toList
  | pair {key value : String} {before behind : List Char} (key_word : IsWord key)
      (value_word : IsWord value) (gap_before : IsGap before) (gap_behind : IsGap behind) :
      SpellsArgument (key, some value) (key.toList ++ before ++ ':' :: (behind ++ value.toList))

/-- Arguments, a gap behind each of them; only the last gap may be empty. -/
inductive SpellsArguments : List (String × Option String) → List Char → Prop where
  | nil : SpellsArguments [] []
  | cons {a : String × Option String} {rest : List (String × Option String)}
      {text gap more : List Char} (argument : SpellsArgument a text) (is_gap : IsGap gap)
      (apart : rest ≠ [] → gap ≠ []) (arguments : SpellsArguments rest more) :
      SpellsArguments (a :: rest) (text ++ (gap ++ more))

/-- A name, perhaps behind an output key and a colon. -/
inductive SpellsTitle : Option String → String → List Char → Prop where
  | name {name : String} (name_word : IsWord name) : SpellsTitle none name name.toList
  | keyed {key name : String} {before behind : List Char} (key_word : IsWord key)
      (name_word : IsWord name) (gap_before : IsGap before) (gap_behind : IsGap behind) :
      SpellsTitle (some key) name (key.toList ++ before ++ ':' :: (behind ++ name.toList))

inductive Spells : Header → List Char → Prop where
  | title {outputKey : Option String} {name : String} {text : List Char}
      (spelled : SpellsTitle outputKey name text) : Spells ⟨outputKey, name, none⟩ text
  | list {outputKey : Option String} {name : String} {text before start listed : List Char}
      {arguments : List (String × Option String)} (spelled : SpellsTitle outputKey name text)
      (gap_before : IsGap before) (gap_start : IsGap start)
      (arguments_spelled : SpellsArguments arguments listed) :
      Spells ⟨outputKey, name, some arguments⟩
        (text ++ (before ++ '(' :: (start ++ (listed ++ [')']))))

end Header

namespace Selection

/-- Fields and nodes, a gap behind each of them; between a field and what follows it has to be
one. -/
inductive Spells : Selection Header → List Char → Prop where
  | nil : Spells .nil []
  | field {name : String} {rest : Selection Header} {gap text : List Char}
      (name_word : IsWord name) (is_gap : IsGap gap) (apart : rest ≠ .nil → gap ≠ [])
      (rest_spelled : Spells rest text) : Spells (.field name rest) (name.toList ++ (gap ++ text))
  | node {h : Header} {inner rest : Selection Header}
      {heading before start body behind text : List Char} (heading_spelled : h.Spells heading)
      (gap_before : IsGap before) (gap_start : IsGap start) (inner_spelled : Spells inner body)
      (gap_behind : IsGap behind) (rest_spelled : Spells rest text) :
      Spells (.node h inner rest)
        (heading ++ (before ++ '\x7b' :: (start ++ (body ++ '\x7d' :: (behind ++ text)))))

/-- A selection between the braces of a document, with blanks around them. -/
inductive SpellsDocument : Selection Header → List Char → Prop where
  | braces {s : Selection Header} {before start body behind : List Char}
      (blank_before : ∀ c ∈ before, isBlank c) (gap_start : IsGap start) (spelled : s.Spells body)
      (blank_behind : ∀ c ∈ behind, isBlank c) :
      SpellsDocument s (before ++ ('\x7b' :: (start ++ (body ++ ['\x7d'])) ++ behind))

end Selection

/-! ### Gaps on a line -/

namespace Document.Line

/-- Outside of parentheses a gap leaves a separator due, and nothing else. -/
theorem foldl_push_gap {gap : List Char} (h : IsGap gap) (written : List Char) (pending : Bool) :
    gap.foldl push ⟨written, 0, pending⟩ =
      ⟨written, 0, if gap.isEmpty then pending else !written.isEmpty⟩ := by
  induction gap generalizing pending with
  | nil => rfl
  | cons c rest ih =>
    have hpush : push ⟨written, 0, pending⟩ c = ⟨written, 0, !written.isEmpty⟩ := by
      rw [push_gap (h c List.mem_cons_self)]
      rfl
    rw [List.foldl_cons, hpush, ih fun d hd => h d (List.mem_cons_of_mem _ hd)]
    simp

/-- In parentheses a gap vanishes behind a parenthesis, a comma or a colon. -/
theorem foldl_push_gap_of_endsWith {gap : List Char} (h : IsGap gap) {line : Line}
    (hdepth : 0 < line.depth)
    (hends : line.endsWith '(' || line.endsWith ',' || line.endsWith ':') :
    gap.foldl push line = line := by
  induction gap with
  | nil => rfl
  | cons c rest ih =>
    rw [List.foldl_cons, push_gap (h c List.mem_cons_self), if_pos hdepth, if_pos hends]
    exact ih fun d hd => h d (List.mem_cons_of_mem _ hd)

/-- In parentheses a gap behind a word becomes one comma. -/
theorem foldl_push_gap_of_isInner {gap : List Char} (h : IsGap gap) (hne : gap ≠ []) {c : Char}
    (hc : isInner c) (written : List Char) {depth : Nat} (hdepth : 0 < depth) (pending : Bool) :
    gap.foldl push ⟨c :: written, depth, pending⟩ = ⟨',' :: c :: written, depth, pending⟩ := by
  cases gap with
  | nil => exact absurd rfl hne
  | cons d rest =>
    have hends : (endsWith '(' ⟨c :: written, depth, pending⟩ ||
        endsWith ',' ⟨c :: written, depth, pending⟩ ||
        endsWith ':' ⟨c :: written, depth, pending⟩) = false := by
      simp [endsWith, ne_of_isInner hc]
    rw [List.foldl_cons, push_gap (h d List.mem_cons_self), if_pos hdepth, hends,
      if_neg (by decide)]
    exact foldl_push_gap_of_endsWith (fun e he => h e (List.mem_cons_of_mem _ he)) hdepth rfl

theorem dropCommas_of_isInner {c : Char} (hc : isInner c) (written : List Char) :
    dropCommas (c :: written) = c :: written :=
  dropCommas_of_head? (by simpa using (ne_of_isInner hc).2.2.2)

/-! ### Words on a line -/

theorem foldl_push_isWord {s : String} (h : IsWord s) (line : Line) :
    s.toList.foldl push line =
      ⟨s.toList.reverse ++ (line.separator ++ line.written), line.depth, false⟩ :=
  foldl_push_word (by simpa using h.ne_empty) fun c hc => isInner_of_isOrdinary (h.ordinary c hc)

theorem reverse_isWord {s : String} (h : IsWord s) :
    ∃ c rest, s.toList.reverse = c :: rest ∧ isOrdinary c := by
  have hne : s.toList.reverse ≠ [] := by simpa using h.ne_empty
  obtain ⟨c, rest, heq⟩ := List.exists_cons_of_ne_nil hne
  have hmem : c ∈ s.toList := List.mem_reverse.mp (by rw [heq]; exact List.mem_cons_self)
  exact ⟨c, rest, heq, h.ordinary c hmem⟩

/-- A colon drops the gap before it. -/
theorem foldl_push_gap_colon {gap : List Char} (h : IsGap gap) {c : Char} (hc : isInner c)
    (written : List Char) (depth : Nat) :
    (gap ++ [':']).foldl push ⟨c :: written, depth, false⟩ =
      ⟨':' :: c :: written, depth, false⟩ := by
  rw [List.foldl_append]
  by_cases hdepth : 0 < depth
  · by_cases hne : gap = []
    · subst hne
      rw [List.foldl_nil, List.foldl_cons, List.foldl_nil, push_colon, if_pos hdepth,
        dropCommas_of_isInner hc]
    · have hdrop : dropCommas (',' :: c :: written) = c :: written :=
        dropCommas_of_isInner hc written
      rw [foldl_push_gap_of_isInner h hne hc written hdepth, List.foldl_cons, List.foldl_nil,
        push_colon, if_pos hdepth, hdrop]
  · obtain rfl : depth = 0 := Nat.eq_zero_of_not_pos hdepth
    rw [foldl_push_gap h]
    rfl

/-- A gap behind a colon leaves nothing that a word is written behind. -/
theorem foldl_push_colon_gap {gap : List Char} (h : IsGap gap) (written : List Char) (depth : Nat) :
    ∃ pending,
      gap.foldl push ⟨':' :: written, depth, false⟩ = ⟨':' :: written, depth, pending⟩ := by
  by_cases hdepth : 0 < depth
  · exact ⟨false, foldl_push_gap_of_endsWith h hdepth rfl⟩
  · obtain rfl : depth = 0 := Nat.eq_zero_of_not_pos hdepth
    exact ⟨_, foldl_push_gap h _ _⟩

theorem foldl_push_pair {key value : String} {before behind : List Char} (hkey : IsWord key)
    (hvalue : IsWord value) (hbefore : IsGap before) (hbehind : IsGap behind) (line : Line) :
    (key.toList ++ before ++ ':' :: (behind ++ value.toList)).foldl push line =
      ⟨(key.toList ++ ':' :: value.toList).reverse ++ (line.separator ++ line.written), line.depth,
        false⟩ := by
  obtain ⟨c, rest, hlast, hc⟩ := reverse_isWord hkey
  obtain ⟨pending, hgap⟩ := foldl_push_colon_gap hbehind
    (c :: (rest ++ (line.separator ++ line.written))) line.depth
  have hcolon := foldl_push_gap_colon hbefore (isInner_of_isOrdinary hc)
    (rest ++ (line.separator ++ line.written)) line.depth
  have hseparator : (⟨':' :: c :: (rest ++ (line.separator ++ line.written)), line.depth,
      pending⟩ : Line).separator = [] := by
    simp [separator, endsWith]
  have htext : key.toList ++ before ++ ':' :: (behind ++ value.toList) =
      key.toList ++ ((before ++ [':']) ++ (behind ++ value.toList)) := by simp
  rw [htext, List.foldl_append, foldl_push_isWord hkey, hlast, List.foldl_append, List.cons_append,
    hcolon, List.foldl_append, hgap, foldl_push_isWord hvalue, hseparator]
  simp [hlast]

/-! ### Headings on a line -/

open Header

theorem foldl_push_argument {a : String × Option String} {text : List Char}
    (h : SpellsArgument a text) (written : List Char) (depth : Nat) :
    text.foldl push ⟨written, depth, false⟩ =
      ⟨(argument a).reverse ++ written, depth, false⟩ := by
  cases h with
  | bare key_word => exact foldl_push_isWord key_word _
  | pair key_word value_word gap_before gap_behind =>
    exact foldl_push_pair key_word value_word gap_before gap_behind _

theorem reverse_argument {a : String × Option String} {text : List Char}
    (h : SpellsArgument a text) : ∃ c rest, (argument a).reverse = c :: rest ∧ isInner c := by
  cases h with
  | bare key_word =>
    obtain ⟨c, rest, hlast, hc⟩ := reverse_isWord key_word
    exact ⟨c, rest, hlast, isInner_of_isOrdinary hc⟩
  | @pair key value _ _ _ value_word _ _ =>
    obtain ⟨c, rest, hlast, hc⟩ := reverse_isWord value_word
    exact ⟨c, rest ++ ':' :: key.toList.reverse, by simp [argument, hlast],
      isInner_of_isOrdinary hc⟩

/-- Arguments are written with one comma between them, and perhaps one behind. -/
theorem foldl_push_arguments {arguments : List (String × Option String)} {text : List Char}
    (h : SpellsArguments arguments text) (written : List Char)
    (hnil : arguments = [] → dropCommas written = written) {depth : Nat} (hdepth : 0 < depth) :
    ∃ listed, text.foldl push ⟨written, depth, false⟩ = ⟨listed, depth, false⟩ ∧
      dropCommas listed = (list arguments).reverse ++ written := by
  induction h generalizing written with
  | nil => exact ⟨written, rfl, hnil rfl⟩
  | @cons a rest text gap more argument is_gap apart arguments ih =>
    obtain ⟨c, before, hlast, hc⟩ := reverse_argument argument
    rw [List.foldl_append, foldl_push_argument argument, List.foldl_append]
    by_cases hgap : gap = []
    · -- without a gap this was the last argument
      have hrest : rest = [] := Classical.byContradiction fun hne => apart hne hgap
      subst hgap hrest
      cases arguments
      refine ⟨_, rfl, ?_⟩
      rw [hlast, List.cons_append, dropCommas_of_isInner hc]
      simp [list, hlast]
    · -- the gap is a comma, which stays if another argument follows
      rw [hlast, List.cons_append, foldl_push_gap_of_isInner is_gap hgap hc _ hdepth]
      cases rest with
      | nil =>
        cases arguments
        refine ⟨_, rfl, ?_⟩
        have hdrop := dropCommas_of_isInner hc (before ++ written)
        simpa [list, hlast, dropCommas] using hdrop
      | cons b rest =>
        obtain ⟨listed, hfold, hlisted⟩ :=
          ih (',' :: c :: (before ++ written)) (by simp)
        refine ⟨listed, hfold, ?_⟩
        rw [hlisted, list_cons_cons]
        simp [hlast]

theorem foldl_push_title {outputKey : Option String} {name : String} {text : List Char}
    (h : SpellsTitle outputKey name text) (arguments : Option (List (String × Option String)))
    (line : Line) :
    text.foldl push line =
      ⟨(title ⟨outputKey, name, arguments⟩).reverse ++ (line.separator ++ line.written), line.depth,
        false⟩ := by
  cases h with
  | name name_word => exact foldl_push_isWord name_word line
  | keyed key_word name_word gap_before gap_behind =>
    exact foldl_push_pair key_word name_word gap_before gap_behind line

/-- A heading is written as its word, however it is laid out. -/
theorem foldl_push_heading {h : Header} {text : List Char} (spelled : h.Spells text) {line : Line}
    (hdepth : line.depth = 0) :
    text.foldl push line = ⟨h.word.reverse ++ (line.separator ++ line.written), 0, false⟩ := by
  cases spelled with
  | title spelled => rw [foldl_push_title spelled none, hdepth, word]
  | @list outputKey name text before start listed arguments spelled gap_before gap_start
      arguments_spelled =>
    have hword : (word ⟨outputKey, name, some arguments⟩).reverse =
        ')' :: ((list arguments).reverse ++
          '(' :: (title ⟨outputKey, name, some arguments⟩).reverse) := by
      simp [word]
    have hgap := foldl_push_gap gap_before
      ((title ⟨outputKey, name, some arguments⟩).reverse ++ (line.separator ++ line.written)) false
    -- the parenthesis drops the separator that is due before it
    rw [List.foldl_append, foldl_push_title spelled (some arguments), hdepth, List.foldl_append,
      hgap, List.foldl_cons, push_opening, List.foldl_append,
      foldl_push_gap_of_endsWith gap_start (Nat.succ_pos 0) rfl, List.foldl_append]
    obtain ⟨listed', hfold, hlisted⟩ := foldl_push_arguments arguments_spelled
      ('(' :: ((title ⟨outputKey, name, some arguments⟩).reverse ++
        (line.separator ++ line.written))) (fun _ => rfl) (Nat.succ_pos 0)
    rw [hfold, List.foldl_cons, List.foldl_nil, push_closing, hlisted, hword]
    simp

/-! ### Tokens of a line -/

/-- The line is outside of parentheses and not behind a colon, and has the given tokens. -/
structure Holds (line : Line) (tokens : List Token) : Prop where
  depth : line.depth = 0
  colon : line.endsWith ':' = false
  tokens : Token.cut line.written.reverse = tokens

/-- What is written next begins a word of its own. -/
def Fresh (line : Line) : Prop := ∀ c ∈ (line.separator ++ line.written).head?, Token.isStop c

variable {line : Line} {tokens : List Token}

theorem cut_separator (line : Line) :
    Token.cut (line.separator ++ line.written).reverse = Token.cut line.written.reverse := by
  have hblanks : ∀ c ∈ line.separator.reverse, isBlank c := by
    rw [separator]
    split
    · exact List.all_eq_true.mp (by decide)
    · simp
  rw [List.reverse_append, Token.cut, Token.cutFrom_append_blanks hblanks, Token.cut]

theorem Holds.gap (h : Holds line tokens) {gap : List Char} (is_gap : IsGap gap) :
    Holds (gap.foldl push line) tokens := by
  obtain ⟨written, depth, pending⟩ := line
  obtain rfl : depth = 0 := h.depth
  rw [foldl_push_gap is_gap]
  exact ⟨rfl, h.colon, h.tokens⟩

theorem Holds.fresh_gap (h : Holds line tokens) {gap : List Char} (is_gap : IsGap gap)
    (hfresh : gap = [] → Fresh line) : Fresh (gap.foldl push line) := by
  obtain ⟨written, depth, pending⟩ := line
  obtain rfl : depth = 0 := h.depth
  have hcolon : endsWith ':' ⟨written, 0, !written.isEmpty⟩ = false := h.colon
  rw [foldl_push_gap is_gap]
  by_cases hnil : gap = []
  · subst hnil
    exact hfresh rfl
  · intro c hc
    cases written with
    | nil => simp [hnil, separator] at hc
    | cons d rest =>
      simp only [List.isEmpty_iff, hnil, if_false, separator, hcolon] at hc
      cases hc
      decide

/-- A word that is written behind a separator or a brace is a token of its own. -/
theorem Holds.word (h : Holds line tokens) (hfresh : Fresh line) {word : List Char}
    (hne : word ≠ []) (hword : ∀ c ∈ word, Token.isStop c = false)
    (hcolon : word.getLast? ≠ some ':') :
    Holds ⟨word.reverse ++ (line.separator ++ line.written), 0, false⟩
      (tokens ++ [.word word]) := by
  have hends : (word.reverse ++ (line.separator ++ line.written)).head? = word.getLast? := by
    rw [← List.head?_reverse]
    cases hreverse : word.reverse with
    | nil => exact absurd (List.reverse_eq_nil_iff.mp hreverse) hne
    | cons c rest => rfl
  have htoken : Token.cut word = [.word word] := by
    rw [Token.cut_word hword]
    simp [Token.ofRead, hne]
  refine ⟨rfl, ?_, ?_⟩
  · rw [endsWith, hends]
    simpa using hcolon
  · -- the line ends at a stop, at which it is cut apart from the word
    have htokens := (cut_separator line).trans h.tokens
    rw [List.reverse_append, List.reverse_reverse]
    cases hlast : line.separator ++ line.written with
    | nil =>
      rw [hlast] at htokens
      rw [← htokens, List.reverse_nil, List.nil_append, htoken]
      rfl
    | cons c rest =>
      have hc : Token.isStop c := hfresh c (by rw [hlast]; rfl)
      rw [hlast, List.reverse_cons, Token.cut_append_cons _ hc] at htokens
      rw [List.reverse_cons, List.append_assoc, List.singleton_append, Token.cut_append_cons _ hc,
        htoken, ← htokens]
      simp [Token.cut, Token.cutFrom, Token.ofRead]

theorem Holds.brace (h : Holds line tokens) {c : Char} (hinner : isInner c) (hc : Token.isStop c) :
    Holds (line.push c) (tokens ++ Token.ofStop c) ∧ Fresh (line.push c) := by
  have hcolon : c ≠ ':' := by
    rintro rfl
    cases hinner
  have htokens := (cut_separator line).trans h.tokens
  rw [push_inner hinner, h.depth]
  refine ⟨⟨rfl, by simpa [endsWith] using hcolon, ?_⟩, ?_⟩
  · rw [List.reverse_cons, Token.cut_append_cons _ hc, htokens]
    simp [Token.cut, Token.cutFrom, Token.ofRead]
  · intro d hd
    cases hd
    exact hc

end Document.Line

/-! ### Words of headings -/

namespace Header

theorem SpellsArguments.words {arguments : List (String × Option String)} {text : List Char}
    (h : SpellsArguments arguments text) :
    ∀ a ∈ arguments, IsWord a.1 ∧ ∀ value ∈ a.2, IsWord value := by
  induction h with
  | nil => exact fun _ ha => nomatch ha
  | cons argument _ _ _ ih =>
    intro a ha
    rcases List.mem_cons.mp ha with rfl | ha
    · cases argument with
      | bare key_word => exact ⟨key_word, fun _ hvalue => nomatch hvalue⟩
      | pair key_word value_word _ _ =>
        refine ⟨key_word, ?_⟩
        intro value hvalue
        cases hvalue
        exact value_word
    · exact ih a ha

theorem SpellsTitle.words {outputKey : Option String} {name : String} {text : List Char}
    (h : SpellsTitle outputKey name text) : IsWord name ∧ ∀ key ∈ outputKey, IsWord key := by
  cases h with
  | name name_word => exact ⟨name_word, fun _ hkey => nomatch hkey⟩
  | keyed key_word name_word _ _ =>
    refine ⟨name_word, ?_⟩
    intro key hkey
    cases hkey
    exact key_word

theorem Spells.ofWords {h : Header} {text : List Char} (spelled : h.Spells text) : h.OfWords := by
  cases spelled with
  | title spelled => exact ⟨spelled.words.2, spelled.words.1, fun _ ha => nomatch ha⟩
  | list spelled _ _ arguments_spelled =>
    refine ⟨spelled.words.2, spelled.words.1, ?_⟩
    intro arguments ha
    cases ha
    exact arguments_spelled.words

end Header

/-! ### The tokens of a layout -/

namespace Selection

theorem Spells.ofWords {s : Selection Header} {text : List Char} (spelled : s.Spells text) :
    s.Each Header.OfWords := by
  induction spelled with
  | nil => trivial
  | field _ _ _ _ ih => exact ih
  | node heading_spelled _ _ _ _ _ ihinner ih => exact ⟨heading_spelled.ofWords, ihinner, ih⟩

theorem SpellsDocument.ofWords {s : Selection Header} {text : List Char}
    (spelled : s.SpellsDocument text) : s.Each Header.OfWords := by
  cases spelled with
  | braces _ _ spelled _ => exact spelled.ofWords

/-- However a selection is laid out, it adds its tokens to those of the line. -/
theorem Spells.holds {s : Selection Header} {text : List Char} (spelled : s.Spells text)
    {line : Line} {tokens : List Token} (h : line.Holds tokens) (hfresh : s ≠ .nil → line.Fresh) :
    (text.foldl Line.push line).Holds (tokens ++ (s.map Header.word).tokens) := by
  induction spelled generalizing line tokens with
  | nil => simpa [map, Selection.tokens] using h
  | @field name rest gap text name_word is_gap apart _ ih =>
    have hne : name.toList ≠ [] := by simpa using name_word.ne_empty
    have hstop : ∀ c ∈ name.toList, Token.isStop c = false := fun c hc =>
      Token.isStop_of_isOrdinary (name_word.ordinary c hc)
    have hcolon : name.toList.getLast? ≠ some ':' := fun hlast =>
      name_word.not_mem (by decide) (List.mem_of_getLast? hlast)
    have hword := h.word (hfresh (by simp)) hne hstop hcolon
    -- if something follows, the gap is not empty and sets it apart
    rw [List.foldl_append, Line.foldl_push_isWord name_word, h.depth, List.foldl_append]
    have hrest := ih (hword.gap is_gap) fun hrest =>
      hword.fresh_gap is_gap fun hgap => absurd hgap (apart hrest)
    simpa [map, Selection.tokens] using hrest
  | @node header inner rest heading before start body behind text heading_spelled gap_before
      gap_start _ gap_behind _ ihinner ih =>
    have words := heading_spelled.ofWords
    obtain ⟨c, hlast, hcolon⟩ := words.getLast?_word
    have hne : header.word ≠ [] := by
      intro hnil
      rw [hnil] at hlast
      cases hlast
    have hword := h.word (hfresh (by simp)) hne words.isStop_word
      (by rw [hlast]; simpa using hcolon)
    -- the heading and its brace
    obtain ⟨hopening, hfreshOpening⟩ := (hword.gap gap_before).brace (show isInner '\x7b' by decide)
      (by decide)
    -- the selection inside, and the brace that closes it
    have hinner := ihinner (hopening.gap gap_start) fun _ =>
      hopening.fresh_gap gap_start fun _ => hfreshOpening
    obtain ⟨hclosing, hfreshClosing⟩ := hinner.brace (show isInner '\x7d' by decide) (by decide)
    have hrest := ih (hclosing.gap gap_behind) fun _ =>
      hclosing.fresh_gap gap_behind fun _ => hfreshClosing
    rw [List.foldl_append, Line.foldl_push_heading heading_spelled h.depth, List.foldl_append,
      List.foldl_cons, List.foldl_append, List.foldl_append, List.foldl_cons, List.foldl_append]
    simpa [map, Selection.tokens, Token.ofStop] using hrest

/-- A document begins with a brace, and its tokens are those of its selection and of the brace that
closes it. -/
theorem SpellsDocument.tokens {s : Selection Header} {text : List Char}
    (spelled : s.SpellsDocument text) :
    ∃ rest, trim text = '\x7b' :: rest ∧
      Token.scan (flatten ('\x7b' :: rest)) = (s.map Header.word).tokens ++ [.closing] := by
  cases spelled with
  | @braces before start body behind blank_before gap_start spelled blank_behind =>
    have htrim : trim ('\x7b' :: (start ++ (body ++ ['\x7d']))) =
        '\x7b' :: (start ++ (body ++ ['\x7d'])) := by
      rw [← List.append_assoc, trim_braces]
    refine ⟨start ++ (body ++ ['\x7d']), trim_append blank_before blank_behind htrim (by simp), ?_⟩
    have hempty : Line.empty.Holds [] := ⟨rfl, rfl, rfl⟩
    have hfresh : Line.empty.Fresh := fun _ hc => nomatch hc
    have hholds := spelled.holds (hempty.gap gap_start) fun _ =>
      hempty.fresh_gap gap_start fun _ => hfresh
    obtain ⟨hclosing, -⟩ := hholds.brace (show isInner '\x7d' by decide) (by decide)
    have hbody : Document.body ('\x7b' :: (start ++ (body ++ ['\x7d']))) =
        start ++ (body ++ ['\x7d']) := rfl
    rw [scan_flatten, plain, hbody, List.foldl_append, List.foldl_append]
    simpa [Token.ofStop] using hclosing.tokens

end Selection

end NestedQuery
