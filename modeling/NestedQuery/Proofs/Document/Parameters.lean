import Mathlib.Data.List.Nodup
import NestedQuery.Proofs.Document.Layout
import NestedQuery.Proofs.Document.Neighbours
import NestedQuery.Proofs.Document.References
import NestedQuery.Proofs.Keyed

/-!
# Arguments that are given by variables

The value of a variable is percent encoded, so it is one run of ordinary characters. It may be an
empty one, and then the space behind it stands behind a colon, where it separates nothing: the
argument takes in the text of the next one (`Parameter.read`).

## Main results

- `Parameter.substitute_text`: every reference is replaced by the value of its own variable.
- `Parameter.scan_flatten_text`: the tokens of the document with the values in it.
-/

namespace NestedQuery

open Text Document

/-! ### Documents with parameters -/

/-- A word that is no reference and holds none. -/
structure IsLiteral (s : String) : Prop where
  word : IsWord s
  dollar : '$' ∉ s.toList

instance (s : String) : Decidable (IsLiteral s) :=
  decidable_of_iff (IsWord s ∧ '$' ∉ s.toList) ⟨fun h => ⟨h.1, h.2⟩, fun h => ⟨h.word, h.dollar⟩⟩

/-- An argument that is given by a variable. -/
structure Parameter where
  key : String
  -- of the variable
  name : String
  value : String

namespace Parameter

def reference (p : Parameter) : List Char := '$' :: p.name.toList

def encoded (p : Parameter) : List Char := Percent.encode p.value.toList

/-- The argument that the parameter is meant to be. -/
def argument (p : Parameter) : String × Option String := (p.key, some (.ofList p.encoded))

/-- The variables of a request with these parameters. -/
def bindings (ps : List Parameter) : Variables := .ofList (ps.map fun p => (p.name, .str p.value))

/-- Every key and a text behind it, a space between them. -/
def spaced (shown : Parameter → List Char) (ps : List Parameter) : List Char :=
  [' '].intercalate (ps.map fun p => p.key.toList ++ ':' :: shown p)

/-- The document `{ entity(key:text key:text) { field } }`. -/
def text (entity field : String) (shown : Parameter → List Char) (ps : List Parameter) :
    List Char :=
  braced (entity.toList ++ '(' :: (spaced shown ps ++ ')' :: ' ' :: braced field.toList))

theorem spaced_cons_cons (shown : Parameter → List Char) (p q : Parameter) (ps : List Parameter) :
    spaced shown (p :: q :: ps) =
      (p.key.toList ++ ':' :: shown p) ++ ' ' :: spaced shown (q :: ps) := by
  rw [spaced, List.map_cons, List.map_cons, List.intercalate_cons_cons, List.append_assoc]
  rfl

variable {entity field : String} {ps : List Parameter}

theorem replace_spaced {name : List Char} (hname : ∀ c ∈ name, isOrdinary c) (value : List Char)
    (keys : ∀ p ∈ ps, '$' ∉ p.key.toList) (shown : Parameter → List Char) :
    Variables.replace name value (spaced shown ps) =
      spaced (fun p => Variables.replace name value (shown p)) ps := by
  induction ps with
  | nil => exact Variables.replace_nil name value
  | cons p ps ih =>
    have hargument : Variables.replace name value (p.key.toList ++ ':' :: shown p) =
        p.key.toList ++ ':' :: Variables.replace name value (shown p) := by
      rw [Variables.replace_append_cons hname _ (by decide),
        Variables.replace_eq_self (keys p List.mem_cons_self)]
    cases ps with
    | nil => simpa [spaced] using hargument
    | cons q ps =>
      rw [spaced_cons_cons, spaced_cons_cons, Variables.replace_append_cons hname _ (by decide),
        hargument, ih fun p hp => keys p (List.mem_cons_of_mem _ hp)]

/-- A replacement changes the text of a document behind its keys alone. -/
theorem replace_text {name : List Char} (hname : ∀ c ∈ name, isOrdinary c) (value : List Char)
    (hentity : '$' ∉ entity.toList) (hfield : '$' ∉ field.toList)
    (keys : ∀ p ∈ ps, '$' ∉ p.key.toList) (shown : Parameter → List Char) :
    Variables.replace name value (text entity field shown ps) =
      text entity field (fun p => Variables.replace name value (shown p)) ps := by
  have hclosing : '$' ∉ braced field.toList ++ [' ', '\x7d'] := by
    simp [braced, hfield]
  have htext : ∀ shown : Parameter → List Char, text entity field shown ps =
      '\x7b' :: ' ' :: (entity.toList ++
        '(' :: (spaced shown ps ++ ')' :: ' ' :: (braced field.toList ++ [' ', '\x7d']))) := by
    intro shown
    simp [text, braced]
  rw [htext, htext, Variables.replace_cons hname (by decide),
    Variables.replace_cons hname (by decide), Variables.replace_append_cons hname _ (by decide),
    Variables.replace_append_cons hname _ (by decide), Variables.replace_cons hname (by decide),
    Variables.replace_eq_self hentity, Variables.replace_eq_self hclosing,
    replace_spaced hname value keys]

theorem replaceAll_text {vs : List (String × Json)}
    (names : ∀ v ∈ vs, ∀ c ∈ v.1.toList, isOrdinary c) (hentity : '$' ∉ entity.toList)
    (hfield : '$' ∉ field.toList) (keys : ∀ p ∈ ps, '$' ∉ p.key.toList)
    (shown : Parameter → List Char) :
    Variables.replaceAll vs (text entity field shown ps) =
      text entity field (fun p => Variables.replaceAll vs (shown p)) ps := by
  induction vs generalizing shown with
  | nil => rfl
  | cons v vs ih =>
    rw [Variables.replaceAll, List.foldl_cons,
      replace_text (names v List.mem_cons_self) _ hentity hfield keys]
    exact ih (fun w hw => names w (List.mem_cons_of_mem _ hw)) _

theorem text_congr {shown shown' : Parameter → List Char} (h : ∀ p ∈ ps, shown p = shown' p) :
    text entity field shown ps = text entity field shown' ps := by
  have hmap : (ps.map fun p => p.key.toList ++ ':' :: shown p) =
      ps.map fun p => p.key.toList ++ ':' :: shown' p :=
    List.map_congr_left fun p hp => by rw [h p hp]
  rw [text, text, spaced, spaced, hmap]

theorem mem_bindings (distinct : (ps.map (·.name)).Nodup) {v : String × Json} :
    v ∈ (bindings ps).toList ↔ ∃ p ∈ ps, (p.name, .str p.value) = v := by
  have hperm : (bindings ps).toList.Perm (ps.map fun p => (p.name, Json.str p.value)) :=
    Ordered.perm_ofList (by simpa [Function.comp_def] using distinct)
  rw [hperm.mem_iff, List.mem_map]

/-- The parts of a document can be told apart, and so can its references. -/
structure Fits (entity field : String) (ps : List Parameter) : Prop where
  entity : IsLiteral entity
  field : IsLiteral field
  keys : ∀ p ∈ ps, IsLiteral p.key
  keys_distinct : (ps.map (·.key)).Nodup
  names : ∀ p ∈ ps, p.name.toList.all Variables.isNameChar
  names_distinct : (ps.map (·.name)).Nodup
  -- no name is the beginning of another one
  names_apart : ∀ p ∈ ps, ∀ q ∈ ps, p.name.toList <+: q.name.toList → p.name = q.name

/-- Every reference is replaced by the value of its own variable. -/
theorem substitute_text (fits : Fits entity field ps) :
    (bindings ps).substitute (text entity field reference ps) = text entity field encoded ps := by
  have hmem : ∀ v, v ∈ (bindings ps).longestFirst ↔ ∃ p ∈ ps, (p.name, .str p.value) = v := by
    intro v
    rw [Variables.mem_longestFirst, mem_bindings fits.names_distinct]
  have hnames : ∀ v ∈ (bindings ps).longestFirst, ∀ c ∈ v.1.toList, isOrdinary c := by
    intro v hv c hc
    obtain ⟨p, hp, rfl⟩ := (hmem v).mp hv
    exact Variables.isOrdinary_of_isNameChar (List.all_eq_true.mp (fits.names p hp) c hc)
  rw [Variables.substitute_eq_replaceAll, replaceAll_text hnames fits.entity.dollar
    fits.field.dollar fun p hp => (fits.keys p hp).dollar]
  refine text_congr fun p hp => ?_
  have hdollar : '$' ∉ p.name.toList := fun hc => by
    have hname := List.all_eq_true.mp (fits.names p hp) '$' hc
    revert hname
    decide
  refine Variables.replaceAll_reference ((hmem _).mpr ⟨p, hp, rfl⟩) hdollar fun w hw hprefix => ?_
  obtain ⟨q, hq, rfl⟩ := (hmem w).mp hw
  rw [List.inj_on_of_nodup_map fits.names_distinct hq hp (fits.names_apart q hq p hp hprefix)]

/-! ### The arguments that are read -/

/-- A key without a value in front of arguments: the first of them becomes its value. -/
def takeIn (key : String) : List (String × Option String) → List (String × Option String)
  | [] => [(key, some "")]
  | a :: rest => (key, some (.ofList (Header.argument a))) :: rest

/-- The arguments that are read where the parameters stand with their values. -/
def read : List Parameter → List (String × Option String)
  | [] => []
  | p :: ps => if p.value = "" then takeIn p.key (read ps) else p.argument :: read ps

theorem header_argument (p : Parameter) :
    Header.argument p.argument = p.key.toList ++ ':' :: p.encoded := by
  rw [argument, Header.argument, String.toList_ofList]

theorem encoded_eq_nil {p : Parameter} : p.encoded = [] ↔ p.value = "" := by
  constructor
  · intro hnil
    by_contra hne
    exact Variables.encoding_percent.ne_nil _ (by simpa using hne) hnil
  · intro h
    rw [encoded, h]
    rfl

theorem takeIn_ne_nil (key : String) (arguments : List (String × Option String)) :
    takeIn key arguments ≠ [] := by
  cases arguments <;> exact List.cons_ne_nil _ _

theorem read_ne_nil (p : Parameter) (ps : List Parameter) : read (p :: ps) ≠ [] := by
  rw [read]
  split
  · exact takeIn_ne_nil _ _
  · exact List.cons_ne_nil _ _

theorem list_takeIn (key : String) {arguments : List (String × Option String)}
    (h : arguments ≠ []) :
    Header.list (takeIn key arguments) = key.toList ++ ':' :: Header.list arguments := by
  match arguments, h with
  | [a], _ => simp [takeIn, Header.list, Header.argument]
  | a :: b :: rest, _ =>
    rw [takeIn, Header.list_cons_cons, Header.list_cons_cons, Header.argument, String.toList_ofList]
    simp

/-- What is read has keys that are words, and neither blanks nor commas inside. -/
theorem read_ordinary (keys : ∀ p ∈ ps, IsWord p.key) :
    ∀ a ∈ read ps, IsWord a.1 ∧ ∀ c ∈ Header.argument a, isOrdinary c ∨ c = ':' := by
  induction ps with
  | nil => exact fun _ ha => nomatch ha
  | cons p ps ih =>
    have hkey := keys p List.mem_cons_self
    have hrest := ih fun q hq => keys q (List.mem_cons_of_mem _ hq)
    -- behind the key and its colon stands ordinary text, or an argument that was read
    have hargument : ∀ value : List Char, (∀ c ∈ value, isOrdinary c ∨ c = ':') →
        ∀ c ∈ p.key.toList ++ ':' :: value, isOrdinary c ∨ c = ':' := by
      intro value hvalue c hc
      rcases List.mem_append.mp hc with hc | hc
      · exact .inl (hkey.ordinary c hc)
      · rcases List.mem_cons.mp hc with hc | hc
        · exact .inr hc
        · exact hvalue c hc
    rw [read]
    split
    · cases hread : read ps with
      | nil =>
        rw [takeIn, List.forall_mem_singleton]
        exact ⟨hkey, hargument [] fun _ hc => nomatch hc⟩
      | cons a rest =>
        rw [hread, List.forall_mem_cons] at hrest
        rw [takeIn, List.forall_mem_cons]
        refine ⟨⟨hkey, ?_⟩, hrest.2⟩
        rw [Header.argument, String.toList_ofList]
        exact hargument _ hrest.1.2
    · rw [List.forall_mem_cons, header_argument]
      have hvalue := hargument p.encoded fun c hc =>
        .inl (Variables.encoding_percent.ordinary _ c hc)
      exact ⟨⟨hkey, hvalue⟩, hrest⟩

/-! ### The line -/

/-- A key, a colon and the value behind it are written as they stand. -/
theorem foldl_push_argument {p : Parameter} (key_word : IsWord p.key) (written : List Char)
    (depth : Nat) :
    (p.key.toList ++ ':' :: p.encoded).foldl Line.push ⟨written, depth, false⟩ =
      ⟨(Header.argument p.argument).reverse ++ written, depth, false⟩ := by
  obtain ⟨c, rest, hlast, hc⟩ := Line.reverse_isWord key_word
  have hcolon := Line.foldl_push_gap_colon (show IsGap [] by decide) (isInner_of_isOrdinary hc)
    (rest ++ written) depth
  rw [List.nil_append, List.foldl_cons, List.foldl_nil] at hcolon
  have hkey : p.key.toList.foldl Line.push ⟨written, depth, false⟩ =
      ⟨c :: (rest ++ written), depth, false⟩ := by
    rw [Line.foldl_push_isWord key_word, hlast]
    rfl
  rw [List.foldl_append, hkey, List.foldl_cons, hcolon, header_argument]
  by_cases hnil : p.encoded = []
  · simp [hnil, hlast]
  · rw [Line.foldl_push_word hnil fun c hc =>
      isInner_of_isOrdinary (Variables.encoding_percent.ordinary _ c hc)]
    simp [hlast, Line.separator]

/-- The last character of an argument is a colon just if its value is empty, and never a comma. -/
theorem reverse_argument (p : Parameter) :
    (p.value = "" ∧ (Header.argument p.argument).reverse = ':' :: p.key.toList.reverse) ∨
      (p.value ≠ "" ∧
        ∃ c rest, (Header.argument p.argument).reverse = c :: rest ∧ isInner c) := by
  rw [header_argument]
  by_cases hempty : p.value = ""
  · exact .inl ⟨hempty, by simp [encoded_eq_nil.mpr hempty]⟩
  · have hne : p.encoded.reverse ≠ [] := by simpa [encoded_eq_nil] using hempty
    obtain ⟨c, rest, hlast⟩ := List.exists_cons_of_ne_nil hne
    have hc : c ∈ p.encoded := List.mem_reverse.mp (by rw [hlast]; exact List.mem_cons_self)
    exact .inr ⟨hempty, c, rest ++ ':' :: p.key.toList.reverse, by simp [hlast],
      isInner_of_isOrdinary (Variables.encoding_percent.ordinary _ c hc)⟩

theorem list_read_singleton (p : Parameter) :
    Header.list (read [p]) = Header.argument p.argument := by
  rw [read]
  split
  · next hempty =>
    rw [header_argument, encoded_eq_nil.mpr hempty]
    simp [read, takeIn, Header.list, Header.argument]
  · simp [read, Header.list]

/-- Parameters are written in parentheses as the arguments that are read. -/
theorem foldl_push_spaced (keys : ∀ p ∈ ps, IsWord p.key) (written : List Char)
    (hnil : ps = [] → Line.dropCommas written = written) {depth : Nat} (hdepth : 0 < depth) :
    (spaced encoded ps).foldl Line.push ⟨written, depth, false⟩ =
        ⟨(Header.list (read ps)).reverse ++ written, depth, false⟩ ∧
      Line.dropCommas ((Header.list (read ps)).reverse ++ written) =
        (Header.list (read ps)).reverse ++ written := by
  induction ps generalizing written with
  | nil => exact ⟨rfl, hnil rfl⟩
  | cons p ps ih =>
    have hargument := foldl_push_argument (keys p List.mem_cons_self) written depth
    cases ps with
    | nil =>
      have hspaced : spaced encoded [p] = p.key.toList ++ ':' :: p.encoded := by simp [spaced]
      rw [list_read_singleton, hspaced]
      refine ⟨hargument, ?_⟩
      obtain ⟨-, hlast⟩ | ⟨-, c, rest, hlast, hc⟩ := p.reverse_argument
      · rw [hlast]
        rfl
      · rw [hlast, List.cons_append, Line.dropCommas_of_isInner hc]
    | cons q ps =>
      have hkeys : ∀ r ∈ q :: ps, IsWord r.key := fun r hr => keys r (List.mem_cons_of_mem _ hr)
      rw [spaced_cons_cons, List.foldl_append, hargument, List.foldl_cons, read]
      obtain ⟨hempty, hlast⟩ | ⟨hne, c, rest, hlast, hc⟩ := p.reverse_argument
      · -- behind a colon the space is dropped, and the next argument goes on as the value
        have hgap : Line.push ⟨(Header.argument p.argument).reverse ++ written, depth, false⟩ ' ' =
            ⟨(Header.argument p.argument).reverse ++ written, depth, false⟩ :=
          Line.foldl_push_gap_of_endsWith (show IsGap [' '] by decide) hdepth (by rw [hlast]; rfl)
        obtain ⟨hfold, hdrop⟩ := ih hkeys ((Header.argument p.argument).reverse ++ written)
          fun h => nomatch h
        rw [hgap, hfold, if_pos hempty, list_takeIn p.key (read_ne_nil q ps)]
        rw [hlast] at hdrop ⊢
        simpa using hdrop
      · -- behind a value the space is a comma
        have hgap : Line.push ⟨c :: (rest ++ written), depth, false⟩ ' ' =
            ⟨',' :: c :: (rest ++ written), depth, false⟩ :=
          Line.foldl_push_gap_of_isInner (show IsGap [' '] by decide) (by simp) hc _ hdepth false
        obtain ⟨hfold, hdrop⟩ := ih hkeys (',' :: c :: (rest ++ written)) fun h => nomatch h
        have hlist : Header.list (p.argument :: read (q :: ps)) =
            Header.argument p.argument ++ ',' :: Header.list (read (q :: ps)) := by
          obtain ⟨a, more, hread⟩ := List.exists_cons_of_ne_nil (read_ne_nil q ps)
          rw [hread, Header.list_cons_cons]
        rw [hlast, List.cons_append, hgap, hfold, if_neg hne, hlist]
        rw [List.reverse_append, List.reverse_cons, hlast]
        simpa using hdrop

/-- The heading that is read. -/
def header (entity : String) (ps : List Parameter) : Header := ⟨none, entity, some (read ps)⟩

theorem foldl_push_heading (entity_word : IsWord entity) (keys : ∀ p ∈ ps, IsWord p.key)
    {line : Line} (hdepth : line.depth = 0) :
    (entity.toList ++ '(' :: (spaced encoded ps ++ [')'])).foldl Line.push line =
      ⟨(header entity ps).word.reverse ++ (line.separator ++ line.written), 0, false⟩ := by
  obtain ⟨hfold, hdrop⟩ := foldl_push_spaced keys
    ('(' :: (entity.toList.reverse ++ (line.separator ++ line.written))) (fun _ => rfl)
    (Nat.succ_pos 0)
  have hword : (header entity ps).word.reverse =
      ')' :: ((Header.list (read ps)).reverse ++ '(' :: entity.toList.reverse) := by
    simp [header, Header.word, Header.title]
  rw [List.foldl_append, Line.foldl_push_isWord entity_word, hdepth, List.foldl_cons,
    Line.push_opening, List.foldl_append, hfold, List.foldl_cons, List.foldl_nil,
    Line.push_closing, hdrop, hword]
  simp

/-! ### The tokens -/

theorem legible_header (entity_word : IsWord entity) (keys : ∀ p ∈ ps, IsWord p.key) :
    (header entity ps).Legible where
  outputKey _ hkey := nomatch hkey
  name := ⟨entity_word.trim_eq, entity_word.not_mem (by decide), entity_word.not_mem (by decide)⟩
  keys arguments harguments a ha := by
    cases harguments
    have hword := (read_ordinary keys a ha).1
    exact ⟨hword.ne_empty, hword.trim_eq, hword.not_mem (by decide), hword.not_mem (by decide)⟩
  values arguments harguments a ha value hvalue := by
    cases harguments
    have hordinary : ∀ c ∈ value.toList, isOrdinary c ∨ c = ':' := by
      intro c hc
      obtain ⟨key, v⟩ := a
      cases hvalue
      exact (read_ordinary keys _ ha).2 c
        (List.mem_append_right _ (List.mem_cons_of_mem _ hc))
    have hblank : ∀ c ∈ value.toList, isBlank c = false := by
      intro c hc
      rcases hordinary c hc with hc | rfl
      · exact isBlank_of_isOrdinary hc
      · decide
    refine ⟨trim_eq_self_iff.mpr ⟨fun c hc => hblank c (List.mem_of_head? hc),
      fun c hc => hblank c (List.mem_of_getLast? hc)⟩, fun hcomma => ?_⟩
    rcases hordinary ',' hcomma with hc | hc
    · cases hc
    · cases hc

theorem isStop_header (entity_word : IsWord entity) (keys : ∀ p ∈ ps, IsWord p.key) :
    ∀ c ∈ (header entity ps).word, Token.isStop c = false := by
  apply Header.isStop_word
  · exact fun c hc => Token.isStop_of_isOrdinary (entity_word.ordinary c hc)
  · intro arguments harguments a ha c hc
    cases harguments
    rcases (read_ordinary keys a ha).2 c hc with hc | rfl
    · exact Token.isStop_of_isOrdinary hc
    · decide

/-- The one root of a document with parameters. -/
def selection (entity field : String) (ps : List Parameter) : Selection (List Char) :=
  .node (header entity ps).word (.field field .nil) .nil

/-- The tokens of a document with the values in it are its heading and its field. -/
theorem scan_flatten_text (entity_word : IsWord entity) (field_word : IsWord field)
    (keys : ∀ p ∈ ps, IsWord p.key) :
    Token.scan (flatten (text entity field encoded ps)) = (selection entity field ps).document := by
  have hempty : Line.empty.Holds [] := ⟨rfl, rfl, rfl⟩
  have hstart : Line.empty.Fresh := by
    intro c hc
    cases hc
  have hne : (header entity ps).word ≠ [] := by simp [header, Header.word]
  have hlast : (header entity ps).word.getLast? ≠ some ':' := by
    simp [header, Header.word, List.getLast?_append, List.getLast?_cons]
  have hspace : IsGap [' '] := by decide
  have hfield : Selection.Spells (.field field .nil) (field.toList ++ ([' '] ++ [])) :=
    .field field_word hspace (by simp) .nil
  -- the heading and its brace, then the field, then the brace of the node and that of the document
  have hword := hempty.word hstart hne (isStop_header entity_word keys) hlast
  rw [← foldl_push_heading entity_word keys hempty.depth] at hword
  obtain ⟨hopening, hfresh⟩ := (hword.gap hspace).brace (show isInner '\x7b' by decide) (by decide)
  have hinner := hfield.holds (hopening.gap hspace) fun _ =>
    hopening.fresh_gap hspace fun _ => hfresh
  obtain ⟨hclosing, -⟩ := hinner.brace (show isInner '\x7d' by decide) (by decide)
  obtain ⟨hend, -⟩ := (hclosing.gap hspace).brace (show isInner '\x7d' by decide) (by decide)
  have htext : (entity.toList ++ '(' :: (spaced encoded ps ++ ')' :: ' ' :: braced field.toList)) ++
      [' ', '\x7d'] =
      (entity.toList ++ '(' :: (spaced encoded ps ++ [')'])) ++ ([' '] ++ '\x7b' :: ([' '] ++
        ((field.toList ++ ([' '] ++ [])) ++ '\x7d' :: ([' '] ++ ['\x7d'])))) := by
    simp [braced]
  rw [scan_flatten, text, plain_braced, htext, List.foldl_append, List.foldl_append,
    List.foldl_cons, List.foldl_append, List.foldl_append, List.foldl_cons, List.foldl_append]
  simpa [selection, Selection.document, Selection.tokens, Selection.map, Token.ofStop] using
    hend.tokens

end Parameter

end NestedQuery
