import NestedQuery.Proofs.Document.Marks
import NestedQuery.Request.Variables

/-!
# Substitution and tokens

What takes the place of a reference is ordinary text, and a reference is one as well. So a
replacement changes the words of a document and nothing between them: the tokens of the new text
are the old ones with the replacement made in every word (`Variables.scan_flatten_substitute`).
-/

namespace NestedQuery

open Text Document

/-- A property of all texts holds if it holds of runs, and of a run and what follows it. -/
theorem Text.runs_induction {P : List Char → Prop} (p : Char → Bool)
    (run : ∀ r, (∀ c ∈ r, p c) → P r)
    (step : ∀ r c rest, (∀ d ∈ r, p d) → p c = false → P rest → P (r ++ c :: rest))
    (s : List Char) : P s := by
  -- the run before `s` grows until the text ends or something else follows
  have hgrow : ∀ s r, (∀ c ∈ r, p c) → P (r ++ s) ∧ P s := by
    intro s
    induction s with
    | nil =>
      intro r hr
      rw [List.append_nil]
      exact ⟨run r hr, run [] fun _ h => nomatch h⟩
    | cons c rest ih =>
      intro r hr
      cases hc : p c with
      | true =>
        have hmore : ∀ d ∈ r ++ [c], p d := by
          intro d hd
          rcases List.mem_append.mp hd with hd | hd
          · exact hr d hd
          · rw [List.mem_singleton.mp hd]
            exact hc
        have hsingle : ∀ d ∈ [c], p d := fun d hd => by rw [List.mem_singleton.mp hd]; exact hc
        refine ⟨?_, (ih [c] hsingle).1⟩
        rw [List.append_cons]
        exact (ih (r ++ [c]) hmore).1
      | false =>
        have hrest := (ih [] fun _ h => nomatch h).2
        exact ⟨step r c rest hr hc hrest, step [] c rest (fun _ h => nomatch h) hc hrest⟩
  exact (hgrow s [] fun _ h => nomatch h).2

/-- A token with its word changed. -/
def Token.mapWord (f : List Char → List Char) : Token → Token
  | word w => word (f w)
  | opening => opening
  | closing => closing

theorem Token.mapWord_comp (f g : List Char → List Char) :
    mapWord f ∘ mapWord g = mapWord (f ∘ g) := by
  funext t
  cases t with
  | word w => rfl
  | opening => rfl
  | closing => rfl

namespace Variables

/-- A name and a text for it that stay clear of the structure of a document. -/
structure Clear (name value : List Char) : Prop where
  in_name : ∀ c ∈ name, isOrdinary c
  in_value : ∀ c ∈ value, isOrdinary c
  ne_nil : value ≠ []

variable {name value : List Char}

/-! ### One replacement -/

@[simp] theorem replace_nil (name value : List Char) : replace name value [] = [] := by
  rw [replace]

theorem isPrefix_of_append_cons {u v : List Char} {d : Char} (hd : d ∉ name)
    (h : name <+: u ++ d :: v) : name <+: u := by
  have hwith : u ++ [d] <+: u ++ d :: v := by simp
  rcases List.prefix_or_prefix_of_prefix h hwith with hname | hname
  · rcases List.prefix_concat_iff.mp hname with rfl | hname
    · simp at hd
    · exact hname
  · exact absurd (hname.subset (by simp)) hd

/-- No reference reaches over a character that is not ordinary. -/
theorem replace_append_cons (hname : ∀ c ∈ name, isOrdinary c) (u : List Char) {d : Char}
    (hd : isOrdinary d = false) (v : List Char) :
    replace name value (u ++ d :: v) = replace name value u ++ d :: replace name value v := by
  have hdollar : d ≠ '$' := by
    rintro rfl
    cases hd
  have hnot : d ∉ name := by
    intro hmem
    rw [hname d hmem] at hd
    cases hd
  -- a reference in the longer text that begins in `u` ends in `u`
  fun_induction replace name value u with
  | case1 => rw [List.nil_append, replace, if_neg (fun hc => hdollar hc.1), List.nil_append]
  | case2 c rest href ih =>
    have hprefix : name <+: rest ++ d :: v := href.2.trans (List.prefix_append _ _)
    have hdrop : (rest ++ d :: v).drop name.length = rest.drop name.length ++ d :: v :=
      List.drop_append_of_le_length href.2.length_le
    rw [List.cons_append, replace, if_pos ⟨href.1, hprefix⟩, hdrop, ih, List.append_assoc]
  | case3 c rest href ih =>
    have hno : ¬(c = '$' ∧ name <+: rest ++ d :: v) := by
      rintro ⟨hc, hprefix⟩
      exact href ⟨hc, isPrefix_of_append_cons hnot hprefix⟩
    rw [List.cons_append, replace, if_neg hno, ih, List.cons_append]

theorem replace_cons (hname : ∀ c ∈ name, isOrdinary c) {d : Char} (hd : isOrdinary d = false)
    (v : List Char) : replace name value (d :: v) = d :: replace name value v := by
  have hnil : replace name value ([] ++ d :: v) = _ := replace_append_cons hname [] hd v
  rwa [replace_nil, List.nil_append, List.nil_append] at hnil

/-- A text that ends in something that is not ordinary is replaced apart from what follows. -/
theorem replace_append (hname : ∀ c ∈ name, isOrdinary c) {u : List Char}
    (hu : ∀ c ∈ u.getLast?, isOrdinary c = false) (v : List Char) :
    replace name value (u ++ v) = replace name value u ++ replace name value v := by
  cases hlast : u.getLast? with
  | none =>
    rw [List.getLast?_eq_none_iff.mp hlast, replace_nil]
    rfl
  | some d =>
    obtain ⟨before, rfl⟩ := List.getLast?_eq_some_iff.mp hlast
    have hd : isOrdinary d = false := hu d hlast
    rw [List.append_assoc, List.singleton_append, replace_append_cons hname before hd,
      replace_append_cons hname before hd, replace_nil]
    simp

theorem all_replace {p : Char → Bool} (hvalue : ∀ c ∈ value, p c) {s : List Char}
    (h : ∀ c ∈ s, p c) : ∀ c ∈ replace name value s, p c := by
  fun_induction replace name value s with
  | case1 => exact h
  | case2 c rest _ ih =>
    have hrest := ih fun d hd => h d (List.mem_cons_of_mem _ (List.mem_of_mem_drop hd))
    intro d hd
    rcases List.mem_append.mp hd with hd | hd
    · exact hvalue d hd
    · exact hrest d hd
  | case3 c rest _ ih =>
    have hrest := ih fun d hd => h d (List.mem_cons_of_mem _ hd)
    intro d hd
    rcases List.mem_cons.mp hd with rfl | hd
    · exact h d List.mem_cons_self
    · exact hrest d hd

/-- The first character stays, or is ordinary before and after. -/
theorem replace_cons_eq (h : Clear name value) (c : Char) (rest : List Char) :
    ∃ d behind, replace name value (c :: rest) = d :: behind ∧
      (d = c ∨ isOrdinary c ∧ isOrdinary d) := by
  rw [replace]
  split
  · next href =>
    cases hvalue : value with
    | nil => exact absurd hvalue h.ne_nil
    | cons d behind =>
      have hd : isOrdinary d := h.in_value d (by rw [hvalue]; exact List.mem_cons_self)
      exact ⟨d, _, rfl, .inr ⟨by rw [href.1]; decide, hd⟩⟩
  · exact ⟨c, _, rfl, .inl rfl⟩

theorem replace_eq_nil (h : Clear name value) {s : List Char} :
    replace name value s = [] ↔ s = [] := by
  cases s with
  | nil => simp
  | cons c rest =>
    obtain ⟨d, behind, heq, -⟩ := replace_cons_eq h c rest
    simp [heq]

/-- The last character stays, or is ordinary before and after. -/
theorem getLast?_replace (h : Clear name value) {c : Char} (hc : isOrdinary c = false)
    (s : List Char) : (replace name value s).getLast? = some c ↔ s.getLast? = some c := by
  induction s using Text.runs_induction isOrdinary with
  | run r hr =>
    -- both texts are ordinary to the end
    have hno : ∀ t : List Char, (∀ d ∈ t, isOrdinary d) → ¬t.getLast? = some c := by
      intro t ht hlast
      rw [ht c (List.mem_of_getLast? hlast)] at hc
      cases hc
    exact iff_of_false (hno _ (all_replace h.in_value hr)) (hno r hr)
  | step r d rest hr hd ih =>
    rw [replace_append_cons h.in_name r hd]
    cases hrest : rest with
    | nil => simp
    | cons e more =>
      obtain ⟨e', more', heq, -⟩ := replace_cons_eq h e more
      rw [hrest, heq] at ih
      rw [heq]
      simpa [List.getLast?_append, List.getLast?_cons] using ih

/-! ### The line -/

def replaced (name value : List Char) (line : Line) : Line :=
  { line with written := (replace name value line.written.reverse).reverse }

theorem endsWith_replaced (h : Clear name value) (line : Line) (c : Char)
    (hc : isOrdinary c = false) : (replaced name value line).endsWith c = line.endsWith c := by
  have hlast := getLast?_replace h hc line.written.reverse
  rw [List.getLast?_reverse] at hlast
  rw [Bool.eq_iff_iff]
  simpa [Line.endsWith, replaced] using hlast

theorem isEmpty_replaced (h : Clear name value) (line : Line) :
    (replaced name value line).written.isEmpty = line.written.isEmpty := by
  rw [Bool.eq_iff_iff]
  simp [replaced, replace_eq_nil h]

theorem dropCommas_replace (h : Clear name value) (written : List Char) :
    Line.dropCommas (replace name value written.reverse).reverse =
      (replace name value (Line.dropCommas written).reverse).reverse := by
  have hcomma : isOrdinary ',' = false := by decide
  induction written with
  | nil => simp [Line.dropCommas]
  | cons d rest ih =>
    by_cases hd : d = ','
    · subst hd
      rw [List.reverse_cons, replace_append_cons h.in_name _ hcomma, replace_nil]
      simpa [Line.dropCommas] using ih
    · -- no comma ends the line, so none ends the line that replaces it
      have hkeep : Line.dropCommas (d :: rest) = d :: rest :=
        Line.dropCommas_of_head? (by simpa using hd)
      rw [hkeep]
      apply Line.dropCommas_of_head?
      intro hlast
      rw [List.head?_reverse, getLast?_replace h hcomma, List.getLast?_reverse] at hlast
      exact hd (Option.some.inj hlast)

/-- What is written next is apart from the word before it, if there is one. -/
def Apart (line : Line) : Prop :=
  ∀ c ∈ (line.separator ++ line.written).head?, isOrdinary c = false

theorem apart_empty : Apart .empty := fun _ hc => nomatch hc

theorem separator_replaced (h : Clear name value) (line : Line) :
    (replaced name value line).separator = line.separator := by
  rw [Line.separator, Line.separator, endsWith_replaced h line ':' (by decide)]
  rfl

theorem replace_separator (h : Clear name value) (line : Line) :
    (replace name value (line.separator ++ line.written).reverse).reverse =
      line.separator ++ (replaced name value line).written := by
  rw [List.reverse_append, Line.separator]
  split
  · rw [List.reverse_singleton, replace_append_cons h.in_name _ (by decide), replace_nil,
      List.reverse_append]
    rfl
  · simp [replaced]

/-- A word and the word it is replaced by are written on the same line. -/
theorem foldl_push_replaced (h : Clear name value) {line : Line} (hline : Apart line)
    {word : List Char} (hword : ∀ c ∈ word, isOrdinary c) :
    (replace name value word).foldl Line.push (replaced name value line) =
      replaced name value (word.foldl Line.push line) := by
  by_cases hne : word = []
  · subst hne
    rw [replace_nil]
    rfl
  · have hinner := fun c hc => isInner_of_isOrdinary (hword c hc)
    have hinner' : ∀ c ∈ replace name value word, isInner c := fun c hc =>
      isInner_of_isOrdinary (all_replace h.in_value hword c hc)
    have hapart : ∀ c ∈ (line.separator ++ line.written).reverse.getLast?,
        isOrdinary c = false := by
      rw [List.getLast?_reverse]
      exact hline
    have hwritten :
        (replace name value (word.reverse ++ (line.separator ++ line.written)).reverse).reverse =
          (replace name value word).reverse ++
            (line.separator ++ (replaced name value line).written) := by
      rw [List.reverse_append, List.reverse_reverse, replace_append h.in_name hapart,
        List.reverse_append, replace_separator h]
    rw [Line.foldl_push_word hne hinner,
      Line.foldl_push_word (fun hnil => hne ((replace_eq_nil h).mp hnil)) hinner',
      separator_replaced h, ← hwritten]
    rfl

/-- What is not ordinary is written alike behind a word and behind what replaces it. -/
theorem push_replaced (h : Clear name value) (line : Line) {c : Char} (hc : isOrdinary c = false) :
    (replaced name value line).push c = replaced name value (line.push c) := by
  have hcons : ∀ (d : Char) (written : List Char), isOrdinary d = false →
      d :: (replace name value written.reverse).reverse =
        (replace name value (d :: written).reverse).reverse := by
    intro d written hd
    rw [List.reverse_cons, replace_append_cons h.in_name _ hd, replace_nil]
    simp
  rcases Line.class_cases c with rfl | rfl | rfl | hgap | hinner
  · rw [Line.push_opening, Line.push_opening, replaced, replaced, hcons _ _ hc]
  · rw [Line.push_closing, Line.push_closing, replaced, replaced, dropCommas_replace h,
      hcons _ _ hc]
  · rw [Line.push_colon, Line.push_colon, replaced, replaced, ← hcons _ _ hc]
    show (⟨':' :: (if 0 < line.depth then _ else _), _, _⟩ : Line) = _
    split
    · rw [dropCommas_replace h]
    · rfl
  · rw [Line.push_gap hgap, Line.push_gap hgap, endsWith_replaced h line '(' (by decide),
      endsWith_replaced h line ',' (by decide),
      endsWith_replaced h line ':' (by decide), isEmpty_replaced h]
    show (if 0 < line.depth then _ else _) = _
    split
    · split
      · rfl
      · rw [replaced, replaced, hcons _ _ (by decide)]
    · rfl
  · rw [Line.push_inner hinner, Line.push_inner hinner, separator_replaced h,
      ← replace_separator h, hcons _ _ hc]
    rfl

theorem apart_of_endsWith {line : Line} (c : Char) (hc : isOrdinary c = false)
    (h : line.endsWith c) : Apart line := by
  intro d hd
  rw [Line.separator] at hd
  split at hd
  · cases hd
    decide
  · rw [Line.endsWith, beq_iff_eq] at h
    rw [List.nil_append, h] at hd
    cases hd
    exact hc

theorem apart_push (line : Line) {c : Char} (hc : isOrdinary c = false) : Apart (line.push c) := by
  rcases Line.class_cases c with rfl | rfl | rfl | hgap | hinner
  · exact apart_of_endsWith _ hc rfl
  · exact apart_of_endsWith _ hc rfl
  · exact apart_of_endsWith _ hc rfl
  · rw [Line.push_gap hgap]
    split
    · split
      · next hends =>
        rcases Bool.or_eq_true_iff.mp hends with hends | hends
        · rcases Bool.or_eq_true_iff.mp hends with hends | hends
          · exact apart_of_endsWith _ (by decide) hends
          · exact apart_of_endsWith _ (by decide) hends
        · exact apart_of_endsWith _ (by decide) hends
      · exact apart_of_endsWith ',' (by decide) rfl
    · -- a space is due unless nothing was written, or a colon
      obtain ⟨written, depth, pending⟩ := line
      cases written with
      | nil => exact fun d hd => nomatch hd
      | cons e rest =>
        by_cases he : e = ':'
        · exact apart_of_endsWith ':' (by decide) (by simp [Line.endsWith, he])
        · intro d hd
          simp [Line.separator, Line.endsWith, he] at hd
          subst hd
          decide
  · rw [Line.push_inner hinner]
    exact apart_of_endsWith _ hc (by simp [Line.endsWith])

theorem foldl_push_replace (h : Clear name value) {line : Line} (hline : Apart line)
    (s : List Char) : (replace name value s).foldl Line.push (replaced name value line) =
      replaced name value (s.foldl Line.push line) := by
  induction s using Text.runs_induction isOrdinary generalizing line with
  | run r hr => exact foldl_push_replaced h hline hr
  | step r c rest hr hc ih =>
    -- the run, the character behind it, and the rest, in front of which the line is apart again
    rw [replace_append_cons h.in_name r hc, List.foldl_append, List.foldl_cons,
      foldl_push_replaced h hline hr, push_replaced h _ hc, ih (apart_push _ hc),
      List.foldl_append, List.foldl_cons]

theorem trimStart_replace (h : Clear name value) (s : List Char) :
    trimStart (replace name value s) = replace name value (trimStart s) := by
  induction s with
  | nil => simp [trimStart]
  | cons c rest ih =>
    cases hc : isBlank c with
    | true =>
      rw [replace_cons h.in_name (isOrdinary_eq_false_of_isBlank hc), trimStart, trimStart,
        List.dropWhile_cons_of_pos hc, List.dropWhile_cons_of_pos hc]
      exact ih
    | false =>
      obtain ⟨d, behind, heq, hd⟩ := replace_cons_eq h c rest
      have hblank : isBlank d = false := by
        rcases hd with rfl | ⟨-, hd⟩
        · exact hc
        · exact isBlank_of_isOrdinary hd
      have hkeep : trimStart (c :: rest) = c :: rest := List.dropWhile_cons_of_neg (by simp [hc])
      rw [hkeep, heq]
      exact List.dropWhile_cons_of_neg (by simp [hblank])

theorem body_replace (h : Clear name value) (raw : List Char) :
    body (replace name value raw) = replace name value (body raw) := by
  rw [body, body, trimStart_replace h]
  cases htext : trimStart raw with
  | nil => simp
  | cons c rest =>
    by_cases hc : c = '\x7b'
    · subst hc
      rw [replace_cons h.in_name (by decide)]
      rfl
    · obtain ⟨d, behind, heq, hd⟩ := replace_cons_eq h c rest
      have hbrace : d ≠ '\x7b' := by
        rintro rfl
        rcases hd with hd | ⟨-, hd⟩
        · exact hc hd.symm
        · cases hd
      rw [heq]
      split
      · next hbody => exact absurd (List.cons.inj hbody).1 hbrace
      · split
        · next hbody => exact absurd (List.cons.inj hbody).1 hc
        · exact heq.symm

theorem plain_replace (h : Clear name value) (raw : List Char) :
    plain (replace name value raw) = replace name value (plain raw) := by
  have hline := foldl_push_replace h apart_empty (body raw)
  have hempty : replaced name value .empty = .empty := by
    rw [replaced, Line.empty, List.reverse_nil, replace_nil]
    rfl
  rw [hempty] at hline
  rw [plain, body_replace h, hline, replaced, List.reverse_reverse, plain]

/-! ### The tokens -/

theorem ofRead_replace (h : Clear name value) (word : List Char) :
    Token.ofRead (replace name value word).reverse =
      (Token.ofRead word.reverse).map (Token.mapWord (replace name value)) := by
  by_cases hne : word = []
  · subst hne
    rw [replace_nil]
    rfl
  · have hne' : replace name value word ≠ [] := fun hnil => hne ((replace_eq_nil h).mp hnil)
    simp [Token.ofRead, hne, hne', Token.mapWord]

theorem cut_replace (h : Clear name value) (line : List Char) :
    Token.cut (replace name value line) =
      (Token.cut line).map (Token.mapWord (replace name value)) := by
  have hvalue : ∀ c ∈ value, !Token.isStop c := fun c hc => by
    simp [Token.isStop_of_isOrdinary (h.in_value c hc)]
  have hkeep : ∀ r : List Char, (∀ c ∈ r, !Token.isStop c) →
      ∀ c ∈ replace name value r, Token.isStop c = false := by
    intro r hr c hc
    simpa using all_replace hvalue hr c hc
  induction line using Text.runs_induction fun c => !Token.isStop c with
  | run r hr =>
    rw [Token.cut_word (hkeep r hr), Token.cut_word (by simpa using hr), ofRead_replace h]
  | step r c rest hr hc ih =>
    have hc' : Token.isStop c := by simpa using hc
    have hordinary : isOrdinary c = false := Token.isOrdinary_eq_false_of_isStop hc'
    have hwords : ∀ d ∈ r, Token.isStop d = false := by simpa using hr
    have htoken : (Token.ofStop c).map (Token.mapWord (replace name value)) = Token.ofStop c := by
      unfold Token.ofStop
      split
      · rfl
      split
      · rfl
      · rfl
    rw [replace_append_cons h.in_name r hordinary, Token.cut_append_cons _ hc',
      Token.cut_append_cons _ hc', Token.cut_word (hkeep r hr), ofRead_replace h, ih,
      Token.cut_word hwords,
      List.map_append, List.map_append, htoken]

theorem scan_flatten_replace (h : Clear name value) (query : List Char) :
    Token.scan (flatten (replace name value query)) =
      (Token.scan (flatten query)).map (Token.mapWord (replace name value)) := by
  rw [scan_flatten, scan_flatten, plain_replace h, cut_replace h]

/-! ### All variables -/

theorem all_encode {p : Char → Bool} (h : ∀ n < 256, (Percent.encodeByte (.ofNat n)).all p)
    (s : List Char) : ∀ c ∈ Percent.encode s, p c := by
  intro c hc
  obtain ⟨b, -, hc⟩ := List.mem_flatMap.mp hc
  have hall := h b.toNat b.toNat_lt
  rw [UInt8.ofNat_toNat] at hall
  exact List.all_eq_true.mp hall c hc

/-- What replacements rely on in the encoding of values: it writes words without references, and
something for every value that is not empty. -/
structure Encoding (encode : List Char → List Char) : Prop where
  ordinary : ∀ s, ∀ c ∈ encode s, isOrdinary c
  no_reference : ∀ s, '$' ∉ encode s
  ne_nil : ∀ s, s ≠ [] → encode s ≠ []

theorem encoding_percent : Encoding Percent.encode where
  ordinary := all_encode (by decide +kernel)
  no_reference s hmem := by
    have hall : ∀ c ∈ Percent.encode s, c != '$' := all_encode (by decide +kernel) s
    simpa using hall '$' hmem
  ne_nil s h := by
    obtain ⟨c, rest, rfl⟩ := List.exists_cons_of_ne_nil h
    have hchar : Utf8.encodeChar c ≠ [] := by
      simp only [Utf8.encodeChar]
      repeat' split
      all_goals simp
    have hbyte : ∀ b, Percent.encodeByte b ≠ [] := by
      intro b
      unfold Percent.encodeByte
      split
      · simp
      · simp
    obtain ⟨b, bytes, hb⟩ := List.exists_cons_of_ne_nil hchar
    simp [Percent.encode, Utf8.encode, hb, hbyte b]

def isNameChar (c : Char) : Bool := c.isAlphanum || c == '_'

theorem isOrdinary_of_isNameChar {c : Char} (h : isNameChar c) : isOrdinary c := by
  have hlt : c.toNat < 128 := by
    have hle : ∀ high : UInt32, high.toNat < 128 → c.val ≤ high → c.toNat < 128 :=
      fun high hhigh h => Nat.lt_of_le_of_lt (UInt32.le_iff_toNat_le.mp h) hhigh
    rcases Bool.or_eq_true_iff.mp h with h | h
    · rcases Bool.or_eq_true_iff.mp (show (c.isAlpha || c.isDigit) = true from h) with h | hdigit
      · rcases Bool.or_eq_true_iff.mp (show (c.isUpper || c.isLower) = true from h) with hup | hlow
        · have hrange : c.val ≥ 'A'.val ∧ c.val ≤ 'Z'.val := of_decide_eq_true hup
          exact hle _ (by decide) hrange.2
        · have hrange := Bool.and_eq_true_iff.mp hlow
          exact hle 'z'.val (by decide) (of_decide_eq_true hrange.2)
      · have hrange := Bool.and_eq_true_iff.mp hdigit
        exact hle '9'.val (by decide) (of_decide_eq_true hrange.2)
    · rw [beq_iff_eq.mp h]
      decide
  -- which leaves finitely many characters
  have hall : ∀ n < 128, isNameChar (.ofNat n) → isOrdinary (.ofNat n) := by decide +kernel
  simpa [Char.ofNat_toNat] using hall c.toNat hlt (by rwa [Char.ofNat_toNat])

/-- Names are words, and every value is written as some text. -/
structure Proper (vars : Variables) : Prop where
  names : ∀ v ∈ vars.toList, v.1.toList.all isNameChar
  values : ∀ v ∈ vars.toList, render v.2 ≠ ""

theorem Proper.clear {vars : Variables} (h : vars.Proper) :
    ∀ v ∈ vars.toList, Clear v.1.toList (encoded v.2) := by
  intro v hv
  constructor
  case in_name =>
    intro c hc
    exact isOrdinary_of_isNameChar (List.all_eq_true.mp (h.names v hv) c hc)
  case in_value => exact encoding_percent.ordinary _
  case ne_nil =>
    apply encoding_percent.ne_nil
    simpa using h.values v hv

theorem mem_insertByLength {v x : String × Json} {vars : List (String × Json)} :
    x ∈ insertByLength v vars ↔ x = v ∨ x ∈ vars := by
  induction vars with
  | nil => simp [insertByLength]
  | cons w rest ih =>
    rw [insertByLength]
    split
    · rw [List.mem_cons]
    · rw [List.mem_cons, ih, List.mem_cons, or_left_comm]

theorem mem_longestFirst {vars : Variables} {x : String × Json} :
    x ∈ vars.longestFirst ↔ x ∈ vars.toList := by
  have hfold : ∀ vs acc : List (String × Json),
      x ∈ vs.foldl (fun acc v => insertByLength v acc) acc ↔ x ∈ vs ∨ x ∈ acc := by
    intro vs
    induction vs with
    | nil => simp
    | cons v vs ih =>
      intro acc
      rw [List.foldl_cons, ih, mem_insertByLength, List.mem_cons, or_left_comm, or_assoc]
  rw [longestFirst, hfold]
  simp

/-- What holds of one replacement holds of several, one after the other. -/
theorem scan_flatten_foldl {vs : List (String × Json)}
    (h : ∀ v ∈ vs, Clear v.1.toList (encoded v.2)) (query : List Char) :
    Token.scan (flatten (vs.foldl (fun q v => replace v.1.toList (encoded v.2) q) query)) =
      (Token.scan (flatten query)).map
        (Token.mapWord fun w => vs.foldl (fun q v => replace v.1.toList (encoded v.2) q) w) := by
  induction vs generalizing query with
  | nil =>
    have hid : Token.mapWord (fun w => w) = id := by
      funext t
      cases t with
      | word w => rfl
      | opening => rfl
      | closing => rfl
    simp [hid]
  | cons v vs ih =>
    have hrest := ih fun w hw => h w (List.mem_cons_of_mem _ hw)
    rw [List.foldl_cons, hrest, scan_flatten_replace (h v List.mem_cons_self), List.map_map,
      Token.mapWord_comp]
    rfl

/-- Substitution changes the words of a document and nothing else: its tokens are those of the
document before, with the references in every word replaced. -/
theorem scan_flatten_substitute {vars : Variables} (h : vars.Proper) (query : List Char) :
    Token.scan (flatten (vars.substitute query)) =
      (Token.scan (flatten query)).map (Token.mapWord vars.substitute) :=
  scan_flatten_foldl (fun v hv => h.clear v (mem_longestFirst.mp hv)) query

/-- The name of one variable begins like the other, whose value looks like syntax. -/
def hostile : Variables := .ofList [("id", .str "1) \x7b$idx"), ("idx", .int 5)]

theorem hostile_proper : hostile.Proper := ⟨by decide +kernel, by decide +kernel⟩

theorem scan_flatten_substitute_hostile :
    Token.scan (flatten (hostile.substitute "\x7bA(Id: $id limit:$idx)\x7bName\x7d\x7d".toList)) =
      [.word "A(Id:1%29%20%7B%24idx,limit:5)".toList, .opening, .word "Name".toList, .closing,
        .closing] := by
  have htokens : Token.cut (plain "\x7bA(Id: $id limit:$idx)\x7bName\x7d\x7d".toList) =
      [.word "A(Id:$id,limit:$idx)".toList, .opening, .word "Name".toList, .closing, .closing] := by
    decide +kernel
  have hvars : hostile.longestFirst.map (fun v => (v.1.toList, encoded v.2)) =
      [("idx".toList, "5".toList), ("id".toList, "1%29%20%7B%24idx".toList)] := by
    decide +kernel
  have hsubstitute : ∀ w, hostile.substitute w =
      replace "id".toList "1%29%20%7B%24idx".toList (replace "idx".toList "5".toList w) := by
    intro w
    have hfold : hostile.substitute w =
        (hostile.longestFirst.map fun v => (v.1.toList, encoded v.2)).foldl
          (fun q v => replace v.1 v.2 q) w := by
      rw [List.foldl_map]
      rfl
    rw [hfold, hvars]
    rfl
  rw [scan_flatten_substitute hostile_proper, scan_flatten, htokens]
  simp only [List.map_cons, List.map_nil, Token.mapWord, hsubstitute]
  decide +kernel

end Variables

end NestedQuery
