import NestedQuery.Document.Token
import NestedQuery.Proofs.Document.Line

/-!
# Braces and their marks

The marks beside the braces of a flat document are there for the tokens only. The same line is
written when braces get no marks, and the tokens of the marked line are those of the plain one, cut
at its braces and blanks (`Document.scan_flatten`). What is proved of tokens is therefore proved
of plain lines, in which every character stands for itself.
-/

namespace NestedQuery

open Text

namespace Document

/-- The flat text of a document in which braces get no marks. -/
def plain (raw : List Char) : List Char := ((body raw).foldl Line.push .empty).written.reverse

theorem markBrace_of_ne {c : Char} (hstart : c ≠ '\x7b') (hend : c ≠ '\x7d') :
    markBrace c = [c] := by
  rw [markBrace, if_neg hstart, if_neg hend]

theorem markBrace_of_isGap {c : Char} (h : isGap c) : markBrace c = [c] := by
  apply markBrace_of_ne
  · rintro rfl
    cases h
  · rintro rfl
    cases h

theorem markBrace_ne_nil (c : Char) : markBrace c ≠ [] := by
  unfold markBrace
  split
  · simp
  split
  · simp
  · simp

/-! ### The line with marks -/

namespace Line

def markWritten (written : List Char) : List Char := written.flatMap fun c => (markBrace c).reverse

def marked (line : Line) : Line := { line with written := markWritten line.written }

theorem markWritten_cons (c : Char) (written : List Char) :
    markWritten (c :: written) = (markBrace c).reverse ++ markWritten written := rfl

theorem markWritten_append (s t : List Char) :
    markWritten (s ++ t) = markWritten s ++ markWritten t := List.flatMap_append

theorem endsWith_marked (line : Line) (c : Char) (hat : c ≠ '@')
    (hend : c ≠ '\x7d') : line.marked.endsWith c = line.endsWith c := by
  obtain ⟨written, depth, pending⟩ := line
  cases written with
  | nil => rfl
  | cons d rest =>
    by_cases h1 : d = '\x7b'
    · subst h1
      rfl
    by_cases h2 : d = '\x7d'
    · subst h2
      show (some '@' == some c) = (some '\x7d' == some c)
      rw [beq_eq_false_iff_ne.mpr (by simpa using hat.symm),
        beq_eq_false_iff_ne.mpr (by simpa using hend.symm)]
    · simp [marked, markWritten_cons, endsWith, markBrace_of_ne h1 h2]

theorem isEmpty_marked (line : Line) : line.marked.written.isEmpty = line.written.isEmpty := by
  obtain ⟨written, depth, pending⟩ := line
  cases written with
  | nil => rfl
  | cons d rest => simp [marked, markWritten_cons, markBrace_ne_nil]

theorem dropCommas_markWritten (written : List Char) :
    dropCommas (markWritten written) = markWritten (dropCommas written) := by
  induction written with
  | nil => rfl
  | cons d rest ih =>
    by_cases hcomma : d = ','
    · subst hcomma
      exact ih
    by_cases h1 : d = '\x7b'
    · subst h1
      rfl
    by_cases h2 : d = '\x7d'
    · subst h2
      rfl
    · simp [markWritten_cons, dropCommas, markBrace_of_ne h1 h2, hcomma]

theorem separator_marked (line : Line) : line.marked.separator = line.separator := by
  rw [separator, separator, line.endsWith_marked ':' (by decide) (by decide)]
  rfl

theorem isInner_markBrace {c : Char} (h : isInner c) : ∀ d ∈ markBrace c, isInner d := by
  unfold markBrace
  split
  · exact List.all_eq_true.mp (by decide)
  split
  · exact List.all_eq_true.mp (by decide)
  · simpa using h

/-- A character does to a line with marks what it does to the line without. -/
theorem foldl_push_markBrace (line : Line) (c : Char) :
    (markBrace c).foldl push line.marked = (line.push c).marked := by
  rcases class_cases c with rfl | rfl | rfl | hgap | hinner
  · rfl
  · show line.marked.push ')' = (line.push ')').marked
    rw [push_closing, push_closing, marked, marked, markWritten_cons, dropCommas_markWritten]
    rfl
  · show line.marked.push ':' = (line.push ':').marked
    rw [push_colon, push_colon, marked, marked, dropCommas_markWritten, ← apply_ite markWritten]
    rfl
  · have hopening := line.endsWith_marked '(' (by decide) (by decide)
    have hcomma := line.endsWith_marked ',' (by decide) (by decide)
    have hcolon := line.endsWith_marked ':' (by decide) (by decide)
    rw [markBrace_of_isGap hgap, List.foldl_cons, List.foldl_nil, push_gap hgap, push_gap hgap,
      hopening, hcomma, hcolon, isEmpty_marked]
    show (if 0 < line.depth then _ else _) = _
    split
    · split
      · rfl
      · rfl
    · rfl
  · -- a brace is written with its mark as one word
    have hseparator : markWritten line.separator = line.separator := by
      rw [separator]
      split
      · rfl
      · rfl
    rw [foldl_push_word (markBrace_ne_nil c) (isInner_markBrace hinner), push_inner hinner,
      separator_marked, marked, marked, markWritten_cons, markWritten_append, hseparator]

theorem foldl_push_flatMap_markBrace (line : Line) (raw : List Char) :
    (raw.flatMap markBrace).foldl push line.marked = (raw.foldl push line).marked := by
  induction raw generalizing line with
  | nil => rfl
  | cons c rest ih =>
    rw [List.flatMap_cons, List.foldl_append, foldl_push_markBrace, ih, List.foldl_cons]

end Line

/-! ### Blanks at the ends -/

/-- Blanks at an end may go before or after the characters are spelled out, if blanks stand for
themselves and nothing else is spelled with blanks. -/
theorem dropWhile_flatMap (f : Char → List Char) (hblank : ∀ c, isBlank c → f c = [c])
    (hother : ∀ c, isBlank c = false → f c ≠ [] ∧ ∀ d ∈ f c, isBlank d = false)
    (s : List Char) : (s.flatMap f).dropWhile isBlank = (s.dropWhile isBlank).flatMap f := by
  induction s with
  | nil => rfl
  | cons c rest ih =>
    rw [List.flatMap_cons]
    cases hc : isBlank c with
    | true => simp [hblank c hc, hc, ih]
    | false =>
      obtain ⟨hne, hall⟩ := hother c hc
      cases hf : f c with
      | nil => exact absurd hf hne
      | cons d behind =>
        have hd : isBlank d = false := hall d (by rw [hf]; exact List.mem_cons_self)
        simp [hf, hc, hd]

theorem isBlank_markBrace {c : Char} (h : isBlank c = false) :
    ∀ d ∈ markBrace c, isBlank d = false := by
  have hmarks : ∀ mark ∈ [startMark ++ ['\x7b'], '\x7d' :: endMark], mark.any isBlank = false := by
    decide
  simp only [List.any_eq_false, Bool.not_eq_true] at hmarks
  unfold markBrace
  split
  · exact hmarks _ List.mem_cons_self
  split
  · exact hmarks _ (by simp)
  · simpa using h

theorem trim_flatMap_markBrace (s : List Char) :
    trim (s.flatMap markBrace) = (trim s).flatMap markBrace := by
  have hstart := dropWhile_flatMap markBrace
    (fun c hc => markBrace_of_isGap (isGap_of_isBlank hc))
    (fun c hc => ⟨markBrace_ne_nil c, isBlank_markBrace hc⟩)
  have hend := dropWhile_flatMap (List.reverse ∘ markBrace)
    (fun c hc => by simp [markBrace_of_isGap (isGap_of_isBlank hc)])
    (fun c hc => ⟨by simp [markBrace_ne_nil], by simpa using isBlank_markBrace hc⟩)
  rw [trim, trimStart, hstart, trimEnd, List.reverse_flatMap, hend, List.reverse_flatMap, trim,
    trimEnd, trimStart]
  simp [Function.comp_def]

end Document

/-! ### Cutting a plain line -/

namespace Token

open Document

/-- The token of a character at which a line is cut, if it has one. -/
def ofStop (c : Char) : List Token :=
  if c = '\x7b' then [.opening] else if c = '\x7d' then [.closing] else []

/-- The characters at which a line is cut. -/
def isStop (c : Char) : Bool := c == '\x7b' || c == '\x7d' || isBlank c

theorem isStop_of_isOrdinary {c : Char} (hc : isOrdinary c) : isStop c = false := by
  have hblank := isBlank_of_isOrdinary hc
  simp only [isOrdinary, Bool.and_eq_true, bne_iff_ne] at hc
  simp [isStop, hblank, hc.1.2, hc.2]

theorem isOrdinary_eq_false_of_isStop {c : Char} (h : isStop c) : isOrdinary c = false := by
  rw [Bool.eq_false_iff]
  intro hordinary
  rw [isStop_of_isOrdinary hordinary] at h
  cases h

/-- The tokens of a plain line, before which the characters in `read` begin a word. -/
def cutFrom (read : List Char) : List Char → List Token
  | [] => ofRead read
  | c :: rest =>
    if isStop c then ofRead read ++ (ofStop c ++ cutFrom [] rest) else cutFrom (c :: read) rest

/-- The tokens of a plain line. -/
def cut (line : List Char) : List Token := cutFrom [] line

theorem cutFrom_append {word : List Char} (h : ∀ c ∈ word, isStop c = false)
    (read rest : List Char) :
    cutFrom read (word ++ rest) = cutFrom (word.reverse ++ read) rest := by
  induction word generalizing read with
  | nil => rfl
  | cons c word ih =>
    have hc : isStop c = false := h c List.mem_cons_self
    rw [List.cons_append, cutFrom, if_neg (by simp [hc]),
      ih (fun d hd => h d (List.mem_cons_of_mem _ hd))]
    simp

theorem cut_word {word : List Char} (h : ∀ c ∈ word, isStop c = false) :
    cut word = ofRead word.reverse := by
  have happend := cutFrom_append h [] []
  simpa [cut, cutFrom] using happend

/-- A line is cut at every stop. -/
theorem cut_append_cons (s : List Char) {c : Char} (hc : isStop c) (rest : List Char) :
    cut (s ++ c :: rest) = cut s ++ (ofStop c ++ cut rest) := by
  have hfrom : ∀ read,
      cutFrom read (s ++ c :: rest) = cutFrom read s ++ (ofStop c ++ cut rest) := by
    induction s with
    | nil => exact fun read => if_pos hc
    | cons d s ih =>
      intro read
      rw [List.cons_append, cutFrom, cutFrom]
      split
      · rw [ih, List.append_assoc, List.append_assoc]
      · exact ih (d :: read)
  exact hfrom []

/-- The mark of an opening brace begins nowhere but before the brace: no end of it that is shorter
begins a text with marks. -/
theorem not_isPrefix_flatMap_markBrace {k : Nat} (hpos : 0 < k) (hlt : k < openingMark.length)
    (s : List Char) : ¬openingMark.drop k <+: s.flatMap markBrace := by
  induction s generalizing k with
  | nil =>
    intro h
    have hnil : (openingMark.drop k).length = 0 := by rw [List.prefix_nil.mp h, List.length_nil]
    rw [List.length_drop] at hnil
    omega
  | cons c rest ih =>
    intro h
    rw [List.flatMap_cons] at h
    by_cases hstart : c = '\x7b'
    · -- a shorter end of the mark would be a beginning of it as well
      subst hstart
      have hbegin : openingMark.drop k <+: openingMark :=
        List.prefix_of_prefix_length_le h (List.prefix_append _ _) (by simp)
      have hno : ∀ k < openingMark.length, 0 < k → ¬openingMark.drop k <+: openingMark := by decide
      exact hno k hlt hpos hbegin
    · rw [List.drop_eq_getElem_cons hlt] at h
      by_cases hend : c = '\x7d'
      · subst hend
        have hhead : openingMark[k] = '\x7d' := (List.cons_prefix_cons.mp h).1
        have hno : '\x7d' ∉ openingMark := by decide
        exact hno (hhead ▸ List.getElem_mem hlt)
      · rw [markBrace_of_ne hstart hend, List.singleton_append, List.cons_prefix_cons] at h
        by_cases hnext : k + 1 < openingMark.length
        · exact ih (Nat.succ_pos k) hnext h.2
        · have hlast : ∀ k (hk : k < openingMark.length), ¬k + 1 < openingMark.length →
              openingMark[k] = '\x7b' := by decide
          exact hstart (h.1 ▸ hlast k hlt hnext)

theorem scanFrom_opening (read rest : List Char) :
    scanFrom read (openingMark ++ rest) = ofRead read ++ .opening :: scanFrom [] rest := by
  have htext : openingMark ++ rest = '@' :: (openingMark.drop 1 ++ rest) := rfl
  rw [htext, scanFrom, ← htext, if_pos (by simp)]
  simp

theorem scanFrom_closing (read rest : List Char) :
    scanFrom read (closingMark ++ rest) = ofRead read ++ .closing :: scanFrom [] rest := by
  have htext : closingMark ++ rest = '\x7d' :: (endMark ++ rest) := rfl
  have hno : openingMark.isPrefixOf (closingMark ++ rest) = false := rfl
  have hdrop : (endMark ++ rest).drop (closingMark.length - 1) = rest := rfl
  rw [htext, scanFrom, ← htext, hno, if_neg (by decide), if_pos (by simp), hdrop]

theorem scanFrom_flatMap_markBrace (read s : List Char) :
    scanFrom read (s.flatMap markBrace) = cutFrom read s := by
  induction s generalizing read with
  | nil => rw [List.flatMap_nil, scanFrom, cutFrom]
  | cons c rest ih =>
    rw [List.flatMap_cons, cutFrom]
    by_cases hstart : c = '\x7b'
    · subst hstart
      exact (scanFrom_opening read _).trans (by rw [ih]; rfl)
    by_cases hend : c = '\x7d'
    · subst hend
      exact (scanFrom_closing read _).trans (by rw [ih]; rfl)
    · -- neither mark begins here, so the character is read alone
      have hopening : openingMark.isPrefixOf (c :: rest.flatMap markBrace) = false := by
        rw [Bool.eq_false_iff]
        intro h
        have hcons : openingMark = '@' :: openingMark.drop 1 := rfl
        rw [List.isPrefixOf_iff_prefix, hcons, List.cons_prefix_cons] at h
        exact not_isPrefix_flatMap_markBrace (by decide) (by decide) rest h.2
      have hclosing : closingMark.isPrefixOf (c :: rest.flatMap markBrace) = false := by
        rw [Bool.eq_false_iff]
        intro h
        rw [List.isPrefixOf_iff_prefix, closingMark, List.cons_prefix_cons] at h
        exact hend h.1.symm
      have hstop : isStop c = isBlank c := by simp [isStop, hstart, hend]
      have htoken : ofStop c = [] := by rw [ofStop, if_neg hstart, if_neg hend]
      rw [markBrace_of_ne hstart hend, List.singleton_append, scanFrom, hopening, hclosing, hstop,
        htoken, ih, ih]
      rfl

theorem cutFrom_cons_blank {c : Char} (h : isBlank c) (read rest : List Char) :
    cutFrom read (c :: rest) = ofRead read ++ cut rest := by
  have htoken : ofStop c = [] := by
    rw [ofStop, if_neg, if_neg]
    · rintro rfl
      cases h
    · rintro rfl
      cases h
  rw [cutFrom, if_pos (by simp [isStop, h]), htoken]
  rfl

theorem cutFrom_blanks {blanks : List Char} (h : ∀ c ∈ blanks, isBlank c) (read : List Char) :
    cutFrom read blanks = ofRead read := by
  induction blanks generalizing read with
  | nil => rfl
  | cons c rest ih =>
    rw [cutFrom_cons_blank (h c List.mem_cons_self), cut,
      ih fun d hd => h d (List.mem_cons_of_mem _ hd)]
    exact List.append_nil _

theorem cutFrom_append_blanks {blanks : List Char} (h : ∀ c ∈ blanks, isBlank c)
    (read s : List Char) : cutFrom read (s ++ blanks) = cutFrom read s := by
  induction s generalizing read with
  | nil => exact cutFrom_blanks h read
  | cons c rest ih => rw [List.cons_append, cutFrom, cutFrom, ih, ih]

theorem cut_trimStart (s : List Char) : cut (trimStart s) = cut s := by
  induction s with
  | nil => rfl
  | cons c rest ih =>
    cases hc : isBlank c with
    | true =>
      rw [trimStart, List.dropWhile_cons_of_pos hc, ← trimStart, ih, cut, cut,
        cutFrom_cons_blank hc]
      rfl
    | false => rw [trimStart, List.dropWhile_cons_of_neg (by simp [hc])]

theorem cut_trimEnd (s : List Char) : cut (trimEnd s) = cut s := by
  have hsplit : s = trimEnd s ++ (s.reverse.takeWhile isBlank).reverse := by
    rw [trimEnd, ← List.reverse_append, List.takeWhile_append_dropWhile, List.reverse_reverse]
  have hblanks : ∀ c ∈ (s.reverse.takeWhile isBlank).reverse, isBlank c := by
    intro c hc
    exact List.all_eq_true.mp List.all_takeWhile c (List.mem_reverse.mp hc)
  conv => rhs; rw [hsplit, cut, cutFrom_append_blanks hblanks, ← cut]

theorem cut_trim (s : List Char) : cut (trim s) = cut s := by
  rw [trim, cut_trimEnd, cut_trimStart]

end Token

/-- A flat document is its plain line, trimmed and with marks. -/
theorem Document.flatten_eq_flatMap (raw : List Char) :
    flatten raw = (trim (plain raw)).flatMap markBrace := by
  have hline := Line.foldl_push_flatMap_markBrace .empty (body raw)
  have hempty : Line.empty.marked = .empty := rfl
  rw [hempty] at hline
  have hwritten : (((body raw).foldl Line.push .empty).marked.written).reverse =
      (plain raw).flatMap markBrace := by
    rw [Line.marked, Line.markWritten, List.reverse_flatMap, plain]
    simp [Function.comp_def]
  rw [flatten, hline, hwritten, trim_flatMap_markBrace]

/-- The tokens of a document are those of its plain line. -/
theorem Document.scan_flatten (raw : List Char) :
    Token.scan (flatten raw) = Token.cut (plain raw) := by
  rw [flatten_eq_flatMap, Token.scan, Token.scanFrom_flatMap_markBrace, ← Token.cut, Token.cut_trim]

end NestedQuery
