import NestedQuery.Proofs.Document.Grammar
import NestedQuery.Proofs.Document.Layout

/-!
# Neighbouring texts

Two texts that each make a document between braces make one together, and its tokens are those of
the first text, then those of the second (`Document.scan_flatten_neighbours`): a line that ends in a
brace goes on as an empty line does (`Line.Behind`).

Nothing is asked of the parentheses of the texts. With one left open, the brace that closes the
document would stand behind a word (`Line.isStop_of_cut`), which is a field beside the roots.
-/

namespace NestedQuery

open Text

/-! ### The end of a plain line -/

namespace Token

/-- A line that ends at a stop is cut apart from what follows it. -/
theorem cut_append {s : List Char} (h : ∀ c ∈ s.getLast?, isStop c) (t : List Char) :
    cut (s ++ t) = cut s ++ cut t := by
  cases hlast : s.getLast? with
  | none => rw [List.getLast?_eq_none_iff.mp hlast]; rfl
  | some c =>
    obtain ⟨before, rfl⟩ := List.getLast?_eq_some_iff.mp hlast
    have hc : isStop c := h c hlast
    have hnil : cut [] = [] := rfl
    rw [List.append_assoc, List.singleton_append, cut_append_cons before hc,
      cut_append_cons before hc, hnil, List.append_nil, List.append_assoc]

/-- A line that ends in anything but a stop ends in a word. -/
theorem getLast?_cutFrom {s : List Char} {c : Char} (hlast : s.getLast? = some c)
    (hc : isStop c = false) (read : List Char) :
    ∃ w, (cutFrom read s).getLast? = some (.word w) := by
  induction s generalizing read with
  | nil => cases hlast
  | cons d rest ih =>
    cases rest with
    | nil =>
      obtain rfl : d = c := Option.some.inj hlast
      exact ⟨(d :: read).reverse, by simp [cutFrom, hc, ofRead]⟩
    | cons e rest =>
      have hrest : (e :: rest).getLast? = some c := by rwa [List.getLast?_cons_cons] at hlast
      rw [cutFrom]
      split
      · obtain ⟨w, hw⟩ := ih hrest []
        exact ⟨w, by simp [List.getLast?_append, hw]⟩
      · exact ih hrest _

end Token

namespace Document.Line

theorem dropCommas_append (s : List Char) {t : List Char} (h : t.head? ≠ some ',') :
    dropCommas (s ++ t) = dropCommas s ++ t := by
  rw [dropCommas, List.dropWhile_append, ← dropCommas, ← dropCommas, dropCommas_of_head? h]
  split
  · next hempty => rw [List.isEmpty_iff.mp hempty, List.nil_append]
  · rfl

/-- If the last token is no word, the line ends at a stop. -/
theorem isStop_of_cut {written : List Char} {tokens : List Token}
    (h : Token.cut written.reverse = tokens ++ [.closing]) : ∃ c rest,
      written = c :: rest ∧ Token.isStop c := by
  cases written with
  | nil =>
    have hlength := congrArg List.length h
    simp [Token.cut, Token.cutFrom, Token.ofRead] at hlength
  | cons c rest =>
    refine ⟨c, rest, rfl, ?_⟩
    cases hc : Token.isStop c with
    | true => rfl
    | false =>
      have hlast : (c :: rest).reverse.getLast? = some c := by rw [List.getLast?_reverse]; rfl
      obtain ⟨w, hw⟩ := Token.getLast?_cutFrom hlast hc []
      rw [← Token.cut, h, List.getLast?_concat] at hw
      cases hw

/-! ### Going on behind a brace -/

/-- The second line is the first, written behind `before`, with a space between them or none. -/
inductive Behind (before : List Char) : Line → Line → Prop where
  | start (pending : Bool) : Behind before .empty ⟨before, 0, pending⟩
  | written (c : Char) (rest : List Char) {gap : List Char} (depth : Nat) (pending : Bool)
      (space : gap = [] ∨ gap = [' ']) :
      Behind before ⟨c :: rest, depth, pending⟩ ⟨c :: rest ++ (gap ++ before), depth, pending⟩

variable {before : List Char} {line line' : Line}

theorem Behind.push (h : Behind before line line') (hcomma : before.head? ≠ some ',') (c : Char) :
    Behind before (line.push c) (line'.push c) := by
  cases h with
  | start pending =>
    rcases class_cases c with rfl | rfl | rfl | hgap | hinner
    · exact .written '(' [] 1 false (.inl rfl)
    · rw [push_closing, push_closing, dropCommas_of_head? hcomma]
      exact .written ')' [] 0 false (.inl rfl)
    · exact .written ':' [] 0 false (.inl rfl)
    · rw [push_gap hgap, push_gap hgap]
      exact .start _
    · rw [push_inner hinner, push_inner hinner]
      refine .written c [] 0 false ?_
      rw [separator]
      split
      · exact .inr rfl
      · exact .inl rfl
  | @written d rest gap depth pending space =>
    have hgap : (gap ++ before).head? ≠ some ',' := by
      rcases space with rfl | rfl
      · exact hcomma
      · simp
    have hends : ∀ e, endsWith e ⟨d :: rest ++ (gap ++ before), depth, pending⟩ =
        endsWith e ⟨d :: rest, depth, pending⟩ := fun _ => rfl
    rcases class_cases c with rfl | rfl | rfl | hgapChar | hinner
    · exact .written '(' (d :: rest) _ false space
    · rw [push_closing, push_closing, dropCommas_append _ hgap]
      exact .written ')' _ _ false space
    · rw [push_colon, push_colon, dropCommas_append _ hgap]
      split
      · exact .written ':' _ _ false space
      · exact .written ':' _ _ false space
    · rw [push_gap hgapChar, push_gap hgapChar, hends, hends, hends]
      split
      · split
        · exact .written d rest depth pending space
        · exact .written ',' (d :: rest) depth pending space
      · exact .written d rest depth true space
    · rw [push_inner hinner, push_inner hinner]
      have hseparator : separator ⟨d :: rest ++ (gap ++ before), depth, pending⟩ =
          separator ⟨d :: rest, depth, pending⟩ := by rw [separator, separator, hends]
      rw [hseparator, ← List.append_assoc]
      exact .written c _ depth false space

theorem Behind.foldl_push (h : Behind before line line') (hcomma : before.head? ≠ some ',')
    (s : List Char) : Behind before (s.foldl Line.push line) (s.foldl Line.push line') := by
  induction s generalizing line line' with
  | nil => exact h
  | cons c rest ih => exact ih (h.push hcomma c)

/-- Behind a stop the tokens of a line are those of the line on its own. -/
theorem Behind.cut (h : Behind before line line') (hstop : ∀ c ∈ before.head?, Token.isStop c) :
    Token.cut line'.written.reverse =
      Token.cut before.reverse ++ Token.cut line.written.reverse := by
  have hlast : ∀ c ∈ before.reverse.getLast?, Token.isStop c := by
    rwa [List.getLast?_reverse]
  cases h with
  | start pending => exact (List.append_nil _).symm
  | @written d rest gap depth pending space =>
    have hspace : ∀ t, Token.cut (gap.reverse ++ t) = Token.cut t := by
      intro t
      rcases space with rfl | rfl
      · rfl
      · exact Token.cutFrom_cons_blank (by decide) [] t
    rw [List.reverse_append, List.reverse_append, List.append_assoc, Token.cut_append hlast, hspace]

end Document.Line

/-! ### Selections behind one another -/

namespace Selection

variable {α : Type} {s t : Selection (List Char)} {maxDepth : Nat}

/-- The fields and nodes of both, those of the first before those of the second. -/
def append : Selection α → Selection α → Selection α
  | nil, t => t
  | field name rest, t => field name (rest.append t)
  | node heading inner rest, t => node heading inner (rest.append t)

theorem fields_append (s t : Selection α) : (s.append t).fields = s.fields ++ t.fields := by
  induction s with
  | nil => rfl
  | field name rest ih => rw [append, fields, ih]; rfl
  | node heading inner rest _ ih => exact ih

theorem height_append (s t : Selection α) :
    (s.append t).height = max s.height t.height := by
  induction s with
  | nil => exact (Nat.zero_max _).symm
  | field name rest ih => exact ih
  | node heading inner rest _ ih => rw [append, height, height, ih, Nat.max_assoc]

theorem tokens_append (s t : Selection (List Char)) :
    (s.append t).tokens = s.tokens ++ t.tokens := by
  induction s with
  | nil => rfl
  | field name rest ih => rw [append, tokens, tokens, ih, List.cons_append]
  | node word inner rest _ ih => simp [append, tokens, ih]

theorem IsDocument.append (hs : s.IsDocument maxDepth) (ht : t.IsDocument maxDepth) :
    (s.append t).IsDocument maxDepth where
  nodes := by rw [fields_append, hs.nodes, ht.nodes]; rfl
  ne_nil := by
    cases s with
    | nil => exact absurd rfl hs.ne_nil
    | field name rest => simp [Selection.append]
    | node word inner rest => simp [Selection.append]
  height_le := by
    rw [height_append]
    exact Nat.max_le.mpr ⟨hs.height_le, ht.height_le⟩

/-- The roots of a document end in a brace. -/
theorem IsDocument.exists_tokens (h : s.IsDocument maxDepth) :
    ∃ tokens, s.tokens = tokens ++ [.closing] := by
  have hnodes := h.nodes
  have hne := h.ne_nil
  clear h
  induction s with
  | nil => exact absurd rfl hne
  | field name rest _ => cases hnodes
  | node word inner rest _ ih =>
    by_cases hrest : rest = nil
    · subst hrest
      exact ⟨.word word :: .opening :: inner.tokens, by simp [tokens]⟩
    · obtain ⟨tokens, htokens⟩ := ih hnodes hrest
      exact ⟨.word word :: .opening :: (inner.tokens ++ .closing :: tokens), by
        simp [Selection.tokens, htokens]⟩

end Selection

/-! ### Texts between braces -/

namespace Document

/-- The document of a text, a space beside each brace. -/
def braced (s : List Char) : List Char := '\x7b' :: ' ' :: (s ++ [' ', '\x7d'])

theorem trim_braced (s : List Char) : trim (braced s) = braced s := by
  have htext : braced s = '\x7b' :: ((' ' :: s ++ [' ']) ++ ['\x7d']) := by simp [braced]
  rw [htext, trim_braces]

theorem plain_braced (s : List Char) :
    plain (braced s) = ((s ++ [' ', '\x7d']).foldl Line.push .empty).written.reverse := rfl

variable {a : List Char} {s : Selection (List Char)} {maxDepth : Nat}

/-- A text that makes a document ends outside of parentheses, with a stop before the gap. -/
theorem exists_line_of_scan (h : s.IsDocument maxDepth)
    (scan : Token.scan (flatten (braced a)) = s.document) :
    ∃ before pending, (a ++ [' ']).foldl Line.push .empty = ⟨before, 0, pending⟩ ∧
      (∀ c ∈ before.head?, Token.isStop c) ∧ Token.cut before.reverse = s.tokens := by
  obtain ⟨tokens, htokens⟩ := h.exists_tokens
  -- the brace that closes the document is cut off the line
  have hcut : Token.cut ((a ++ [' ']).foldl Line.push .empty).written.reverse = s.tokens := by
    have hbrace : ∀ line : Line, Token.cut (line.push '\x7d').written.reverse =
        Token.cut line.written.reverse ++ [.closing] := by
      intro line
      rw [Line.push_inner (by decide), List.reverse_cons, Token.cut_append_cons _ (by decide),
        Line.cut_separator]
      rfl
    rw [scan_flatten, plain_braced, List.append_cons, List.foldl_append, List.foldl_cons,
      List.foldl_nil, hbrace] at scan
    exact List.append_cancel_right scan
  rw [List.foldl_append] at hcut ⊢
  generalize a.foldl Line.push .empty = line at hcut ⊢
  rw [List.foldl_cons, List.foldl_nil, Line.push_gap (by decide)] at hcut ⊢
  split at hcut
  · -- in parentheses a gap leaves a parenthesis, a comma or a colon at the end of the line
    split at hcut
    · next hends =>
      obtain ⟨c, rest, hwritten, hc⟩ := Line.isStop_of_cut (hcut.trans htokens)
      simp only [Line.endsWith, hwritten, List.head?_cons, Bool.or_eq_true, beq_iff_eq,
        Option.some.injEq] at hends
      rcases hends with (rfl | rfl) | rfl <;> cases hc
    · obtain ⟨c, rest, hwritten, hc⟩ := Line.isStop_of_cut (hcut.trans htokens)
      cases hwritten
      cases hc
  · next hdepth =>
    obtain ⟨c, rest, hwritten, hc⟩ := Line.isStop_of_cut (hcut.trans htokens)
    refine ⟨line.written, !line.written.isEmpty, ?_, ?_, hcut⟩
    · rw [if_neg hdepth, Nat.eq_zero_of_not_pos hdepth]
    · rw [hwritten]
      intro d hd
      cases hd
      exact hc

/-- The tokens of two texts in one document are those of the first, then those of the second. -/
theorem scan_flatten_neighbours (h : s.IsDocument maxDepth)
    (scan : Token.scan (flatten (braced a)) = s.document) (b : List Char) :
    Token.scan (flatten (braced (a ++ ' ' :: b))) =
      s.tokens ++ Token.scan (flatten (braced b)) := by
  obtain ⟨before, pending, hline, hstop, hcut⟩ := exists_line_of_scan h scan
  have hcomma : before.head? ≠ some ',' := by
    intro hhead
    have hc := hstop ',' hhead
    cases hc
  have hbehind := (Line.Behind.start pending).foldl_push hcomma (b ++ [' ', '\x7d'])
  have htext : (a ++ ' ' :: b) ++ [' ', '\x7d'] = (a ++ [' ']) ++ (b ++ [' ', '\x7d']) := by simp
  rw [scan_flatten, scan_flatten, plain_braced, plain_braced, htext, List.foldl_append, hline,
    hbehind.cut hstop, hcut]

end Document

end NestedQuery
