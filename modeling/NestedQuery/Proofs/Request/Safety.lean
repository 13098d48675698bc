import NestedQuery.Proofs.Document.Counters
import NestedQuery.Proofs.Document.Slices
import NestedQuery.Proofs.Request.Meaning

/-!
# Requests that cannot stop the reader

The reader goes through the tokens by their places, skips a branch by counting its braces, and cuts
texts by their bytes. `Forest.strictOfText?` reads a text in this way, and has no result where a count
would fall below zero, a place would be none, or a slice would not be one.

## Main result

`Forest.strict_total`: for every text there is a result, and it is that of `Forest.ofText`. Every branch
that is skipped is skipped from the brace that opens it to behind the one that closes it.
-/

namespace NestedQuery

/-- A heading is cut by its bytes before it is looked up. -/
def Node.strictResolve? (catalog : Metadata) (parent : Option Node) (word : List Char) :
    Option (Except RequestError Node) :=
  (Heading.strictOfWord? word).map fun _ => Node.resolve catalog parent word

theorem Node.strictResolve?_eq (catalog : Metadata) (parent : Option Node) (word : List Char) :
    strictResolve? catalog parent word = some (resolve catalog parent word) := by
  rw [strictResolve?, Heading.strictOfWord?_eq, Option.map_some]

/-- A branch that was skipped: the place of the brace that opens it, and where reading goes on. -/
structure Skip where
  opened : Nat
  behind : Nat

namespace Reading

open Outline

/-- Reads the tokens from a place on, and lists the branches that are skipped. -/
def strictRead? (catalog : Metadata) (tokens : List Token) (r : Reading) (place : Nat) :
    Option (Reading × List Skip) :=
  if h : place < tokens.length then
    match tokens[place] with
    | .word w =>
      if tokens[place + 1]? = some .opening then
        match Node.strictResolve? catalog r.parent? w with
        | none => none
        | some (.ok node) => strictRead? catalog tokens (r.enter node) (place + 2)
        | some (.error e) =>
          match hskip : strictSkip? tokens 0 (place + 1) with
          | none => none
          | some behind =>
            (strictRead? catalog tokens (r.fail e) behind).map fun (r, skips) =>
              (r, ⟨place + 1, behind⟩ :: skips)
      else strictRead? catalog tokens (r.field w) (place + 1)
    | .closing => strictRead? catalog tokens r.leave (place + 1)
    | .opening => strictRead? catalog tokens r (place + 1)
  else some (r, [])
termination_by tokens.length - place
decreasing_by
  all_goals first
    | omega
    | have := lt_of_strictSkip? hskip
      omega

/-- Selections, each with the brace that closes it: what is left of a document at any place. -/
inductive Remains : List Token → Prop where
  | nil : Remains []
  | closed (s : Selection (List Char)) {rest : List Token} (outside : Remains rest) :
      Remains (s.tokens ++ .closing :: rest)

theorem strictRead?_eq (catalog : Metadata) {tokens rest : List Token} (remains : Remains rest)
    {place : Nat} (h : tokens.drop place = rest) (r : Reading) :
    ∃ skips, strictRead? catalog tokens r place = some (r.read catalog rest, skips) ∧
      ∀ skip ∈ skips, Matches tokens skip.opened skip.behind := by
  -- a branch is passed over at once, so that the induction is on what is left
  induction hn : rest.length using Nat.strongRecOn generalizing rest place r with
  | ind n ih =>
    subst hn
    cases remains with
    | nil =>
      refine ⟨[], ?_, by simp⟩
      rw [strictRead?, dif_neg (Nat.not_lt.mpr (List.drop_eq_nil_iff.mp h)), read]
    | @closed s rest outside =>
      cases s with
      | nil =>
        obtain ⟨skips, hread, hskips⟩ :=
          ih rest.length (by simp [Selection.tokens]) outside (drop_succ_of_drop h) r.leave rfl
        refine ⟨skips, ?_, hskips⟩
        rw [strictRead?, dif_pos (lt_length_of_drop h), getElem_of_drop h, Selection.tokens,
          List.nil_append, read]
        exact hread
      | field name s =>
        have hnext : tokens.drop (place + 1) = s.tokens ++ .closing :: rest := drop_succ_of_drop h
        obtain ⟨skips, hread, hskips⟩ :=
          ih (s.tokens ++ .closing :: rest).length (by simp [Selection.tokens]) (.closed s outside)
            hnext (r.field name.toList) rfl
        refine ⟨skips, ?_, hskips⟩
        have hhead : tokens[place + 1]? ≠ some .opening := by
          rw [← List.head?_drop, hnext]
          exact s.head?_tokens rest
        rw [strictRead?, dif_pos (lt_length_of_drop h), getElem_of_drop h, Selection.tokens,
          List.cons_append, read_word_of_head? r _ (s.head?_tokens rest)]
        simp only
        rw [if_neg hhead, hread]
      | node word inner s =>
        have htokens : (Selection.node word inner s).tokens ++ .closing :: rest =
            .word word :: .opening :: (inner.tokens ++ .closing :: (s.tokens ++ .closing :: rest)) := by
          simp [Selection.tokens]
        rw [htokens] at h ih ⊢
        have hopening := drop_succ_of_drop h
        rw [strictRead?, dif_pos (lt_length_of_drop h), getElem_of_drop h, read]
        simp only
        rw [if_pos (getElem?_of_drop hopening), Node.strictResolve?_eq]
        cases hresolve : Node.resolve catalog r.parent? word with
        | ok node =>
          exact ih _ (by simp only [List.length_cons]; omega) (.closed inner (.closed s outside))
            (drop_succ_of_drop hopening) (r.enter node) rfl
        | error e =>
          obtain ⟨behind, hskip, hbehind, hmatches⟩ := exists_strictSkip? hopening
          obtain ⟨skips, hread, hskips⟩ :=
            ih _ (by simp only [List.length_cons, List.length_append]; omega) (.closed s outside)
              hbehind (r.fail e) rfl
          refine ⟨⟨place + 1, behind⟩ :: skips, ?_, List.forall_mem_cons.mpr ⟨hmatches, hskips⟩⟩
          rw [Outline.skipBranch_tokens, Outline.skipBranch]
          simp only
          split
          · next hnone =>
            rw [hskip] at hnone
            cases hnone
          · next behind' hskip' =>
            obtain rfl := Option.some.inj (hskip.symm.trans hskip')
            rw [hread]
            rfl

end Reading

namespace Forest

/-- Reads the tokens of a document by their places. -/
def strictOfTokens? (catalog : Metadata) (maxDepth : Nat) (tokens : List Token) :
    Option (Except DocumentFault (Forest × List RequestError) × List Skip) :=
  match Outline.strictCheck? maxDepth tokens with
  | none => none
  | some (.error fault) => some (.error fault, [])
  | some (.ok ()) =>
    (Reading.start.strictRead? catalog tokens 0).map fun (r, skips) => (.ok (r.roots, r.errors), skips)

def strictOfText? (catalog : Metadata) (maxDepth : Nat) (text : List Char) :
    Option (Except DocumentFault (Forest × List RequestError) × List Skip) :=
  let trimmed := Text.trim text
  match trimmed with
  | [] => some (.error .empty, [])
  | c :: _ =>
    if c = '\x7b' then
      (Token.strictScan? (Document.flatten trimmed)).bind (strictOfTokens? catalog maxDepth)
    else some (.error .noOpeningBrace, [])

theorem strictOfTokens?_eq (catalog : Metadata) (maxDepth : Nat) (tokens : List Token) :
    ∃ skips,
      strictOfTokens? catalog maxDepth tokens = some (ofTokens catalog maxDepth tokens, skips) ∧
      ∀ skip ∈ skips, Outline.Matches tokens skip.opened skip.behind := by
  rw [strictOfTokens?, Outline.strictCheck?_eq, ofTokens]
  cases hcheck : Outline.check maxDepth tokens with
  | error fault => exact ⟨[], rfl, by simp⟩
  | ok u =>
    -- what passed the check is the selection of a document and the brace that closes it
    obtain ⟨s, -, rfl⟩ := Outline.check_eq_ok_iff.mp hcheck
    obtain ⟨skips, hread, hskips⟩ :=
      Reading.strictRead?_eq catalog (.closed s .nil) (List.drop_zero : s.document.drop 0 = _) .start
    refine ⟨skips, ?_, hskips⟩
    simp only
    rw [hread]
    rfl

theorem strictOfText?_eq (catalog : Metadata) (maxDepth : Nat) (text : List Char) :
    ∃ skips,
      strictOfText? catalog maxDepth text = some (ofText catalog maxDepth text, skips) ∧
      ∀ skip ∈ skips, Outline.Matches (Token.scan (Document.flatten (Text.trim text)))
        skip.opened skip.behind := by
  rw [strictOfText?, ofText]
  cases htrim : Text.trim text with
  | nil => exact ⟨[], rfl, by simp⟩
  | cons c rest =>
    simp only
    split
    · rw [Token.strictScan?_eq, Option.bind_some]
      exact strictOfTokens?_eq catalog maxDepth _
    · exact ⟨[], rfl, by simp⟩

/-- Whatever the text is, no count falls below zero and no slice is missing on the way to its forest
or to the values of its arguments, and every branch that is skipped ends with its own brace. -/
theorem strict_total (catalog : Metadata) (maxDepth : Nat) :
    (∀ flat, Token.strictScan? flat = some (Token.scan flat)) ∧
    (∀ tokens, Outline.strictCheck? maxDepth tokens = some (Outline.check maxDepth tokens)) ∧
    (∀ word, Heading.strictOfWord? word = some (Heading.ofWord word)) ∧
    (∀ raw, Argument.strictDecode? raw = some (Argument.decode raw)) ∧
    (∀ tokens, ∃ skips,
      strictOfTokens? catalog maxDepth tokens = some (ofTokens catalog maxDepth tokens, skips) ∧
      ∀ skip ∈ skips, Outline.Matches tokens skip.opened skip.behind) ∧
    ∀ text, ∃ skips,
      strictOfText? catalog maxDepth text = some (ofText catalog maxDepth text, skips) ∧
      ∀ skip ∈ skips, Outline.Matches (Token.scan (Document.flatten (Text.trim text)))
        skip.opened skip.behind :=
  ⟨Token.strictScan?_eq, Outline.strictCheck?_eq maxDepth, Heading.strictOfWord?_eq,
    Argument.strictDecode?_eq, strictOfTokens?_eq catalog maxDepth,
    strictOfText?_eq catalog maxDepth⟩

end Forest

end NestedQuery
