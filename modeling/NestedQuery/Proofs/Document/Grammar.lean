import NestedQuery.Proofs.Document.Selection

/-!
# The grammar of outlines

An outline follows two rules: a document is one or more nodes and a closing brace, and a node is a
word, an opening brace, fields and nodes in any order, and a closing brace. A selection is a
derivation by these rules, and its tokens are what it derives.

## Main results

- `Selection.document_inj`: no document has two derivations.
- `Outline.check_eq_ok_iff`: the check passes just the documents that are derived without nesting
  nodes too deep. One counter and a look at the neighbours of a token take the place of the
  derivation, which is found again brace by brace (`Outline.exists_tokens_of_checkFrom`).
-/

namespace NestedQuery

namespace Selection

variable {α : Type}

/-- One or more nodes and no fields beside them, at most `maxDepth` of them inside one another. -/
structure IsDocument (maxDepth : Nat) (s : Selection α) : Prop where
  nodes : s.fields = []
  ne_nil : s ≠ nil
  height_le : s.height ≤ maxDepth

theorem IsDocument.height_ne_zero {maxDepth : Nat} {s : Selection α} (h : s.IsDocument maxDepth) :
    s.height ≠ 0 := by
  cases s with
  | nil => exact absurd rfl h.ne_nil
  | field name rest =>
    have hfields := h.nodes
    cases hfields
  | node heading inner rest =>
    rw [height]
    omega

/-- The tokens of a document: its nodes and the brace that closes it. -/
def document (s : Selection (List Char)) : List Token := s.tokens ++ [.closing]

/-- A selection can be told from its tokens up to the brace that closes it. -/
theorem eq_of_tokens_eq {s s' : Selection (List Char)} {rest rest' : List Token}
    (h : s.tokens ++ .closing :: rest = s'.tokens ++ .closing :: rest') :
    s = s' ∧ rest = rest' := by
  induction s generalizing s' rest rest' with
  | nil =>
    cases s' with
    | nil => exact ⟨rfl, (List.cons.inj h).2⟩
    | field name s' => simp [tokens] at h
    | node word inner s' => simp [tokens] at h
  | field name s ih =>
    cases s' with
    | nil => simp [tokens] at h
    | field name' s' =>
      simp only [tokens, List.cons_append, List.cons.injEq, Token.word.injEq,
        String.toList_inj] at h
      obtain ⟨rfl, h⟩ := h
      obtain ⟨rfl, rfl⟩ := ih h
      exact ⟨rfl, rfl⟩
    | node word inner s' =>
      -- behind the word of a field stands no opening brace
      simp only [tokens, List.cons_append, List.cons.injEq] at h
      exact absurd (congrArg List.head? h.2) (s.head?_tokens rest)
  | node word inner s ihinner ih =>
    cases s' with
    | nil => simp [tokens] at h
    | field name s' =>
      simp only [tokens, List.cons_append, List.cons.injEq] at h
      exact absurd (congrArg List.head? h.2.symm) (s'.head?_tokens rest')
    | node word' inner' s' =>
      simp only [tokens, List.cons_append, List.cons.injEq, Token.word.injEq, true_and,
        List.append_assoc] at h
      obtain ⟨rfl, h⟩ := h
      obtain ⟨rfl, hrest⟩ := ihinner h
      obtain ⟨rfl, rfl⟩ := ih hrest
      exact ⟨rfl, rfl⟩

theorem document_inj {s s' : Selection (List Char)} : s.document = s'.document ↔ s = s' := by
  constructor
  · intro h
    exact (eq_of_tokens_eq h).1
  · exact congrArg _

end Selection

namespace Outline

variable {maxDepth depth : Nat} {tokens : List Token}

/-- Whether a word stands before the tokens matters only for an opening brace. -/
theorem checkFrom_of_head? (h : tokens.head? ≠ some .opening) (afterWord : Bool) :
    checkFrom maxDepth depth afterWord tokens = checkFrom maxDepth depth false tokens := by
  match tokens, h with
  | [], _ => rfl
  | .opening :: rest, h => exact absurd rfl h
  | .closing :: rest, _ => rfl
  | .word w :: rest, _ => rfl

/-- Tokens that pass the check begin with a selection and the brace that closes it, and those
behind that brace pass the check one level up. -/
theorem exists_tokens_of_checkFrom (hdepth : depth ≤ maxDepth)
    (h : checkFrom maxDepth (depth + 1) false tokens = .ok ()) :
    ∃ (s : Selection (List Char)) (rest : List Token), tokens = s.tokens ++ .closing :: rest ∧
      s.height + depth ≤ maxDepth ∧ (depth = 0 → s.fields = []) ∧
      checkFrom maxDepth depth false rest = .ok () := by
  -- the selection inside a node is shorter, and so is what follows the node
  induction hn : tokens.length using Nat.strongRecOn generalizing tokens depth with
  | ind n ih =>
    subst hn
    match tokens with
    | [] =>
      rw [checkFrom, if_pos (Nat.succ_pos depth)] at h
      cases h
    | .closing :: rest =>
      rw [checkFrom, if_neg (Nat.succ_ne_zero depth)] at h
      refine ⟨.nil, rest, rfl, ?_, fun _ => rfl, h⟩
      rwa [Selection.height, Nat.zero_add]
    | .opening :: rest =>
      rw [checkFrom, if_neg (Nat.succ_ne_zero depth)] at h
      cases h
    | .word w :: rest =>
      rw [checkFrom, if_neg (Nat.succ_ne_zero depth)] at h
      split at h
      · cases h
      next hplace =>
        by_cases hopening : rest.head? = some .opening
        · -- a node: first the selection inside it, then what follows its closing brace
          obtain ⟨behind, rfl⟩ : ∃ behind, rest = .opening :: behind := by
            cases rest with
            | nil => cases hopening
            | cons t behind =>
              cases hopening
              exact ⟨behind, rfl⟩
          rw [checkFrom, if_neg (Nat.succ_ne_zero depth)] at h
          simp only [Bool.not_true, Bool.false_eq_true, ↓reduceIte] at h
          split at h
          · cases h
          next hdeep =>
            obtain ⟨inner, rest, rfl, hinner, -, h⟩ :=
              ih behind.length (by simp only [List.length_cons]; omega) (by omega) h rfl
            obtain ⟨s, rest, rfl, hs, hfields, h⟩ :=
              ih rest.length (by simp only [List.length_cons, List.length_append]; omega) hdepth h
                rfl
            refine ⟨.node w inner s, rest, ?_, ?_, hfields, h⟩
            · simp [Selection.tokens]
            · rw [Selection.height]
              omega
        · -- a field, which stands inside of a node
          rw [checkFrom_of_head? hopening] at h
          obtain ⟨s, rest, rfl, hs, -, h⟩ := ih rest.length (by simp) hdepth h rfl
          refine ⟨.field (.ofList w) s, rest, ?_, hs, ?_, h⟩
          · simp [Selection.tokens]
          · rintro rfl
            exact absurd ⟨rfl, hopening⟩ hplace

/-- The check passes exactly the documents of the grammar. -/
theorem check_eq_ok_iff : check maxDepth tokens = .ok () ↔
    ∃ s : Selection (List Char), s.IsDocument maxDepth ∧ s.document = tokens := by
  constructor
  · intro h
    rw [check] at h
    split at h
    · cases h
    next hword =>
      obtain ⟨s, rest, rfl, hheight, hfields, h⟩ := exists_tokens_of_checkFrom (Nat.zero_le _) h
      -- nothing is left behind the brace of the document
      have hrest : rest = [] := by
        cases rest with
        | nil => rfl
        | cons t rest =>
          unfold checkFrom at h
          cases h
      subst hrest
      refine ⟨s, ⟨hfields rfl, ?_, hheight⟩, rfl⟩
      rintro rfl
      exact hword rfl
  · rintro ⟨s, hs, rfl⟩
    exact check_tokens s hs.height_le hs.nodes hs.height_ne_zero

end Outline

end NestedQuery
