import Mathlib.Data.Nat.PSub
import NestedQuery.Proofs.Document.Grammar

/-!
# Braces that are counted

A program that goes through the tokens by their places counts the open braces, and takes one from the
count where a brace is closed. The strict forms below have no result where the count would fall below
zero (`Nat.ppred`), where a place is not one of the tokens, or where a branch that is skipped has no
end.

The check stops before its count is used at zero, whatever the tokens are (`strictCheck?_eq`). Skipping
does not look out for that, and relies on the check: of a document that passed it, every branch is
skipped up to the brace that closes it (`exists_strictSkip?`).
-/

namespace NestedQuery.Outline

variable {tokens rest : List Token} {token : Token} {place depth : Nat}

/-! ### Going on by places -/

theorem getElem?_of_drop (h : tokens.drop place = token :: rest) :
    tokens[place]? = some token := by
  rw [← List.head?_drop, h]
  rfl

theorem lt_length_of_drop (h : tokens.drop place = token :: rest) : place < tokens.length :=
  (List.getElem?_eq_some_iff.mp (getElem?_of_drop h)).1

theorem getElem_of_drop (h : tokens.drop place = token :: rest) (hlt : place < tokens.length) :
    tokens[place] = token :=
  Option.some.inj ((List.getElem?_eq_getElem hlt).symm.trans (getElem?_of_drop h))

theorem drop_succ_of_drop (h : tokens.drop place = token :: rest) :
    tokens.drop (place + 1) = rest := by
  rw [← List.tail_drop, h]
  rfl

theorem drop_add_of_drop {before : List Token} (h : tokens.drop place = before ++ rest) :
    tokens.drop (place + before.length) = rest := by
  rw [← List.drop_drop, h, List.drop_left]

/-! ### The check -/

def isWord : Token → Bool
  | .word _ => true
  | _ => false

/-- Whether a word stands before a place. Before the first one there is nothing. -/
def strictAfterWord? (tokens : List Token) (place : Nat) : Option Bool :=
  match place.ppred with
  | none => some false
  | some previous => tokens[previous]?.map isWord

/-- Checks the tokens from a place on, behind `depth` open braces. -/
def strictCheckFrom? (maxDepth : Nat) (tokens : List Token) (depth place : Nat) :
    Option (Except DocumentFault Unit) :=
  if h : place < tokens.length then
    if depth = 0 then some (.error .trailingContent)
    else
      match tokens[place] with
      | .opening => do
        if !(← strictAfterWord? tokens place) then some (.error .unnamedBrace)
        else if maxDepth < (← (depth + 1).ppred) then some (.error (.tooDeep maxDepth))
        else strictCheckFrom? maxDepth tokens (depth + 1) (place + 1)
      | .closing => do strictCheckFrom? maxDepth tokens (← depth.ppred) (place + 1)
      | .word w =>
        if depth = 1 ∧ tokens[place + 1]? ≠ some .opening then some (.error (.strayField w))
        else strictCheckFrom? maxDepth tokens depth (place + 1)
  else some (if 0 < depth then .error .unclosed else .ok ())
termination_by tokens.length - place

def strictCheck? (maxDepth : Nat) (tokens : List Token) : Option (Except DocumentFault Unit) :=
  if tokens.all (· == .closing) then some (.error .empty) else strictCheckFrom? maxDepth tokens 1 0

theorem strictAfterWord?_succ (h : tokens.drop place = token :: rest) :
    strictAfterWord? tokens (place + 1) = some (isWord token) := by
  rw [strictAfterWord?, Nat.ppred_succ]
  simp only [getElem?_of_drop h, Option.map_some]

theorem strictCheckFrom?_eq (maxDepth : Nat) (h : tokens.drop place = rest) (depth : Nat)
    {afterWord : Bool} (hafter : strictAfterWord? tokens place = some afterWord) :
    strictCheckFrom? maxDepth tokens depth place =
      some (checkFrom maxDepth depth afterWord rest) := by
  induction rest generalizing depth place afterWord with
  | nil =>
    rw [strictCheckFrom?, dif_neg (Nat.not_lt.mpr (List.drop_eq_nil_iff.mp h))]
    rfl
  | cons token rest ih =>
    have hnext := drop_succ_of_drop h
    have hword := strictAfterWord?_succ h
    rw [strictCheckFrom?, dif_pos (lt_length_of_drop h), getElem_of_drop h]
    cases depth with
    | zero => cases token <;> rfl
    | succ depth =>
      -- one can be taken from the count wherever the check does so
      rw [if_neg (Nat.succ_ne_zero depth)]
      cases token with
      | opening =>
        have hgo : strictCheckFrom? maxDepth tokens (depth + 1 + 1) (place + 1) =
            some (checkFrom maxDepth (depth + 1 + 1) false rest) := ih hnext _ hword
        rw [checkFrom, if_neg (Nat.succ_ne_zero depth)]
        simp only [hafter, Nat.ppred_succ, Option.bind_eq_bind, Option.bind_some, hgo]
        split
        · rfl
        · split
          · rfl
          · rfl
      | closing =>
        rw [checkFrom, if_neg (Nat.succ_ne_zero depth), Nat.add_sub_cancel]
        simp only [Nat.ppred_succ, Option.bind_eq_bind, Option.bind_some]
        exact ih hnext depth hword
      | word w =>
        have hhead : tokens[place + 1]? = rest.head? := by rw [← List.head?_drop, hnext]
        rw [checkFrom, if_neg (Nat.succ_ne_zero depth)]
        simp only [hhead]
        rw [ih hnext (depth + 1) hword]
        split
        · rfl
        · rfl

theorem strictCheck?_eq (maxDepth : Nat) (tokens : List Token) :
    strictCheck? maxDepth tokens = some (check maxDepth tokens) := by
  rw [strictCheck?, check]
  split
  · rfl
  · exact strictCheckFrom?_eq maxDepth rfl 1 rfl

/-! ### Branches that are skipped -/

/-- The place behind the brace that closes a branch; `depth` braces are open in it. -/
def strictSkip? (tokens : List Token) (depth place : Nat) : Option Nat :=
  if h : place < tokens.length then
    match tokens[place] with
    | .opening => strictSkip? tokens (depth + 1) (place + 1)
    | .closing => do
      let depth ← depth.ppred
      if depth = 0 then some (place + 1) else strictSkip? tokens depth (place + 1)
    | .word _ => strictSkip? tokens depth (place + 1)
  else none
termination_by tokens.length - place

theorem lt_of_strictSkip? {behind : Nat} (h : strictSkip? tokens depth place = some behind) :
    place < behind := by
  fun_induction strictSkip? tokens depth place with
  | case1 depth place hlt htoken ih => exact Nat.lt_of_succ_lt (ih h)
  | case2 depth place hlt htoken ih =>
    obtain ⟨depth', hdepth, h⟩ := Option.bind_eq_some_iff.mp h
    split at h
    · cases h
      exact Nat.lt_succ_self _
    · exact Nat.lt_of_succ_lt (ih _ h)
  | case3 depth place hlt w htoken ih => exact Nat.lt_of_succ_lt (ih h)
  | case4 => cases h

/-- At the place `opened` a brace opens a branch, and the place `behind` is the one behind the brace
that closes it. -/
def Matches (tokens : List Token) (opened behind : Nat) : Prop :=
  ∃ before, ∃ inner : Selection (List Char), ∃ rest,
    tokens = before ++ .opening :: (inner.tokens ++ .closing :: rest) ∧
    opened = before.length ∧ behind = opened + 1 + inner.tokens.length + 1

/-- The tokens of a selection are passed over, up to the brace that closes it. -/
theorem strictSkip?_tokens (s : Selection (List Char))
    (h : tokens.drop place = s.tokens ++ .closing :: rest) :
    strictSkip? tokens (depth + 1) place =
      if depth = 0 then some (place + s.tokens.length + 1)
      else strictSkip? tokens depth (place + s.tokens.length + 1) := by
  induction s generalizing depth place rest with
  | nil =>
    rw [strictSkip?, dif_pos (lt_length_of_drop h), getElem_of_drop h]
    simp only [Nat.ppred_succ, Option.bind_eq_bind, Option.bind_some]
    rfl
  | field name s ih =>
    have hlength : (Selection.field name s).tokens.length = s.tokens.length + 1 := rfl
    rw [strictSkip?, dif_pos (lt_length_of_drop h), getElem_of_drop h, hlength]
    simp only
    rw [ih (drop_succ_of_drop h)]
    have hplace : place + 1 + s.tokens.length + 1 = place + (s.tokens.length + 1) + 1 := by omega
    rw [hplace]
  | node word inner s ihinner ih =>
    have hlength : (Selection.node word inner s).tokens.length =
        inner.tokens.length + s.tokens.length + 3 := by
      simp only [Selection.tokens, List.length_cons, List.length_append]
      omega
    rw [Selection.tokens, List.cons_append, List.cons_append, List.append_assoc,
      List.cons_append] at h
    -- the selection inside leads to the brace of the node, and from there the count is as before
    have hopening := drop_succ_of_drop h
    have hinner := drop_succ_of_drop hopening
    have hbehind := drop_succ_of_drop (drop_add_of_drop hinner)
    rw [strictSkip?, dif_pos (lt_length_of_drop h), getElem_of_drop h, hlength]
    simp only
    rw [strictSkip?, dif_pos (lt_length_of_drop hopening), getElem_of_drop hopening]
    simp only
    rw [ihinner hinner, if_neg (Nat.succ_ne_zero depth), ih hbehind]
    have hplace : place + 1 + 1 + inner.tokens.length + 1 + s.tokens.length + 1 =
        place + (inner.tokens.length + s.tokens.length + 3) + 1 := by omega
    rw [hplace]

/-- A branch is skipped up to the brace that closes it. -/
theorem exists_strictSkip? {inner : Selection (List Char)}
    (h : tokens.drop place = .opening :: (inner.tokens ++ .closing :: rest)) :
    ∃ behind, strictSkip? tokens 0 place = some behind ∧ tokens.drop behind = rest ∧
      Matches tokens place behind := by
  have hinner := drop_succ_of_drop h
  refine ⟨_, ?_, drop_succ_of_drop (drop_add_of_drop hinner), tokens.take place, inner, rest, ?_, ?_,
    rfl⟩
  · rw [strictSkip?, dif_pos (lt_length_of_drop h), getElem_of_drop h]
    simp only
    rw [strictSkip?_tokens inner hinner, if_pos rfl]
  · rw [← h, List.take_append_drop]
  · rw [List.length_take, Nat.min_eq_left (Nat.le_of_lt (lt_length_of_drop h))]

/-- Where no brace opens a branch the count falls below zero. -/
example : strictSkip? [.word ['a'], .closing] 0 0 = none := by cbv

end NestedQuery.Outline
