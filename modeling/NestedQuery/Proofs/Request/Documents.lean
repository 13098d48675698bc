import NestedQuery.Proofs.Request.Meaning
import NestedQuery.Proofs.Request.Resolved

/-!
# Texts and documents

A text is rejected as a whole (`Forest.Rejected`), or it is laid out for just one selection
(`Selection.Outlines`). Which of the two it is does not depend on the catalog, and a text that is
not rejected is read as what its selection means (`Selection.Outlines.ofText_eq`).
-/

namespace NestedQuery

open Text Document

/-- Behind the first brace of the text stand the tokens of the selection and the brace that closes
the document. -/
structure Selection.Outlines (maxDepth : Nat) (text : List Char) (s : Selection (List Char)) :
    Prop where
  brace : (trim text).head? = some '\x7b'
  isDocument : s.IsDocument maxDepth
  document : s.document = Token.scan (flatten (trim text))

/-- The text is blank, does not begin with a brace, or has tokens that are no outline. -/
def Forest.Rejected (maxDepth : Nat) (text : List Char) : Prop :=
  trim text = [] ∨ (trim text).head? ≠ some '\x7b' ∨
    ∃ fault, Outline.check maxDepth (Token.scan (flatten (trim text))) = .error fault

variable {catalog : Metadata} {maxDepth : Nat} {text : List Char}

theorem Forest.not_rejected_iff :
    ¬Rejected maxDepth text ↔ ∃ s : Selection (List Char), s.Outlines maxDepth text := by
  constructor
  · intro h
    rw [Rejected, not_or, not_or, not_not] at h
    obtain ⟨-, hbrace, hcheck⟩ := h
    have hok : Outline.check maxDepth (Token.scan (flatten (trim text))) = .ok () := by
      cases hresult : Outline.check maxDepth (Token.scan (flatten (trim text))) with
      | ok => rfl
      | error fault => exact absurd ⟨fault, hresult⟩ hcheck
    obtain ⟨s, hs, hdocument⟩ := Outline.check_eq_ok_iff.mp hok
    exact ⟨s, hbrace, hs, hdocument⟩
  · rintro ⟨s, hbrace, hs, hdocument⟩ (hnil | hno | ⟨fault, hfault⟩)
    · rw [hnil] at hbrace
      cases hbrace
    · exact hno hbrace
    · rw [Outline.check_eq_ok_iff.mpr ⟨s, hs, hdocument⟩] at hfault
      cases hfault

/-- A text is laid out for no other selection. -/
theorem Selection.Outlines.unique {s s' : Selection (List Char)} (h : s.Outlines maxDepth text)
    (h' : s'.document = Token.scan (flatten (trim text))) : s' = s :=
  document_inj.mp (h'.trans h.document.symm)

theorem Selection.Outlines.ofText_eq {s : Selection (List Char)} (h : s.Outlines maxDepth text)
    (catalog : Metadata) :
    Forest.ofText catalog maxDepth text = .ok (s.forest catalog, s.errors catalog none) := by
  obtain ⟨rest, hrest⟩ : ∃ rest, trim text = '\x7b' :: rest := by
    have hbrace := h.brace
    cases htrim : trim text with
    | nil => rw [htrim] at hbrace; cases hbrace
    | cons c rest =>
      rw [htrim] at hbrace
      cases hbrace
      exact ⟨rest, rfl⟩
  have hread := Forest.ofTokens_document catalog h.isDocument
  rw [h.document, hrest] at hread
  rw [Forest.ofText, hrest]
  exact hread

theorem Forest.Rejected.ofText_eq (h : Rejected maxDepth text) (catalog : Metadata) :
    ∃ fault, ofText catalog maxDepth text = .error fault := by
  rw [ofText]
  cases htrim : trim text with
  | nil => exact ⟨.empty, rfl⟩
  | cons c rest =>
    by_cases hc : c = '\x7b'
    · subst hc
      rw [Rejected, htrim] at h
      rcases h with hnil | hno | ⟨fault, hfault⟩
      · cases hnil
      · exact absurd rfl hno
      · exact ⟨fault, by simp [ofFlat, ofTokens, hfault]⟩
    · exact ⟨.noOpeningBrace, if_neg hc⟩

/-- A forest that was read is what the selection of its text means. -/
theorem Forest.exists_outlines {forest : Forest} {errors : List RequestError}
    (h : ofText catalog maxDepth text = .ok (forest, errors)) :
    ∃ s : Selection (List Char), s.Outlines maxDepth text ∧
      s.forest catalog = forest ∧ s.errors catalog none = errors := by
  have haccepted : ¬Rejected maxDepth text := by
    intro hrejected
    obtain ⟨fault, hfault⟩ := hrejected.ofText_eq catalog
    rw [hfault] at h
    cases h
  obtain ⟨s, hs⟩ := not_rejected_iff.mp haccepted
  rw [hs.ofText_eq catalog] at h
  cases h
  exact ⟨s, hs, rfl, rfl⟩

theorem Selection.Outlines.isRead {s : Selection (List Char)} (h : s.Outlines maxDepth text)
    (catalog : Metadata) : (s.forest catalog).IsRead catalog :=
  ⟨maxDepth, s.document, s.errors catalog none, Forest.ofTokens_document catalog h.isDocument⟩

end NestedQuery
