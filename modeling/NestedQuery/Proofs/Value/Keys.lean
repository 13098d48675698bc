import Mathlib.Tactic.FinCases
import NestedQuery.Proofs.Number.Digits
import NestedQuery.Proofs.Select.Lexeme
import NestedQuery.Proofs.Select.Tables

/-!
# Literals and keys

The children of a record are asked for by a literal, and found again by a key. The literal tells the
kind of a value, except that a boolean is written as a number (`LiteralForm`). So values with one
literal have one key, unless one of them is a boolean and the other is not
(`Value.key?_eq_iff`).
-/

namespace NestedQuery

/-- What can be told from a literal. -/
inductive LiteralForm where
  | text
  | bytes
  | real
  -- an integer or a boolean
  | whole
  deriving DecidableEq

namespace LiteralForm

def ofText (s : List Char) : LiteralForm :=
  if s.head? = some '\'' then .text
  else if s.head? = some 'X' then .bytes
  else if '.' ∈ s ∨ 'e' ∈ s then .real
  else .whole

variable {s : List Char}

theorem ofText_real (hhead : ∀ c ∈ s.head?, c = '-' ∨ c.isDigit) (h : '.' ∈ s ∨ 'e' ∈ s) :
    ofText s = .real := by
  have hquote : s.head? ≠ some '\'' := fun heq => by
    rcases hhead _ heq with hc | hc <;> cases hc
  have hx : s.head? ≠ some 'X' := fun heq => by
    rcases hhead _ heq with hc | hc <;> cases hc
  rw [ofText, if_neg hquote, if_neg hx, if_pos h]

theorem ofText_whole (h : ∀ c ∈ s, c = '-' ∨ c.isDigit) : ofText s = .whole := by
  have hnot : ∀ c ∈ ['\'', 'X', '.', 'e'], c ∉ s := by
    intro c hc hmem
    fin_cases hc <;> rcases h _ hmem with hc | hc <;> cases hc
  have hhead : ∀ c ∈ ['\'', 'X', '.', 'e'], s.head? ≠ some c := fun c hc heq =>
    hnot c hc (List.mem_of_mem_head? heq)
  rw [ofText, if_neg (hhead _ (by simp)), if_neg (hhead _ (by simp)), if_neg]
  rintro (hmem | hmem)
  · exact hnot _ (by simp) hmem
  · exact hnot _ (by simp) hmem

end LiteralForm

namespace Value

def isBool : Value → Bool
  | bool _ => true
  | _ => false

def form : Value → LiteralForm
  | text _ => .text
  | bytes _ => .bytes
  | real _ => .real
  | _ => .whole

variable {v w : Value} {literal : String}

/-- The literal of a value tells its form. -/
theorem form_of_literal? (h : v.literal? = some literal) :
    LiteralForm.ofText literal.toList = v.form := by
  cases v with
  | null => cases h
  | bool b =>
    cases h
    cases b <;> rfl
  | int n =>
    cases h
    exact LiteralForm.ofText_whole fun c hc => isDigit_of_mem_repr hc
  | real x =>
    rw [literal?] at h
    split at h
    · cases h
      exact LiteralForm.ofText_real (DecimalStyle.head?_write_literal x)
        (DecimalStyle.point_or_exponent_mem_write x)
    · cases h
  | text s =>
    cases h
    rw [quote, String.toList_ofList]
    rfl
  | bytes b =>
    cases h
    rw [String.toList_append, String.toList_append]
    rfl

theorem bytes_inj {a b : List UInt8} (h : (bytes a).literal? = (bytes b).literal?) : a = b := by
  have hlist := congrArg String.toList (Option.some.inj h)
  simp only [String.toList_append, String.toList_ofList] at hlist
  have hhex := List.append_cancel_left (List.append_cancel_right hlist)
  apply Option.some.inj
  rw [← Lexeme.bytesOfHex?_hexOfBytes, hhex, Lexeme.bytesOfHex?_hexOfBytes]

/-- The literal of an integer is its key, and that of a boolean is not. -/
theorem key?_bool_ne {b : Bool} {n : Int} (h : (bool b).literal? = (int n).literal?) :
    (bool b).key? ≠ (int n).key? := by
  have hkey : (int n).key? = (int n).literal? := rfl
  rw [hkey, ← h]
  cases b <;> decide

theorem exists_key? (h : v.literal? = some literal) : ∃ key, v.key? = some key := by
  cases v with
  | null => cases h
  | real x =>
    rw [literal?, Option.ite_none_right_eq_some] at h
    rw [key?, if_pos h.1]
    exact ⟨_, rfl⟩
  | _ => exact ⟨_, rfl⟩

theorem key?_real_eq {x y : Binary64} (hx : (real x).literal? = some literal)
    (hy : (real y).literal? = some literal) : (real x).key? = (real y).key? := by
  simp only [literal?, Option.ite_none_right_eq_some, Option.some.injEq] at hx hy
  obtain ⟨hfinitex, hx⟩ := hx
  obtain ⟨hfinitey, hy⟩ := hy
  rw [key?, key?, if_pos hfinitex, if_pos hfinitey,
    DecimalStyle.key_write_eq (hx.trans hy.symm)]

/-- Values with one literal have one key, unless one of them is a boolean and the other is not. -/
theorem key?_eq_iff (hv : v.literal? = some literal) (hw : w.literal? = some literal) :
    v.key? = w.key? ↔ v.isBool = w.isBool := by
  have hform : v.form = w.form := (form_of_literal? hv).symm.trans (form_of_literal? hw)
  have hsame : v.literal? = w.literal? := hv.trans hw.symm
  cases v with
  | null => cases hv
  | bool b =>
    cases w with
    | bool c => cases b <;> cases c <;> simp [literal?] at hsame ⊢
    | int n => exact iff_of_false (key?_bool_ne hsame) (by simp [isBool])
    | null => cases hw
    | _ => cases hform
  | int n =>
    cases w with
    | bool b => exact iff_of_false (key?_bool_ne hsame.symm).symm (by simp [isBool])
    | int m => exact iff_of_true hsame rfl
    | null => cases hw
    | _ => cases hform
  | real x =>
    cases w with
    | real y => exact iff_of_true (key?_real_eq hv hw) rfl
    | _ => cases hform
  | text s =>
    cases w with
    | text t => exact iff_of_true (congrArg some (quote_inj (Option.some.inj hsame))) rfl
    | _ => cases hform
  | bytes a =>
    cases w with
    | bytes b => exact iff_of_true (by rw [bytes_inj hsame]) rfl
    | _ => cases hform

end Value

end NestedQuery
