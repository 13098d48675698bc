import NestedQuery.Select.Argument

/-!
# Values that arguments can carry

A value is percent encoded on its way into a query and decoded when the query is compiled. The
encoding loses nothing (`Percent.decode_encode`), but a decoded argument is trimmed as well, and a
pair of quotes around it is taken off.

## Main result

`Argument.decode_encode_iff`: just the texts without blanks at their ends and without quotes around
them arrive as they were sent, and in quotes every text does.
-/

namespace NestedQuery

open Text

/-! ### Percent encoding -/

namespace Text

theorem toNat_ofNat_of_lt {n : Nat} (h : n < 0x80) : (Char.ofNat n).toNat = n := by
  have hvalid : n.isValidChar := .inl (by omega)
  rw [Char.ofNat, dif_pos hvalid]
  rfl

theorem Utf8.encodeChar_of_lt {c : Char} (h : c.toNat < 0x80) :
    Utf8.encodeChar c = [.ofNat c.toNat] := by
  simp [Utf8.encodeChar, h]

/-- A digit is a character of ASCII and has the value that it was written for. -/
theorem hexDigitUpper_spec : ∀ n < 16,
    (hexDigitUpper n).toNat < 0x80 ∧ digitValue? 16 (hexDigitUpper n) = some n := by
  decide

namespace Percent

theorem decodeBytes_cons {a : UInt8} (h : a ≠ 0x25) (rest : List UInt8) :
    decodeBytes (a :: rest) = a :: decodeBytes rest := by
  match rest with
  | [] => simp [decodeBytes]
  | [b] => simp [decodeBytes]
  | b :: c :: rest => rw [decodeBytes, if_neg h]

theorem isPlain_bounds {b : UInt8} (h : isPlain b) : b.toNat < 0x80 ∧ b ≠ 0x25 := by
  have hne : b.toNat ≠ 0x25 → b ≠ 0x25 := by
    rintro hne rfl
    exact hne rfl
  simp only [isPlain, Bool.or_eq_true, Bool.and_eq_true, decide_eq_true_eq, beq_iff_eq] at h
  constructor
  · omega
  · exact hne (by omega)

/-- A digit is read as the byte of its character. -/
theorem ofNat_hexDigitUpper {n : Nat} (h : n < 16) :
    Char.ofNat (UInt8.ofNat (hexDigitUpper n).toNat).toNat = hexDigitUpper n := by
  have hlt := (hexDigitUpper_spec n h).1
  rw [UInt8.toNat_ofNat', Nat.mod_eq_of_lt (by omega), Char.ofNat_toNat]

/-- What is written for a byte is read as this byte, whatever follows. -/
theorem decodeBytes_encodeByte (b : UInt8) (rest : List UInt8) :
    decodeBytes (Utf8.encode (encodeByte b) ++ rest) = b :: decodeBytes rest := by
  have hb : b.toNat < 256 := b.toNat_lt
  unfold encodeByte
  split
  · next hplain =>
    obtain ⟨hlt, hne⟩ := isPlain_bounds hplain
    have hchar : (Char.ofNat b.toNat).toNat = b.toNat :=
      toNat_ofNat_of_lt (by omega)
    have hencode : Utf8.encode [Char.ofNat b.toNat] = [b] := by
      simp [Utf8.encode, Utf8.encodeChar_of_lt (hchar ▸ hlt), hchar]
    rw [hencode, List.singleton_append, decodeBytes_cons hne]
  · -- a percent sign and two digits
    have hhigh : b.toNat / 16 < 16 := by omega
    have hlow : b.toNat % 16 < 16 := by omega
    obtain ⟨hhighLt, hhighValue⟩ := hexDigitUpper_spec _ hhigh
    obtain ⟨hlowLt, hlowValue⟩ := hexDigitUpper_spec _ hlow
    have hencode : Utf8.encode ['%', hexDigitUpper (b.toNat / 16), hexDigitUpper (b.toNat % 16)] =
        [0x25, .ofNat (hexDigitUpper (b.toNat / 16)).toNat,
          .ofNat (hexDigitUpper (b.toNat % 16)).toNat] := by
      simp only [Utf8.encode, List.flatMap_cons, Utf8.encodeChar_of_lt hhighLt,
        Utf8.encodeChar_of_lt hlowLt]
      rfl
    have hpair : pair? (.ofNat (hexDigitUpper (b.toNat / 16)).toNat)
        (.ofNat (hexDigitUpper (b.toNat % 16)).toNat) = some b := by
      have hvalue : b.toNat / 16 * 16 + b.toNat % 16 = b.toNat := by omega
      simp only [pair?, ofNat_hexDigitUpper hhigh, ofNat_hexDigitUpper hlow, hhighValue, hlowValue,
        Option.bind_eq_bind, Option.bind_some, Option.pure_def, hvalue, UInt8.ofNat_toNat]
    rw [hencode]
    simp only [List.cons_append, List.nil_append, decodeBytes, ↓reduceIte, hpair]

theorem decodeBytes_flatMap_encodeByte (bytes : List UInt8) :
    decodeBytes (Utf8.encode (bytes.flatMap encodeByte)) = bytes := by
  induction bytes with
  | nil => rfl
  | cons b bytes ih =>
    have happend : Utf8.encode ((b :: bytes).flatMap encodeByte) =
        Utf8.encode (encodeByte b) ++ Utf8.encode (bytes.flatMap encodeByte) := by
      simp [Utf8.encode]
    rw [happend, decodeBytes_encodeByte, ih]

/-- Percent encoding loses nothing. -/
theorem decode_encode (s : List Char) : decode (encode s) = s := by
  rw [decode, encode, decodeBytes_flatMap_encodeByte, Utf8.decode?_encode, Option.getD_some]

end Percent

end Text

/-! ### Quotes -/

namespace Argument

/-- The text stands between two quotes of one kind. -/
def IsQuoted (s : List Char) : Prop :=
  ∃ q inner, (q = '\'' ∨ q = '"') ∧ s = q :: (inner ++ [q])

theorem unquote_quoted {q : Char} (hq : q = '\'' ∨ q = '"') (inner : List Char) :
    unquote (q :: (inner ++ [q])) = inner := by
  simp [unquote, hq]

theorem unquote_of_not_isQuoted {s : List Char} (h : ¬IsQuoted s) : unquote s = s := by
  cases s with
  | nil => rfl
  | cons q rest =>
    rw [unquote, if_neg]
    rintro ⟨hq, hlast⟩
    obtain ⟨inner, rfl⟩ := List.getLast?_eq_some_iff.mp hlast
    exact h ⟨q, inner, hq, rfl⟩

theorem unquote_eq_self_iff {s : List Char} : unquote s = s ↔ ¬IsQuoted s := by
  refine ⟨?_, unquote_of_not_isQuoted⟩
  rintro h ⟨q, inner, hq, rfl⟩
  rw [unquote_quoted hq] at h
  have hlength := congrArg List.length h
  simp at hlength
  omega

theorem length_unquote_le (s : List Char) : (unquote s).length ≤ s.length := by
  by_cases h : IsQuoted s
  · obtain ⟨q, inner, hq, rfl⟩ := h
    rw [unquote_quoted hq]
    simp
    omega
  · exact Nat.le_of_eq (congrArg List.length (unquote_of_not_isQuoted h))

/-! ### Values on their way -/

theorem decode_encode (v : List Char) : decode (Percent.encode v) = unquote (trim v) := by
  rw [decode, Percent.decode_encode]

/-- What is trimmed or taken off makes a text shorter, so a text that stays has lost nothing. -/
theorem unquote_trim_eq_self_iff {v : List Char} :
    unquote (trim v) = v ↔ trim v = v ∧ ¬IsQuoted v := by
  constructor
  · intro h
    have hlength : v.length ≤ (trim v).length := by
      have hle := length_unquote_le (trim v)
      rwa [h] at hle
    have htrim : trim v = v := (trim_sublist v).eq_of_length_le hlength
    rw [htrim] at h
    exact ⟨htrim, unquote_eq_self_iff.mp h⟩
  · rintro ⟨htrim, hquoted⟩
    rw [htrim, unquote_of_not_isQuoted hquoted]

theorem decode_encode_quoted {q : Char} (hq : q = '\'' ∨ q = '"') (v : List Char) :
    decode (Percent.encode (q :: (v ++ [q]))) = v := by
  have hblank : isBlank q = false := by
    rcases hq with rfl | rfl
    · rfl
    · rfl
  have htrim : trim (q :: (v ++ [q])) = q :: (v ++ [q]) := by
    rw [trim_eq_self_iff]
    constructor
    · intro c hc
      cases hc
      exact hblank
    · intro c hc
      simp [List.getLast?_append, List.getLast?_cons] at hc
      rwa [← hc]
  rw [decode_encode, htrim, unquote_quoted hq]

/-- A text arrives as it was sent just if it has no blank at its ends and does not stand in quotes,
and in quotes of either kind every text does. -/
theorem decode_encode_iff (v : List Char) :
    (decode (Percent.encode v) = v ↔
      (∀ c ∈ v.head?, isBlank c = false) ∧ (∀ c ∈ v.getLast?, isBlank c = false) ∧
        ¬IsQuoted v) ∧
    decode (Percent.encode ('\'' :: (v ++ ['\'']))) = v ∧
    decode (Percent.encode ('"' :: (v ++ ['"']))) = v := by
  refine ⟨?_, decode_encode_quoted (.inl rfl) v, decode_encode_quoted (.inr rfl) v⟩
  rw [decode_encode, unquote_trim_eq_self_iff, trim_eq_self_iff, and_assoc]

end Argument

end NestedQuery
