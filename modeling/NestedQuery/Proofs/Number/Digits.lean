import Mathlib.Algebra.Order.Ring.Nat
import Mathlib.Data.List.Basic
import NestedQuery.Number.DecimalStyle

/-!
# The digits of a number in its texts

The texts of a number in a query and as a key are made of its sign, the digits of its shortest
decimal and the exponent of the first digit (`Significant`). A query has the digits in positions
around a point or with an exponent, and a key always in positions. Because no zero stands last
behind the point (`Significant.Canonical`), the text in a query can be taken apart again, and what
it is made of decides the key.

## Main result

`DecimalStyle.key_write_eq`: numbers with the same text in queries have the same key.
-/

namespace NestedQuery

/-! ### Zeros at the end -/

namespace Decimal

theorem dropZeros_mod_ten {fuel : Nat} {d : Decimal} (hfuel : d.digits < 10 ^ fuel)
    (hne : d.digits ≠ 0) : (dropZeros fuel d).digits % 10 ≠ 0 := by
  induction fuel generalizing d with
  | zero => omega
  | succ fuel ih =>
    rw [dropZeros]
    split
    · next hzero =>
      apply ih
      · simp only
        omega
      · simp only
        omega
    · next hzero => exact hzero

theorem strip_mod_ten {d : Decimal} (hne : d.digits ≠ 0) : d.strip.digits % 10 ≠ 0 := by
  refine dropZeros_mod_ten ?_ hne
  exact (Nat.length_toDigits_le_iff (by decide) Nat.length_toDigits_pos).mp (Nat.le_refl _)

theorem getLast?_toDigits (n : Nat) :
    (Nat.toDigits 10 n).getLast? = some (Nat.digitChar (n % 10)) := by
  rw [Nat.toDigits_eq_if (by decide)]
  split
  · next hlt =>
    rw [Nat.mod_eq_of_lt hlt]
    rfl
  · exact List.getLast?_concat ..

end Decimal

theorem twoTo_pos (n : Nat) : 0 < twoTo n := Nat.pow_pos (by decide)

theorem tenTo_pos (n : Nat) : 0 < tenTo n := Nat.pow_pos (by decide)

namespace Binary64

namespace RoundingInterval

/-- Zero rounds to no positive number, so it is not the decimal that is found. -/
theorem digits_of_nearest? {i : RoundingInterval} {tieUp : Bool} {exponent : Int} {d : Decimal}
    (hlow : 0 < i.low) (h : i.nearest? tieUp exponent = some d) : d.digits ≠ 0 := by
  have hzero : (i.inMultiplesOf exponent).holds 0 = false := by
    have hpos : 0 < (i.inMultiplesOf exponent).low := Nat.mul_pos hlow (tenTo_pos _)
    have hnot : ¬ (i.inMultiplesOf exponent).low ≤ 0 := Nat.not_le_of_lt hpos
    rw [holds]
    split
    · simp [hnot]
    · simp
  have hbelow : ∀ n, (i.inMultiplesOf exponent).holds (n * (i.inMultiplesOf exponent).den) = true →
      n ≠ 0 := by
    rintro n hholds rfl
    rw [Nat.zero_mul, hzero] at hholds
    cases hholds
  unfold nearest? at h
  simp only at h
  split at h
  · next hholds _ =>
    cases h
    have hne := hbelow _ hholds
    -- rounding up or down does not matter
    have heither : ∀ (up : Bool) (n : Nat), n ≠ 0 → (if up then n + 1 else n) ≠ 0 := by
      rintro (_ | _) n hn
      · exact hn
      · exact Nat.succ_ne_zero n
    exact heither _ _ hne
  · next hholds _ =>
    cases h
    exact hbelow _ hholds
  · cases h
    exact Nat.succ_ne_zero _
  · cases h

end RoundingInterval

variable {x : Binary64}

theorem low_roundingInterval (h : x.magnitude ≠ 0) : 0 < x.roundingInterval.low := by
  have hsignificand : 0 < x.significand := Nat.pos_of_ne_zero fun hzero => h (by
    rw [magnitude, hzero, Nat.zero_mul])
  have hscale : twoTo x.scale ≤ x.magnitude := Nat.le_mul_of_pos_left _ hsignificand
  have hpos := twoTo_pos x.scale
  simp only [roundingInterval]
  split <;> omega

/-- The shortest decimal of a number other than zero does not end in a zero. If there is none, ten
times zero stands in its place. -/
theorem shortest_mod_ten (h : x.magnitude ≠ 0) (tieUp : Bool) :
    (x.shortest tieUp).digits % 10 ≠ 0 ∨ x.shortest tieUp = ⟨0, 1⟩ := by
  unfold shortest
  simp only
  generalize hfound : ((List.range 17).findSome? fun (more : Nat) =>
    x.roundingInterval.nearest? tieUp
      (Decimal.leadingExponent x.roundingInterval.value x.roundingInterval.den - more)) = found
  cases found with
  | none => exact .inr rfl
  | some d =>
    obtain ⟨more, -, hnearest⟩ := List.exists_of_findSome?_eq_some hfound
    exact .inl (Decimal.strip_mod_ten
      (RoundingInterval.digits_of_nearest? (low_roundingInterval h) hnearest))

end Binary64

/-! ### Digits at their places -/

theorem not_mem_of_isDigit {digits : List Char} {c : Char} (h : ∀ d ∈ digits, d.isDigit)
    (hc : c.isDigit = false) : c ∉ digits := by
  intro hmem
  rw [h c hmem] at hc
  cases hc

theorem toList_repr_int (n : Int) :
    n.repr.toList = (if n < 0 then ['-'] else []) ++ Nat.toDigits 10 n.natAbs := by
  rw [Int.repr_eq_if]
  by_cases hneg : n < 0
  · have habs : (-n).toNat = n.natAbs := by omega
    rw [if_neg (by omega), if_pos hneg, String.toList_append, Nat.toList_repr, habs]
    rfl
  · have habs : n.toNat = n.natAbs := by omega
    rw [if_pos (by omega), if_neg hneg, Nat.toList_repr, habs]
    rfl

theorem isDigit_of_mem_repr {n : Int} {c : Char} (h : c ∈ n.repr.toList) :
    c = '-' ∨ c.isDigit := by
  rw [toList_repr_int] at h
  rcases List.mem_append.mp h with h | h
  · split at h
    · exact .inl (List.mem_singleton.mp h)
    · cases h
  · exact .inr (Nat.isDigit_of_mem_toDigits (by decide) (by decide) h)

theorem toDigits_ten_inj {m n : Nat} (h : Nat.toDigits 10 m = Nat.toDigits 10 n) : m = n := by
  have hread := congrArg (fun digits => Nat.ofDigitChars 10 digits 0) h
  simpa only [Nat.ofDigitChars_ten_toDigits] using hread

/-- An integer is read off its sign and its digits. -/
theorem eq_of_repr_eq {m n : Int} (h : m.repr = n.repr) : m = n := by
  have hlist := congrArg String.toList h
  rw [toList_repr_int, toList_repr_int] at hlist
  -- no digit is a sign
  have hdigits (k : Nat) : '-' ∉ Nat.toDigits 10 k :=
    not_mem_of_isDigit (fun d hd => Nat.isDigit_of_mem_toDigits (by decide) (by decide) hd) rfl
  by_cases hm : m < 0 <;> by_cases hn : n < 0 <;> simp only [hm, hn, ↓reduceIte,
    List.singleton_append, List.nil_append] at hlist
  · have hsame := toDigits_ten_inj (List.cons.inj hlist).2
    omega
  · exact absurd (hlist ▸ List.mem_cons_self) (hdigits n.natAbs)
  · exact absurd (hlist ▸ List.mem_cons_self) (hdigits m.natAbs)
  · have hsame := toDigits_ten_inj hlist
    omega

/-- The digits of a number in a text, and the exponent of the first one. -/
structure Significant where
  digits : List Char
  leading : Int

namespace Significant

structure Canonical (s : Significant) : Prop where
  ne_nil : s.digits ≠ []
  digits : ∀ c ∈ s.digits, c.isDigit
  -- no zero stands last behind the point
  last : 1 < s.digits.length ∨ s.leading < 0 → s.digits.getLast? ≠ some '0'

/-- The digits in front of the point. -/
def whole (s : Significant) : List Char :=
  if s.leading < 0 then ['0']
  else
    (s.digits ++ List.replicate (s.leading.toNat + 1 - s.digits.length) '0').take
      (s.leading.toNat + 1)

/-- The digits behind the point. -/
def fraction (s : Significant) : List Char :=
  if s.leading < 0 then List.replicate ((-s.leading).toNat - 1) '0' ++ s.digits
  else s.digits.drop (s.leading.toNat + 1)

def mantissa (s : Significant) : List Char :=
  match s.digits with
  | d :: e :: rest => d :: '.' :: e :: rest
  | _ => s.digits

/-- The text of a style for the digits. -/
def lay (style : DecimalStyle) (s : Significant) : List Char :=
  match style.positions with
  | none => style.inPositions s.digits s.leading
  | some (least, greatest) =>
    if least ≤ s.leading ∧ s.leading ≤ greatest then style.inPositions s.digits s.leading
    else style.withExponent s.digits s.leading

theorem lay_literal (s : Significant) :
    s.lay .literal = if -4 ≤ s.leading ∧ s.leading ≤ 15
      then DecimalStyle.literal.inPositions s.digits s.leading
      else DecimalStyle.literal.withExponent s.digits s.leading := rfl

theorem lay_key (s : Significant) :
    s.lay .key = DecimalStyle.key.inPositions s.digits s.leading := rfl

variable {s t : Significant}

theorem Canonical.isDigit_whole (h : s.Canonical) : ∀ c ∈ s.whole, c.isDigit := by
  intro c hc
  unfold whole at hc
  split at hc
  · rw [List.mem_singleton.mp hc]
    decide
  · rcases List.mem_append.mp (List.mem_of_mem_take hc) with hc | hc
    · exact h.digits c hc
    · rw [List.eq_of_mem_replicate hc]
      decide

theorem Canonical.isDigit_fraction (h : s.Canonical) : ∀ c ∈ s.fraction, c.isDigit := by
  intro c hc
  unfold fraction at hc
  split at hc
  · rcases List.mem_append.mp hc with hc | hc
    · rw [List.eq_of_mem_replicate hc]
      decide
    · exact h.digits c hc
  · exact h.digits c (List.mem_of_mem_drop hc)

/-- The digits behind the point, if there are any, end with the last digit. -/
theorem Canonical.fraction_ne (h : s.Canonical) : s.fraction ≠ ['0'] := by
  intro heq
  have hend := congrArg List.getLast? heq
  unfold fraction at heq hend
  split at hend
  · next hneg =>
    rw [List.getLast?_append_of_ne_nil _ h.ne_nil] at hend
    exact h.last (.inr hneg) hend
  · next hneg =>
    rw [if_neg hneg] at heq
    have hlength := congrArg List.length heq
    rw [List.length_drop, List.length_singleton] at hlength
    apply h.last (.inl (by omega))
    rw [← List.take_append_drop (s.leading.toNat + 1) s.digits, heq, List.getLast?_concat]

theorem inPositions_eq (style : DecimalStyle) (h : s.digits ≠ []) :
    style.inPositions s.digits s.leading =
      s.whole ++ if s.fraction.isEmpty then (if style.pointZero then ['.', '0'] else [])
        else '.' :: s.fraction := by
  unfold DecimalStyle.inPositions whole fraction
  by_cases hneg : s.leading < 0
  · simp [hneg, h]
  · -- behind the point stand no zeros but those of the digits
    have hrest : (s.digits ++ List.replicate (s.leading.toNat + 1 - s.digits.length) '0').drop
        (s.leading.toNat + 1) = s.digits.drop (s.leading.toNat + 1) := by
      rw [List.drop_append, List.drop_replicate, Nat.sub_self, List.replicate_zero, List.append_nil]
    simp only [hneg, ↓reduceIte, hrest]

theorem mem_of_mem_mantissa {c : Char} (h : c ∈ s.mantissa) : c ∈ s.digits ∨ c = '.' := by
  unfold mantissa at h
  split at h
  · next d e rest heq =>
    rw [heq]
    simp only [List.mem_cons] at h ⊢
    tauto
  · exact .inl h

theorem Canonical.filter_mantissa (h : s.Canonical) : s.mantissa.filter (· ≠ '.') = s.digits := by
  have hdigits : s.digits.filter (· ≠ '.') = s.digits := by
    rw [List.filter_eq_self]
    intro c hc
    have hpoint : c ≠ '.' := fun heq => not_mem_of_isDigit h.digits rfl (heq ▸ hc)
    simpa using hpoint
  unfold mantissa
  split
  · next d e rest heq =>
    have hpoint : (d :: '.' :: e :: rest).filter (· ≠ '.') = (d :: e :: rest).filter (· ≠ '.') := by
      simp [List.filter_cons]
    rw [hpoint, ← heq, hdigits]
  · exact hdigits

theorem withExponent_literal (s : Significant) :
    DecimalStyle.literal.withExponent s.digits s.leading =
      s.mantissa ++ 'e' :: s.leading.repr.toList := by
  rw [toList_repr_int]
  obtain ⟨digits, leading⟩ := s
  match digits with
  | [] => rfl
  | [d] => rfl
  | d :: e :: rest =>
    have hsign : DecimalStyle.literal.plusSign = false := rfl
    simp [DecimalStyle.withExponent, mantissa, hsign]

theorem Canonical.not_mem_inPositions (h : s.Canonical) (style : DecimalStyle) :
    'e' ∉ style.inPositions s.digits s.leading := by
  intro hmem
  rw [inPositions_eq style h.ne_nil] at hmem
  rcases List.mem_append.mp hmem with hmem | hmem
  · exact not_mem_of_isDigit h.isDigit_whole rfl hmem
  · split at hmem
    · split at hmem <;> simp at hmem
    · rcases List.mem_cons.mp hmem with hmem | hmem
      · cases hmem
      · exact not_mem_of_isDigit h.isDigit_fraction rfl hmem

/-- What stands in positions is cut at its point, which even a whole number has. -/
theorem Canonical.inPositions_inj (hs : s.Canonical) (ht : t.Canonical)
    (h : DecimalStyle.literal.inPositions s.digits s.leading =
      DecimalStyle.literal.inPositions t.digits t.leading) :
    s.whole = t.whole ∧ s.fraction = t.fraction := by
  have hcut : ∀ u : Significant, u.Canonical →
      DecimalStyle.literal.inPositions u.digits u.leading =
        u.whole ++ '.' :: if u.fraction.isEmpty then ['0'] else u.fraction := by
    intro u hu
    rw [inPositions_eq _ hu.ne_nil]
    split <;> rfl
  have hbehind : '.' ∉ if s.fraction.isEmpty then ['0'] else s.fraction := by
    split
    · decide
    · exact not_mem_of_isDigit hs.isDigit_fraction rfl
  rw [hcut s hs, hcut t ht,
    List.append_cons_inj_of_notMem (not_mem_of_isDigit hs.isDigit_whole rfl) hbehind] at h
  obtain ⟨hwhole, -, hfraction⟩ := h
  refine ⟨hwhole, ?_⟩
  -- the zero behind a whole number is no fraction
  have hs' := hs.fraction_ne
  have ht' := ht.fraction_ne
  split at hfraction <;> split at hfraction <;> simp_all

theorem Canonical.withExponent_inj (hs : s.Canonical) (ht : t.Canonical)
    (h : DecimalStyle.literal.withExponent s.digits s.leading =
      DecimalStyle.literal.withExponent t.digits t.leading) : s = t := by
  have hmantissa : 'e' ∉ s.mantissa := by
    intro hmem
    rcases mem_of_mem_mantissa hmem with hmem | hmem
    · exact not_mem_of_isDigit hs.digits rfl hmem
    · cases hmem
  have hexponent : 'e' ∉ s.leading.repr.toList := by
    intro hmem
    rcases isDigit_of_mem_repr hmem with h | h <;> cases h
  rw [withExponent_literal, withExponent_literal,
    List.append_cons_inj_of_notMem hmantissa hexponent] at h
  obtain ⟨hdigits, -, hleading⟩ := h
  have hdigits : s.digits = t.digits := by
    rw [← hs.filter_mantissa, hdigits, ht.filter_mantissa]
  have hleading : s.leading = t.leading := eq_of_repr_eq (String.toList_inj.mp hleading)
  cases s
  cases t
  simp_all

theorem Canonical.head?_lay (h : s.Canonical) : ∀ c ∈ (s.lay .literal).head?, c.isDigit := by
  have hfront : ∀ front rest : List Char, front ≠ [] → (∀ c ∈ front, c.isDigit) →
      ∀ c ∈ (front ++ rest).head?, c.isDigit := by
    rintro front rest hne hdigits c hc
    obtain ⟨d, front, rfl⟩ := List.exists_cons_of_ne_nil hne
    cases hc
    exact hdigits _ List.mem_cons_self
  rw [lay_literal]
  split
  · rw [inPositions_eq _ h.ne_nil]
    apply hfront _ _ _ h.isDigit_whole
    unfold whole
    split
    · exact List.cons_ne_nil _ _
    · simp [h.ne_nil]
  · obtain ⟨digits, leading⟩ := s
    match digits, h with
    | [], h => exact absurd rfl h.ne_nil
    | [d], h => exact hfront [d] _ (List.cons_ne_nil _ _) h.digits
    | d :: e :: rest, h =>
      apply hfront [d] _ (List.cons_ne_nil _ _)
      intro c hc
      exact h.digits c (List.mem_singleton.mp hc ▸ List.mem_cons_self)

/-- Digits that are written the same in a query are written the same in a key. -/
theorem Canonical.lay_key_eq (hs : s.Canonical) (ht : t.Canonical)
    (h : s.lay .literal = t.lay .literal) : s.lay .key = t.lay .key := by
  have hexponent : ∀ u : Significant,
      'e' ∈ DecimalStyle.literal.withExponent u.digits u.leading := by
    intro u
    rw [withExponent_literal]
    exact List.mem_append_right _ List.mem_cons_self
  rw [lay_literal, lay_literal] at h
  split at h <;> split at h
  · obtain ⟨hwhole, hfraction⟩ := hs.inPositions_inj ht h
    rw [lay_key, lay_key, inPositions_eq _ hs.ne_nil, inPositions_eq _ ht.ne_nil, hwhole, hfraction]
  · exact absurd (h ▸ hexponent t) (hs.not_mem_inPositions _)
  · exact absurd (h ▸ hexponent s) (ht.not_mem_inPositions _)
  · rw [hs.withExponent_inj ht h]

end Significant

namespace Binary64

def significant (x : Binary64) : Significant :=
  if x.magnitude = 0 then ⟨['0'], 0⟩
  else
    let digits := Nat.toDigits 10 (x.shortest true).digits
    ⟨digits, (x.shortest true).exponent + digits.length - 1⟩

theorem canonical_significant (x : Binary64) : x.significant.Canonical := by
  unfold significant
  split
  · exact ⟨List.cons_ne_nil _ _, List.forall_mem_singleton.mpr rfl, by simp⟩
  · next hzero =>
    have hshortest := shortest_mod_ten hzero true
    generalize x.shortest true = d at hshortest ⊢
    refine ⟨Nat.toDigits_ne_nil, fun c hc => Nat.isDigit_of_mem_toDigits (by decide) (by decide) hc,
      ?_⟩
    rcases hshortest with hlast | rfl
    · intro _
      rw [Decimal.getLast?_toDigits]
      simpa using hlast
    · intro hbehind
      simp at hbehind

end Binary64

namespace DecimalStyle

theorem toList_write {style : DecimalStyle} (htie : style.tieUp = true)
    (hzero : Significant.lay style ⟨['0'], 0⟩ = style.inPositions ['0'] 0) (x : Binary64) :
    (style.write x).toList =
      (if x.isNegative then ['-'] else []) ++ x.significant.lay style := by
  rw [write, String.toList_ofList, Binary64.significant]
  split
  all_goals
    by_cases hmagnitude : x.magnitude = 0
    · rw [if_pos hmagnitude, if_pos hmagnitude, hzero]
    · rw [if_neg hmagnitude, if_neg hmagnitude, htie]
      rfl

theorem sign_inj {a b : Bool} {s t : List Char} (hs : ∀ c ∈ s.head?, c.isDigit)
    (ht : ∀ c ∈ t.head?, c.isDigit)
    (h : (if a then ['-'] else []) ++ s = (if b then ['-'] else []) ++ t) : a = b ∧ s = t := by
  cases a <;> cases b
  · exact ⟨rfl, h⟩
  · cases hs _ (congrArg List.head? h)
  · cases ht _ (congrArg List.head? h).symm
  · exact ⟨rfl, List.append_cancel_left h⟩

/-- The text of a number in a query decides its key. -/
theorem key_write_eq {x y : Binary64} (h : literal.write x = literal.write y) :
    key.write x = key.write y := by
  have hx := x.canonical_significant
  have hy := y.canonical_significant
  have hlist := congrArg String.toList h
  rw [toList_write rfl rfl, toList_write rfl rfl] at hlist
  obtain ⟨hsign, hlay⟩ := sign_inj hx.head?_lay hy.head?_lay hlist
  apply String.toList_inj.mp
  rw [toList_write rfl rfl, toList_write rfl rfl, hsign, hx.lay_key_eq hy hlay]

theorem head?_write_literal (x : Binary64) :
    ∀ c ∈ (literal.write x).toList.head?, c = '-' ∨ c.isDigit := by
  intro c hc
  rw [toList_write rfl rfl] at hc
  split at hc
  · cases hc
    exact .inl rfl
  · exact .inr (x.canonical_significant.head?_lay c hc)

/-- By this the literal of a number is told from that of an integer. -/
theorem point_or_exponent_mem_write (x : Binary64) :
    '.' ∈ (literal.write x).toList ∨ 'e' ∈ (literal.write x).toList := by
  rw [toList_write rfl rfl]
  refine Or.imp (List.mem_append_right _) (List.mem_append_right _) ?_
  rw [Significant.lay_literal]
  split
  · left
    rw [Significant.inPositions_eq _ x.canonical_significant.ne_nil]
    apply List.mem_append_right
    split <;> exact List.mem_cons_self
  · right
    rw [Significant.withExponent_literal]
    exact List.mem_append_right _ List.mem_cons_self

end DecimalStyle

end NestedQuery
