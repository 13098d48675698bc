/-!
# UTF-8

Text as bytes and back. `decode?` reads whole byte strings and refuses the ill-formed ones;
`decodeLossy` puts U+FFFD for every maximal ill-formed beginning of a character. Encoding loses
nothing: `decode?_encode`, `decodeLossy_encode`.
-/

namespace NestedQuery.Text.Utf8

/-- The bytes of a character. -/
def encodeChar (c : Char) : List UInt8 :=
  let n := c.toNat
  if n < 0x80 then [.ofNat n]
  else if n < 0x800 then [.ofNat (0xC0 + n / 0x40), .ofNat (0x80 + n % 0x40)]
  else if n < 0x10000 then
    [.ofNat (0xE0 + n / 0x1000), .ofNat (0x80 + n / 0x40 % 0x40), .ofNat (0x80 + n % 0x40)]
  else
    [.ofNat (0xF0 + n / 0x40000), .ofNat (0x80 + n / 0x1000 % 0x40),
      .ofNat (0x80 + n / 0x40 % 0x40), .ofNat (0x80 + n % 0x40)]

def encode (s : List Char) : List UInt8 := s.flatMap encodeChar

/-- The number of bytes of a text. -/
def size (s : List Char) : Nat := (encode s).length

/-- The payload of a continuation byte in the given range. -/
def tail? (low high : Nat) (b : UInt8) : Option Nat :=
  if low ≤ b.toNat ∧ b.toNat ≤ high then some (b.toNat - 0x80) else none

/--
Reads one character: `lead` is its first byte and `rest` what follows. Where no character can
start or go on, the answer is no character, and the rest starts behind the bytes that could have
begun one.
-/
def next (lead : UInt8) (rest : List UInt8) : Option Char × List UInt8 :=
  let n := lead.toNat
  if n < 0x80 then (some (.ofNat n), rest)
  else if 0xC2 ≤ n ∧ n < 0xE0 then last (n - 0xC0) rest
  else if n = 0xE0 then second 0xA0 0xBF 0 rest
  else if n = 0xED then second 0x80 0x9F 13 rest
  else if 0xE1 ≤ n ∧ n < 0xF0 then second 0x80 0xBF (n - 0xE0) rest
  else if n = 0xF0 then first 0x90 0xBF 0 rest
  else if 0xF1 ≤ n ∧ n < 0xF4 then first 0x80 0xBF (n - 0xF0) rest
  else if n = 0xF4 then first 0x80 0x8F 4 rest
  else (none, rest)
where
  last (acc : Nat) : List UInt8 → Option Char × List UInt8
    | [] => (none, [])
    | b :: rest =>
      match tail? 0x80 0xBF b with
      | some t => (some (.ofNat (acc * 0x40 + t)), rest)
      | none => (none, b :: rest)
  second (low high acc : Nat) : List UInt8 → Option Char × List UInt8
    | [] => (none, [])
    | b :: rest =>
      match tail? low high b with
      | some t => last (acc * 0x40 + t) rest
      | none => (none, b :: rest)
  first (low high acc : Nat) : List UInt8 → Option Char × List UInt8
    | [] => (none, [])
    | b :: rest =>
      match tail? low high b with
      | some t => second 0x80 0xBF (acc * 0x40 + t) rest
      | none => (none, b :: rest)

theorem length_last_le (acc : Nat) (rest : List UInt8) :
    (next.last acc rest).2.length ≤ rest.length := by
  unfold next.last
  split
  · simp
  · split <;> simp

theorem length_second_le (low high acc : Nat) (rest : List UInt8) :
    (next.second low high acc rest).2.length ≤ rest.length := by
  unfold next.second
  split
  · simp
  · split
    · next t _ => exact Nat.le_succ_of_le (length_last_le _ _)
    · simp

theorem length_first_le (low high acc : Nat) (rest : List UInt8) :
    (next.first low high acc rest).2.length ≤ rest.length := by
  unfold next.first
  split
  · simp
  · split
    · next t _ => exact Nat.le_succ_of_le (length_second_le _ _ _ _)
    · simp

theorem length_next_le (lead : UInt8) (rest : List UInt8) :
    (next lead rest).2.length ≤ rest.length := by
  unfold next
  simp only
  split
  · exact Nat.le_refl _
  repeat' split
  all_goals first
    | exact length_last_le _ _
    | exact length_second_le _ _ _ _
    | exact length_first_le _ _ _ _
    | exact Nat.le_refl _

/-- The characters of a byte string, or nothing if it is not UTF-8. -/
def decode? : List UInt8 → Option (List Char)
  | [] => some []
  | lead :: rest =>
    match (next lead rest).1 with
    | some c => (decode? (next lead rest).2).map (c :: ·)
    | none => none
termination_by bytes => bytes.length
decreasing_by exact Nat.lt_succ_of_le (length_next_le lead rest)

/-- The characters of a byte string, with U+FFFD where it is not UTF-8. -/
def decodeLossy : List UInt8 → List Char
  | [] => []
  | lead :: rest => (next lead rest).1.getD '\uFFFD' :: decodeLossy (next lead rest).2
termination_by bytes => bytes.length
decreasing_by exact Nat.lt_succ_of_le (length_next_le lead rest)

/-! ### Reading what was written -/

private theorem toNat_ofNat {n : Nat} (h : n < 256) : (UInt8.ofNat n).toNat = n := by
  simp [Nat.mod_eq_of_lt h]

private theorem tail?_ofNat {low high t : Nat} (hl : low ≤ 0x80 + t) (hh : 0x80 + t ≤ high)
    (hb : high < 256) : tail? low high (.ofNat (0x80 + t)) = some t := by
  rw [tail?, toNat_ofNat (by omega), if_pos ⟨hl, hh⟩, Nat.add_sub_cancel_left]

private theorem last_ofNat {acc t n : Nat} {rest : List UInt8} (ht : t < 0x40)
    (hn : acc * 0x40 + t = n) :
    next.last acc (.ofNat (0x80 + t) :: rest) = (some (.ofNat n), rest) := by
  have htail : tail? 0x80 0xBF (.ofNat (0x80 + t)) = some t :=
    tail?_ofNat (by omega) (by omega) (by omega)
  simp only [next.last, htail, hn]

private theorem second_ofNat {low high acc t n : Nat} {rest : List UInt8} (hl : low ≤ 0x80 + t)
    (hh : 0x80 + t ≤ high) (hb : high < 256) (hn : acc * 0x40 + t = n) :
    next.second low high acc (.ofNat (0x80 + t) :: rest) = next.last n rest := by
  simp only [next.second, tail?_ofNat hl hh hb, hn]

private theorem first_ofNat {low high acc t n : Nat} {rest : List UInt8} (hl : low ≤ 0x80 + t)
    (hh : 0x80 + t ≤ high) (hb : high < 256) (hn : acc * 0x40 + t = n) :
    next.first low high acc (.ofNat (0x80 + t) :: rest) = next.second 0x80 0xBF n rest := by
  simp only [next.first, tail?_ofNat hl hh hb, hn]

/-- The encoding of a character reads back as that character, whatever follows. -/
theorem next_encodeChar (c : Char) (rest : List UInt8) :
    ∃ lead tail, encodeChar c = lead :: tail ∧ next lead (tail ++ rest) = (some c, rest) := by
  have hvalid : c.toNat < 0xD800 ∨ (0xDFFF < c.toNat ∧ c.toNat < 0x110000) := c.valid
  have hc : Char.ofNat c.toNat = c := Char.ofNat_toNat c
  rw [encodeChar]
  generalize c.toNat = n at hvalid hc
  split
  · next h =>
    refine ⟨_, _, rfl, ?_⟩
    simp only [next, toNat_ofNat (show n < 256 by omega), if_pos h, hc, List.nil_append]
  split
  · next h₁ h =>
    refine ⟨_, _, rfl, ?_⟩
    simp only [next, toNat_ofNat (show 0xC0 + n / 0x40 < 256 by omega)]
    rw [if_neg (by omega), if_pos (by omega), List.cons_append,
      last_ofNat (n := n) (by omega) (by omega), hc]
    rfl
  split
  · next h₁ h₂ h =>
    refine ⟨_, _, rfl, ?_⟩
    simp only [next, toNat_ofNat (show 0xE0 + n / 0x1000 < 256 by omega)]
    rw [if_neg (by omega), if_neg (by omega)]
    simp only [List.cons_append, List.nil_append]
    split
    · rw [second_ofNat (n := n / 0x40) (by omega) (by omega) (by omega) (by omega),
        last_ofNat (n := n) (by omega) (by omega), hc]
    split
    · rw [second_ofNat (n := n / 0x40) (by omega) (by omega) (by omega) (by omega),
        last_ofNat (n := n) (by omega) (by omega), hc]
    rw [if_pos (by omega), second_ofNat (n := n / 0x40) (by omega) (by omega) (by omega) (by omega),
      last_ofNat (n := n) (by omega) (by omega), hc]
  · next h₁ h₂ h₃ =>
    refine ⟨_, _, rfl, ?_⟩
    simp only [next, toNat_ofNat (show 0xF0 + n / 0x40000 < 256 by omega)]
    rw [if_neg (by omega), if_neg (by omega), if_neg (by omega), if_neg (by omega),
      if_neg (by omega)]
    simp only [List.cons_append, List.nil_append]
    split
    · rw [first_ofNat (n := n / 0x1000) (by omega) (by omega) (by omega) (by omega),
        second_ofNat (n := n / 0x40) (by omega) (by omega) (by omega) (by omega),
        last_ofNat (n := n) (by omega) (by omega), hc]
    split
    · rw [first_ofNat (n := n / 0x1000) (by omega) (by omega) (by omega) (by omega),
        second_ofNat (n := n / 0x40) (by omega) (by omega) (by omega) (by omega),
        last_ofNat (n := n) (by omega) (by omega), hc]
    rw [if_pos (by omega),
      first_ofNat (n := n / 0x1000) (by omega) (by omega) (by omega) (by omega),
      second_ofNat (n := n / 0x40) (by omega) (by omega) (by omega) (by omega),
      last_ofNat (n := n) (by omega) (by omega), hc]

theorem decode?_encode (s : List Char) : decode? (encode s) = some s := by
  induction s with
  | nil => simp [encode, decode?]
  | cons c s ih =>
    obtain ⟨lead, tail, hc, hnext⟩ := next_encodeChar c (encode s)
    simp only [encode] at ih hnext ⊢
    rw [List.flatMap_cons, hc, List.cons_append, decode?, hnext, ih]
    rfl

theorem decodeLossy_encode (s : List Char) : decodeLossy (encode s) = s := by
  induction s with
  | nil => simp [encode, decodeLossy]
  | cons c s ih =>
    obtain ⟨lead, tail, hc, hnext⟩ := next_encodeChar c (encode s)
    simp only [encode] at ih hnext ⊢
    rw [List.flatMap_cons, hc, List.cons_append, decodeLossy, hnext, ih]
    rfl

end NestedQuery.Text.Utf8
