import NestedQuery.Text.Numeral
import NestedQuery.Text.Utf8

/-!
# Percent encoding

Letters, digits and `-._~` stand for themselves; every other character is written as the bytes of
its UTF-8 encoding, each as `%` and two hexadecimal digits. Decoding accepts more than encoding
writes: a `%` that no two hexadecimal digits follow stands for itself.
-/

namespace NestedQuery.Text.Percent

/-- The bytes that stand for themselves. -/
def isPlain (b : UInt8) : Bool :=
  let n := b.toNat
  (0x30 ≤ n && n ≤ 0x39) || (0x41 ≤ n && n ≤ 0x5A) || (0x61 ≤ n && n ≤ 0x7A) ||
    n == 0x2D || n == 0x2E || n == 0x5F || n == 0x7E

def encodeByte (b : UInt8) : List Char :=
  if isPlain b then [.ofNat b.toNat]
  else ['%', hexDigitUpper (b.toNat / 16), hexDigitUpper (b.toNat % 16)]

def encode (s : List Char) : List Char := (Utf8.encode s).flatMap encodeByte

/-- The byte written by two hexadecimal digits, themselves given as bytes. -/
def pair? (a b : UInt8) : Option UInt8 := do
  let high ← digitValue? 16 (.ofNat a.toNat)
  let low ← digitValue? 16 (.ofNat b.toNat)
  return .ofNat (high * 16 + low)

/-- Replaces every `%` with two hexadecimal digits by the byte they write. -/
def decodeBytes : List UInt8 → List UInt8
  | [] => []
  | a :: b :: c :: rest =>
    if a = 0x25 then
      match pair? b c with
      | some byte => byte :: decodeBytes rest
      | none => a :: decodeBytes (b :: c :: rest)
    else a :: decodeBytes (b :: c :: rest)
  | a :: rest => a :: decodeBytes rest

/-- The decoded text, or the text itself where the decoded bytes are not UTF-8. -/
def decode (s : List Char) : List Char :=
  (Utf8.decode? (decodeBytes (Utf8.encode s))).getD s

end NestedQuery.Text.Percent
