import NestedQuery.Json.Decode
import NestedQuery.Value

/-!
# Values in JSON, exactly

Null, truth values and strings stand for themselves. A value that JSON could not hold without loss
stands in an object of one member: an integer by its digits, a floating point number by its sixteen
hexadecimal digits of bits, bytes by two hexadecimal digits each.
-/

namespace NestedQuery.Value

/-- The bytes in a string of hexadecimal digits. -/
def bytesOfJson? (j : Json) : Option (List UInt8) :=
  j.string?.bind fun s => Text.bytesOfHex? s.toList

def intOfJson? (j : Json) : Option Int := j.string?.bind fun s => Text.integer? s.toList

def realOfJson? (j : Json) : Option Binary64 :=
  (bytesOfJson? j).map fun bytes =>
    ⟨.ofNat (bytes.foldl (fun bits b => bits * 256 + b.toNat) 0)⟩

/-- The value that JSON stands for exactly. -/
def ofExactJson? : Json → Option Value
  | .null => some null
  | .bool b => some (bool b)
  | .str s => some (text s)
  | .obj [("i", v)] => (intOfJson? v).map int
  | .obj [("f", v)] => (realOfJson? v).map real
  | .obj [("x", v)] => (bytesOfJson? v).map bytes
  | _ => none

end NestedQuery.Value
