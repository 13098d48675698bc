import NestedQuery.Json.Basic
import NestedQuery.Json.Written

/-!
# JSON text, read

A written value is read within limits: containers are nested at most `maxDepth` deep, and a number
too great for the floating point format is refused. Integers of 64 bits, signed or not, stay
integers. Any other number is the floating point number of its leading digits, as many as fit into
64 bits, scaled by a power of ten with a rounding of its own.
-/

namespace NestedQuery.Json

open Text

/-- Containers nested deeper than this are refused. -/
def maxDepth : Nat := 127

/-! ### Numbers -/

/-- The leading digits of a number that fit into 64 bits, and the power of ten that scales them. -/
structure Leading where
  significand : Nat
  exponent : Int

namespace Leading

/-- Adds digits before the point; from the first that does not fit they only scale. -/
def whole (l : Leading) : List Char → Leading
  | [] => l
  | c :: rest =>
    let next := l.significand * 10 + (digitValue? 10 c).getD 0
    if fitsUnsigned next then whole ⟨next, l.exponent⟩ rest
    else ⟨l.significand, l.exponent + (rest.length + 1)⟩

/-- Adds digits behind the point; from the first that does not fit they are dropped. -/
def fraction (l : Leading) : List Char → Leading
  | [] => l
  | c :: rest =>
    let next := l.significand * 10 + (digitValue? 10 c).getD 0
    if fitsUnsigned next then fraction ⟨next, l.exponent - 1⟩ rest else l

end Leading

/-- Scales a number by a power of ten; powers beyond `10 ^ 308` are divided off step by step. -/
def scaled? : Nat → Binary64 → Int → Option Binary64
  | 0, x, _ => some x
  | fuel + 1, x, exponent =>
    if exponent.natAbs ≤ 308 then
      let power := Binary64.ofNat (tenTo exponent.natAbs)
      let y := if 0 ≤ exponent then x.mul power else x.div power
      if y.isFinite then some y else none
    else if x.magnitude = 0 then some x
    else if 0 ≤ exponent then none
    else scaled? fuel (x.div (.ofNat (tenTo 308))) (exponent + 308)

/-- The floating point number of a written number, unless it is too great. -/
def WrittenNumber.real? (n : WrittenNumber) : Option Binary64 := do
  let leading := (Leading.whole ⟨0, 0⟩ n.whole).fraction n.fraction
  let exponent : Int := match n.exponent with
    | some (negative, digits) =>
      let e : Int := valueOfDigits 10 digits
      if negative then -e else e
    | none => 0
  let x ← scaled? 4 (.ofNat leading.significand) (leading.exponent + exponent)
  return if n.negative then x.neg else x

/-- The integer of a written number that has neither fraction nor exponent and fits 64 bits. -/
def WrittenNumber.integer? (n : WrittenNumber) : Option Int :=
  if n.fraction.isEmpty && n.exponent.isNone then
    let magnitude := valueOfDigits 10 n.whole
    if n.negative then
      if 0 < magnitude ∧ magnitude ≤ twoTo 63 then some (-magnitude) else none
    else if fitsUnsigned magnitude then some magnitude else none
  else none

def WrittenNumber.value? (n : WrittenNumber) : Option Json :=
  match n.integer? with
  | some i => some (.int i)
  | none => n.real?.map .real

/-! ### Strings -/

/-- The characters of a written string; an escaped half of a pair needs its other half. -/
def characters? : List StringPiece → Option (List Char)
  | [] => some []
  | .char c :: rest => (characters? rest).map (c :: ·)
  | .unit n :: rest =>
    if n < 0xD800 ∨ 0xE000 ≤ n then (characters? rest).map (.ofNat n :: ·)
    else if n < 0xDC00 then
      match rest with
      | .unit m :: rest =>
        if 0xDC00 ≤ m ∧ m < 0xE000 then
          (characters? rest).map (.ofNat (0x10000 + (n - 0xD800) * 0x400 + (m - 0xDC00)) :: ·)
        else none
      | _ => none
    else none

def unescape? (pieces : List StringPiece) : Option String := (characters? pieces).map .ofList

/-! ### Values -/

mutual

/-- The value of a written text, in which containers are nested at most `depth` deep. -/
def Written.value? (depth : Nat) : Written → Option Json
  | .null => some .null
  | .bool b => some (.bool b)
  | .number n => n.value?
  | .string pieces => (unescape? pieces).map .str
  | .array items => if depth = 0 then none else (items? (depth - 1) items).map .arr
  | .object members =>
    if depth = 0 then none else (members? (depth - 1) members).map .ofMembers

def Written.items? (depth : Nat) : List Written → Option (List Json)
  | [] => some []
  | item :: rest => do return (← item.value? depth) :: (← items? depth rest)

def Written.members? (depth : Nat) :
    List (List StringPiece × Written) → Option (List (String × Json))
  | [] => some []
  | (key, value) :: rest => do
    return (← unescape? key, ← value.value? depth) :: (← members? depth rest)

end

/-- The value of a whole JSON text. -/
def ofText? (s : String) : Option Json := (Written.ofText? s.toList).bind (·.value? maxDepth)

end NestedQuery.Json
