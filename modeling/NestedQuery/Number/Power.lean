/-!
# Powers

Powers of two and ten, and the integers of 64 bits.
-/

namespace NestedQuery

/-- The power of two with a given exponent. -/
def twoTo (exponent : Nat) : Nat := Nat.pow 2 exponent

/-- The power of ten with a given exponent. -/
def tenTo (exponent : Nat) : Nat := Nat.pow 10 exponent

/-- Whether 64 bits hold a number. -/
def fitsUnsigned (n : Nat) : Bool := n < twoTo 64

/-- Whether 64 bits, one of them for the sign, hold an integer. -/
def fitsSigned (n : Int) : Bool := -(twoTo 63 : Int) ≤ n && n < twoTo 63

end NestedQuery
