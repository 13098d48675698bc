import NestedQuery.Json.Basic
import NestedQuery.Json.Printer
import NestedQuery.Number.DecimalStyle
import NestedQuery.Text.Numeral

/-!
# Values of records

The scalar in a column of a record, and its three texts: as a literal in a query, as a key by which
children are found, and as JSON.
-/

namespace NestedQuery

inductive Value where
  | null
  | bool (b : Bool)
  | int (n : Int)
  | real (x : Binary64)
  | text (s : String)
  | bytes (b : List UInt8)
  deriving DecidableEq, Repr, Inhabited

namespace Value

/-- Text between single quotes, in which a quote is written twice. -/
def quote (s : String) : String :=
  .ofList ('\'' :: s.toList.flatMap (fun c => if c = '\'' then ['\'', '\''] else [c]) ++ ['\''])

/-- The literal of a value in query text. Null and numbers that are not finite have none. -/
def literal? : Value → Option String
  | null => none
  | bool b => some (if b then "1" else "0")
  | int n => some (toString n)
  | real x => if x.isFinite then some (DecimalStyle.literal.write x) else none
  | text s => some (quote s)
  | bytes b => some ("X'" ++ .ofList (Text.hexOfBytes b) ++ "'")

/-- The key of a value, under which a record finds its children. Null has none. -/
def key? : Value → Option String
  | null => none
  | bool b => some (if b then "true" else "false")
  | int n => some (toString n)
  | real x =>
    if x.isFinite then some (DecimalStyle.key.write x)
    else if x.isNaN then some "NaN"
    else some (if x.isNegative then "-inf" else "inf")
  | text s => some s
  | bytes b => some (.ofList (Text.hexOfBytes b))

/-- The value in JSON: bytes as a list of numbers, numbers that are not finite as null. -/
def toJson : Value → Json
  | null => .null
  | bool b => .bool b
  | int n => .int n
  | real x => if x.isFinite then .real x else .null
  | text s => .str s
  | bytes b => .arr (b.map fun byte => .int byte.toNat)

def byteOfJson? : Json → Option UInt8
  | .int n => if 0 ≤ n ∧ n < 256 then some (.ofNat n.toNat) else none
  | _ => none

/-- The value that JSON stands for: integers beyond 64 bits with sign become floating point. -/
def ofJson? : Json → Option Value
  | .null => some null
  | .bool b => some (bool b)
  | .int n => some (if fitsSigned n then int n else real (.ofInt n))
  | .real x => some (real x)
  | .str s => some (text s)
  | .arr items => (items.mapM byteOfJson?).map bytes
  | .obj _ => none

end Value

end NestedQuery
