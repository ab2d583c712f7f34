import Catalog.Decimal.Shortest

/-!
JSON numbers: the integers of 64 bits, signed or not, and doubles for all else.
-/

namespace Catalog

inductive Number where
  | int (n : Int)
  | double (x : Double)
deriving DecidableEq

namespace Number

def text : Number → String
  | .int n => toString n
  | .double x => x.text

/-- The number has no fraction, however it is written. -/
def isWhole : Number → Bool
  | .int _ => true
  | .double x => x.isWhole

/-- Equality of values. An integer and a double agree when the double is the one nearest to the
integer. -/
def agrees : Number → Number → Bool
  | .int m, .int n => m = n
  | .double x, .double y => x.agrees y
  | .int m, .double y => (Double.ofInt? m).any (·.agrees y)
  | .double x, .int n => (Double.ofInt? n).any (·.agrees x)

/-- The number as so many units of a power of two. -/
def units : Number → Int × Int
  | .int n => (n, 0)
  | .double x => (if x.negative then -(x.mantissa : Int) else x.mantissa, x.exponent)

/-- The order of values, which are compared as they are and not rounded: in the smaller of the two
units. -/
def le (x y : Number) : Bool :=
  let (m, d) := x.units
  let (n, e) := y.units
  m * Nat.pow 2 (d - e).toNat ≤ n * Nat.pow 2 (e - d).toNat

end Number
end Catalog
