/-!
Double precision numbers by their exact values. A finite double is a sign and a whole number of
units `2 ^ exponent`; every operation computes the exact result and rounds it once, to the nearest
double, an exact half to the neighbour with the even mantissa.
-/

namespace Catalog

/-- The finite double `± mantissa * 2 ^ exponent`. The exponent is the least that fits: the mantissa
has 53 bits, or fewer at the exponent `-1074` of the smallest doubles. -/
structure Double where
  negative : Bool
  mantissa : Nat
  exponent : Int
deriving DecidableEq

namespace Double

/-- Zero, which has a sign too. -/
def zero (negative : Bool) : Double :=
  ⟨negative, 0, -1074⟩

/-- The quotient rounded to the nearest whole number, an exact half to the even one. -/
def roundDiv (num den : Nat) : Nat :=
  let q := num / den
  let r := num % den
  if 2 * r < den then q
  else if den < 2 * r then q + 1
  else if q % 2 = 0 then q else q + 1

/-- `num / den` counted in units of `2 ^ e`, as a fraction. -/
def inUnits (num den : Nat) (e : Int) : Nat × Nat :=
  if 0 ≤ e then (num, den * Nat.pow 2 e.toNat) else (num * Nat.pow 2 (-e).toNat, den)

/-- The exponent of the unit in which the doubles around `num / den` are counted. -/
def unitExponent (num den : Nat) : Int :=
  let e : Int := (num.log2 : Int) - den.log2 - 52
  let u := inUnits num den e
  max (-1074) (if u.1 / u.2 < Nat.pow 2 52 then e - 1 else e)

/-- The double nearest to `num / den`, or none beyond the largest finite double. -/
def nearest? (negative : Bool) (num den : Nat) : Option Double :=
  if num = 0 then some (zero negative)
  else
    let e := unitExponent num den
    let u := inUnits num den e
    let m := roundDiv u.1 u.2
    let x : Double := if m = Nat.pow 2 53 then ⟨negative, Nat.pow 2 52, e + 1⟩ else ⟨negative, m, e⟩
    if x.exponent ≤ 971 then some x else none

/-- The double nearest to a whole number. -/
def ofInt? (n : Int) : Option Double :=
  nearest? (n < 0) n.natAbs 1

def isZero (x : Double) : Bool :=
  x.mantissa = 0

/-- A product, or none if it is beyond the largest finite double. -/
def mul? (x y : Double) : Option Double :=
  let u := inUnits (x.mantissa * y.mantissa) 1 (-(x.exponent + y.exponent))
  nearest? (x.negative != y.negative) u.1 u.2

/-- A quotient, or none if it is beyond the largest finite double; `y` is not zero. -/
def div? (x y : Double) : Option Double :=
  let u := inUnits x.mantissa y.mantissa (y.exponent - x.exponent)
  nearest? (x.negative != y.negative) u.1 u.2

/-- The number has no fraction. -/
def isWhole (x : Double) : Bool :=
  0 ≤ x.exponent || x.mantissa % Nat.pow 2 (-x.exponent).toNat = 0

/-- The number as an integer, its fraction dropped. -/
def truncate (x : Double) : Int :=
  let n : Nat :=
    if 0 ≤ x.exponent then x.mantissa * Nat.pow 2 x.exponent.toNat
    else x.mantissa / Nat.pow 2 (-x.exponent).toNat
  if x.negative then -n else n

/-- Equality of values: the two zeros are equal. -/
def agrees (x y : Double) : Bool :=
  x = y || (x.isZero && y.isZero)

end Double
end Catalog
