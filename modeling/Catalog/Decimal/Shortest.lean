import Catalog.Decimal.Double

/-!
The fewest decimal digits that read back as a given double, and of those with as few digits the
nearest. The reals that round to a double form an interval; a decimal grid is tried for each number
of digits, and if any point of the grid lies in the interval then so does one of the two neighbours
of the double.
-/

namespace Catalog

/-- The number `digits * 10 ^ exponent`. -/
structure Decimal where
  digits : Nat
  exponent : Int

/-- How many decimal digits `n` is written with. -/
def Decimal.length (n : Nat) : Nat :=
  (Nat.toDigits 10 n).length

namespace Double

/-- The exponent `p` with `10 ^ p ≤ num / den < 10 ^ (p + 1)`, of a positive fraction. -/
def decimalExponent (num den : Nat) : Int :=
  if den ≤ num then (Decimal.length (num / den) : Int) - 1
  else -(Decimal.length ((den - 1) / num) : Int)

/-- A nearest point of the grid of multiples of `10 ^ p` that rounds to `x`, if the grid has one. -/
def onGrid? (x : Double) (p : Int) : Option Decimal :=
  let quarter := x.exponent - 2
  let scale := Nat.pow 2 quarter.toNat * Nat.pow 10 (-p).toNat
  let step := Nat.pow 2 (-quarter).toNat * Nat.pow 10 p.toNat
  let value := 4 * x.mantissa * scale
  let below := if x.mantissa = Nat.pow 2 52 && -1074 < x.exponent then 1 else 2
  let low := (4 * x.mantissa - below) * scale
  let high := (4 * x.mantissa + 2) * scale
  let rounds (d : Nat) : Bool :=
    if x.mantissa % 2 = 0 then low ≤ d * step && d * step ≤ high
    else low < d * step && d * step < high
  let d := value / step
  let near :=
    if 2 * (value % step) < step || (2 * (value % step) = step && d % 2 = 0) then d else d + 1
  let far := if near = d then d + 1 else d
  if rounds near then some ⟨near, p⟩ else if rounds far then some ⟨far, p⟩ else none

/-- The shortest decimal that reads back as `x`, which is not zero. Seventeen digits are always
enough. -/
def shortest (x : Double) : Decimal :=
  let u := inUnits x.mantissa 1 (-x.exponent)
  let top := decimalExponent u.1 u.2
  ((List.range 17).findSome? fun (n : Nat) => onGrid? x (top - n)).getD ⟨x.mantissa, 0⟩

/-- The text of a double: its shortest digits, positional with at least one digit on each side of
the point from `1e-5` up to but not including `1e16`, and beyond that as one digit, a fraction if
there is one, and a signed exponent. -/
def text (x : Double) : String :=
  let sign := if x.negative then "-" else ""
  if x.isZero then sign ++ "0.0"
  else
    let d := x.shortest
    let all := Nat.toDigits 10 d.digits
    let ds := (all.reverse.dropWhile (· = '0')).reverse
    let point : Int := all.length + d.exponent
    let body : List Char :=
      if 0 < point && point ≤ 16 then
        let n := point.toNat
        if ds.length ≤ n then ds ++ List.replicate (n - ds.length) '0' ++ ['.', '0']
        else ds.take n ++ '.' :: ds.drop n
      else if -5 < point && point ≤ 0 then
        '0' :: '.' :: List.replicate (-point).toNat '0' ++ ds
      else
        let fraction := if ds.length ≤ 1 then [] else '.' :: ds.drop 1
        let e := point - 1
        ds.take 1 ++ fraction ++ ['e', if e < 0 then '-' else '+'] ++ Nat.toDigits 10 e.natAbs
    sign ++ String.ofList body

end Double
end Catalog
