import Catalog.Json.Number
import Catalog.Json.Source

/-!
JSON numerals and the numbers that they stand for. A numeral of digits alone is an integer if it
fits 64 bits. All others are doubles: the digits are taken up while they fit an unsigned 64-bit
significand, and the significand is scaled by one power of ten, so that each of the two steps rounds
once.
-/

namespace Catalog.Json

/-- The parts of a numeral. -/
structure Numeral where
  negative : Bool
  whole : List Nat
  /-- The digits after the point, if there is one. -/
  fraction : Option (List Nat)
  /-- The sign and the digits of the exponent, if there is one; `true` is minus. -/
  exponent : Option (Bool × List Nat)

def digit? (u : Option Char) : Option Nat :=
  u.bind fun c => if '0' ≤ c && c ≤ '9' then some (c.toNat - '0'.toNat) else none

/-- The digits in front. -/
def takeDigits : Source → List Nat × Source
  | [] => ([], [])
  | u :: rest =>
    match digit? u with
    | some d => let r := takeDigits rest; (d :: r.1, r.2)
    | none => ([], u :: rest)

/-- At least one digit. -/
def readDigits : Reader ReadError (List Nat) := fun s =>
  match takeDigits s with
  | ([], []) => .error .unfinished
  | ([], _) => .error .malformed
  | r => .ok r

/-- The whole part of a numeral, which has no leading zero. -/
def readWhole : Reader ReadError (List Nat) := fun s =>
  match readDigits s with
  | .ok (0 :: _ :: _, _) => .error .malformed
  | r => r

def readFraction : Reader ReadError (Option (List Nat))
  | some '.' :: rest => (readDigits rest).map fun r => (some r.1, r.2)
  | s => .ok (none, s)

def readExponent : Reader ReadError (Option (Bool × List Nat))
  | some 'e' :: rest | some 'E' :: rest =>
    match rest with
    | some '-' :: rest => (readDigits rest).map fun r => (some (true, r.1), r.2)
    | some '+' :: rest => (readDigits rest).map fun r => (some (false, r.1), r.2)
    | rest => (readDigits rest).map fun r => (some (false, r.1), r.2)
  | s => .ok (none, s)

def readNumeral : Reader ReadError Numeral := fun s => do
  let (negative, s) := match s with
    | some '-' :: rest => (true, rest)
    | s => (false, s)
  let (whole, s) ← readWhole s
  let (fraction, s) ← readFraction s
  let (exponent, s) ← readExponent s
  return (⟨negative, whole, fraction, exponent⟩, s)

/-- The number that digits stand for. -/
def digitsValue (ds : List Nat) : Nat :=
  ds.foldl (fun n d => n * 10 + d) 0

/-- Takes digits into the significand while it fits 64 bits, and returns the digits that are
left. -/
def absorb (significand : Nat) : List Nat → Nat × List Nat
  | [] => (significand, [])
  | d :: ds =>
    if significand * 10 + d < Nat.pow 2 64 then absorb (significand * 10 + d) ds
    else (significand, d :: ds)

/-- The double nearest to a power of ten, up to the largest that is one. -/
def tenPower (k : Nat) : Double :=
  (Double.nearest? false (Nat.pow 10 k) 1).getD (.zero false)

/-- `x / 10 ^ k` by powers of ten that are doubles. Once the quotient is zero it stays so. -/
def scaleDown (x : Double) (k : Nat) : Option Double :=
  if k ≤ 308 then x.div? (tenPower k)
  else if x.isZero then some x
  else (x.div? (tenPower 308)).bind fun y => scaleDown y (k - 308)
termination_by k

/-- `x * 10 ^ k`, or none beyond the largest double. -/
def scaleUp (x : Double) (k : Nat) : Option Double :=
  if k ≤ 308 then x.mul? (tenPower k) else if x.isZero then some x else none

namespace Numeral

/-- The number that the numeral stands for, or none if it is too large for a double. -/
def value? (n : Numeral) : Option Number :=
  let m := digitsValue n.whole
  if n.fraction.isNone && n.exponent.isNone && !n.negative && m < Nat.pow 2 64 then some (.int m)
  else if n.fraction.isNone && n.exponent.isNone && n.negative && 0 < m && m ≤ Nat.pow 2 63 then
    some (.int (-m))
  else
    let (w, restWhole) := absorb 0 n.whole
    let fraction := n.fraction.getD []
    let (f, restFraction) := absorb w fraction
    let shift : Int := (restWhole.length : Int) - (fraction.length - restFraction.length : Nat)
    let exponent : Int := match n.exponent with
      | some (true, ds) => shift - digitsValue ds
      | some (false, ds) => shift + digitsValue ds
      | none => shift
    (Double.ofInt? f).bind fun x =>
      let y := if 0 ≤ exponent then scaleUp x exponent.toNat else scaleDown x (-exponent).toNat
      y.map fun y => .double ⟨n.negative, y.mantissa, y.exponent⟩

end Numeral
end Catalog.Json
