import ForwardSlicing.Number.Binary64
/-!
# Decimal text of numbers

A finite number is written with decimal digits in one of two layouts: positional, or one digit before the point
with an exponent. Two digit choices are used: the fewest digits that read back as the same number, and a fixed
count of digits correctly rounded. A `NumberFormat` says which layout applies to which exponent.
-/

namespace ForwardSlicing

/-- Decimal digits, without trailing zeros, and the power of ten of the first one. -/
structure Decimal where
  digits : List Char
  exponent : Int
deriving DecidableEq

namespace Decimal

/-- The exponent `e` with `10^e ≤ num / den < 10^(e+1)`, for a positive ratio. -/
def magnitude (num den : Nat) : Int :=
  if den ≤ num then ((Nat.toDigits 10 (num / den)).length : Int) - 1
  else
    let size := (Nat.toDigits 10 (den / num)).length
    if den ≤ num * Nat.pow 10 (size - 1) then -((size : Int) - 1) else -(size : Int)

def dropTrailingZeros (cs : List Char) : List Char :=
  (cs.reverse.dropWhile (· == '0')).reverse

/-- The decimal `n · 10^(exponent + 1 - count)`, where `n` has `count` digits, or is `10^count`. -/
def ofCount (n count : Nat) (exponent : Int) : Decimal :=
  if n = Nat.pow 10 count then ⟨['1'], exponent + 1⟩
  else ⟨dropTrailingZeros (Nat.toDigits 10 n), exponent⟩

/-- A positive ratio rounded to `count` significant digits, a half going to the even digit. -/
def rounded (count num den : Nat) : Decimal :=
  let e := magnitude num den
  let p := (count : Int) - 1 - e
  ofCount (Binary64.roundDiv (num * Nat.pow 10 p.toNat) (den * Nat.pow 10 (-p).toNat)) count e

/-- The numbers that round to `units`: the ends of the interval in quarter units, and whether it holds its ends. -/
def roundingInterval (units : Nat) : Nat × Nat × Bool :=
  let step := Binary64.spacing units
  let below := if units = Nat.pow 2 52 * step && step != 1 then step else 2 * step
  (4 * units - below, 4 * units + 2 * step, (units / step) % 2 == 0)

/-- The decimals with `count` digits that enclose `units`, the nearer one if both read back as it. -/
def shortestAt (units count : Nat) : Option Decimal :=
  let e := magnitude units Binary64.one
  let p := (count : Int) - 1 - e
  let (up, down) := (Nat.pow 10 p.toNat, Nat.pow 10 (-p).toNat)
  let (lo, hi, closed) := roundingInterval units
  let readsBack (n : Nat) : Bool :=
    let x := n * 4 * Binary64.one * down
    if closed then lo * up ≤ x && x ≤ hi * up else lo * up < x && x < hi * up
  let (num, den) := (units * up, Binary64.one * down)
  let (floor, rest) := (num / den, num % den)
  match readsBack floor, readsBack (floor + 1) with
  | false, false => none
  | true, false => some (ofCount floor count e)
  | false, true => some (ofCount (floor + 1) count e)
  | true, true => some (ofCount (if 2 * rest < den then floor else if den < 2 * rest then floor + 1
      else if floor % 2 = 0 then floor else floor + 1) count e)

/-- The fewest digits that read back as `units`; seventeen always do. -/
def shortest (units : Nat) : Decimal :=
  ((List.range 17).findSome? fun k => shortestAt units (k + 1)).getD (rounded 17 units Binary64.one)

def zeros (n : Nat) : List Char := List.replicate n '0'

/-- Digits around a point; `whole` is written after an integer. -/
def positional (d : Decimal) (whole : List Char) : List Char :=
  let size := d.digits.length
  if d.exponent < 0 then '0' :: '.' :: zeros ((-d.exponent).toNat - 1) ++ d.digits
  else
    let before := d.exponent.toNat + 1
    if size ≤ before then d.digits ++ zeros (before - size) ++ whole
    else d.digits.take before ++ '.' :: d.digits.drop before

/-- One digit before the point, and an exponent with a sign and at least two digits. -/
def scientific (d : Decimal) : List Char :=
  let power := Nat.toDigits 10 d.exponent.natAbs
  let point := if d.digits.length ≤ 1 then d.digits else d.digits.take 1 ++ '.' :: d.digits.drop 1
  point ++ 'e' :: (if d.exponent < 0 then '-' else '+') :: zeros (2 - power.length) ++ power

end Decimal

/-- How numbers are laid out: which exponents are positional, what follows a whole number, and the zero. -/
structure NumberFormat where
  leastPositional : Int
  pastPositional : Int
  whole : List Char
  digitsOf : Nat → Decimal

namespace NumberFormat

/-- Shortest digits; positional from `0.0001` to below `10^16`, and a whole number ends in `.0`. -/
def exact : NumberFormat := ⟨-4, 16, ['.', '0'], Decimal.shortest⟩

/-- Four significant digits; positional from `0.0001` to below `10000`. -/
def brief : NumberFormat := ⟨-4, 4, [], fun units => Decimal.rounded 4 units Binary64.one⟩

/-- A number as text. -/
def text (f : NumberFormat) : Binary64 → String
  | .nan => "nan"
  | .infinite n => if n then "-inf" else "inf"
  | .finite n units =>
    let body :=
      if units = 0 then '0' :: f.whole
      else
        let d := f.digitsOf units
        if f.leastPositional ≤ d.exponent && d.exponent < f.pastPositional then d.positional f.whole else d.scientific
    String.ofList (if n then '-' :: body else body)

end NumberFormat
end ForwardSlicing
