/-!
# Binary floating-point numbers

Times and the fractional numbers of a document are double-precision numbers. The finite ones are the multiples
of `2^-1074` whose significant part fits in 53 bits, so a finite number is held as a sign and a count of these
units, and arithmetic is exact arithmetic on counts followed by `ofRatio`, which rounds to the nearest
representable count.
-/

namespace ForwardSlicing

/-- A double-precision number; a finite one is `units · 2^-1074`, negated if the sign says so. -/
inductive Binary64 where
  | nan
  | infinite (negative : Bool)
  | finite (negative : Bool) (units : Nat)
deriving DecidableEq, Inhabited

namespace Binary64

/-- The units in the number one. -/
def one : Nat := Nat.pow 2 1074

/-- The units in `2^1024`, from where a magnitude rounds to infinity. -/
def limit : Nat := Nat.pow 2 2098

/-- A quotient rounded to the nearest integer, a half to the even one. -/
def roundDiv (num den : Nat) : Nat :=
  let q := num / den
  let twice := 2 * (num % den)
  if twice < den then q
  else if den < twice then q + 1
  else if q % 2 = 0 then q else q + 1

/-- The distance between neighbouring numbers from a magnitude on, in units. -/
def spacing (units : Nat) : Nat := Nat.pow 2 (units.log2 + 1 - 53)

/-- The number nearest to `num / den` units, an equal distance going to the even significand. -/
def ofRatio (negative : Bool) (num den : Nat) : Binary64 :=
  let step := spacing (num / den)
  let units := roundDiv num (den * step) * step
  if units < limit then .finite negative units else .infinite negative

/-- The number nearest to a signed count of units. -/
def ofUnits (units : Int) : Binary64 :=
  ofRatio (units < 0) units.natAbs 1

def ofInt (i : Int) : Binary64 :=
  ofRatio (i < 0) (i.natAbs * one) 1

/-- The number nearest to `± mantissa · 10^exponent`. -/
def ofDecimal (negative : Bool) (mantissa : Nat) (exponent : Int) : Binary64 :=
  let size := (Nat.toDigits 10 mantissa).length
  if mantissa = 0 then .finite negative 0
  else if 400 < size + exponent then .infinite negative
  else if size + exponent < -400 then .finite negative 0
  else ofRatio negative (mantissa * Nat.pow 10 exponent.toNat * one) (Nat.pow 10 (-exponent).toNat)

def isNegative : Binary64 → Bool
  | .nan => false
  | .infinite n => n
  | .finite n _ => n

/-- A finite number as a signed count of units. -/
def signedUnits (negative : Bool) (units : Nat) : Int :=
  if negative then -(units : Int) else units

/-- The sign of a product or quotient. -/
def signs (x y : Binary64) : Bool := x.isNegative != y.isNegative

def mul : Binary64 → Binary64 → Binary64
  | .nan, _ => .nan
  | _, .nan => .nan
  | .finite a m, .finite b n => ofRatio (a != b) (m * n) one
  | x, y => if x = .finite x.isNegative 0 || y = .finite y.isNegative 0 then .nan else .infinite (signs x y)

def div : Binary64 → Binary64 → Binary64
  | .nan, _ => .nan
  | _, .nan => .nan
  | .infinite _, .infinite _ => .nan
  | .infinite a, .finite b _ => .infinite (a != b)
  | .finite a _, .infinite b => .finite (a != b) 0
  | .finite a m, .finite b n =>
    if n = 0 then (if m = 0 then .nan else .infinite (a != b)) else ofRatio (a != b) (m * one) n

def sub : Binary64 → Binary64 → Binary64
  | .nan, _ => .nan
  | _, .nan => .nan
  | .infinite a, .infinite b => if a = b then .nan else .infinite a
  | .infinite a, .finite _ _ => .infinite a
  | .finite _ _, .infinite b => .infinite !b
  | .finite a m, .finite b n =>
    if m = 0 && n = 0 then .finite (a && !b) 0 else ofUnits (signedUnits a m - signedUnits b n)

/-- `x < y`; no comparison with a NaN holds. -/
def lt : Binary64 → Binary64 → Bool
  | .nan, _ => false
  | _, .nan => false
  | .infinite a, .infinite b => a && !b
  | .infinite a, .finite _ _ => a
  | .finite _ _, .infinite b => !b
  | .finite a m, .finite b n => signedUnits a m < signedUnits b n

/-- The integer part of a finite number, rounding toward zero. -/
def truncate? : Binary64 → Option Int
  | .finite a m => some (signedUnits a (m / one))
  | _ => none

/-- The greatest integer that is not above a finite number. -/
def floor? : Binary64 → Option Int
  | .finite a m => some ((signedUnits a m).fdiv one)
  | _ => none

/-- The integer that a number is equal to, if there is one. -/
def integer? : Binary64 → Option Int
  | .finite a m => if m % one = 0 then some (signedUnits a (m / one)) else none
  | _ => none

/-- The number equals an integer. -/
def equalsInt (x : Binary64) (i : Int) : Bool :=
  match x with
  | .finite a m => signedUnits a m == i * (one : Int)
  | _ => false

/-- Equality of values: zeros of either sign are equal, a NaN equals nothing. -/
def same : Binary64 → Binary64 → Bool
  | .infinite a, .infinite b => a == b
  | .finite a m, .finite b n => signedUnits a m == signedUnits b n
  | _, _ => false

end Binary64
end ForwardSlicing
