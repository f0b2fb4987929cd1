/-! Binary floating point with 53 significant bits, as exact values: a finite number is
a natural significand times a power of two. The only operation is reading a decimal
numeral, to the nearest number with ties to the even significand, in exact integer
arithmetic. -/

namespace RuleTransducer

/-- A floating-point number. A finite one is `± significand * 2 ^ exponent` with
`significand < 2 ^ 53` and `-1074 ≤ exponent ≤ 971`. -/
inductive Binary64
  | finite (negative : Bool) (significand : Nat) (exponent : Int)
  | infinite (negative : Bool)
  | notANumber
  deriving DecidableEq, Inhabited

namespace Binary64

/-- A power of two. -/
def twoTo (n : Nat) : Nat := Nat.pow 2 n

/-- A power of ten. -/
def tenTo (n : Nat) : Nat := Nat.pow 10 n

def leastExponent : Int := -1074

def greatestExponent : Int := 971

def zero (negative : Bool) : Binary64 := .finite negative 0 leastExponent

/-- Whether the number equals zero, whatever its sign. -/
def isZero : Binary64 → Bool
  | .finite _ significand _ => significand == 0
  | _ => false

def isFinite : Binary64 → Bool
  | .finite _ _ _ => true
  | _ => false

/-- The number one. -/
def one : Binary64 := .finite false (twoTo 52) (-52)

/-- A finite number in units of the least positive one, `2 ^ -1074`. -/
def units : Binary64 → Int
  | .finite negative significand exponent =>
    let magnitude := Int.ofNat (significand * twoTo (exponent - leastExponent).toNat)
    if negative then -magnitude else magnitude
  | _ => 0

/-- The number of decimal digits of `n`, none for zero. -/
def decimalLength (n : Nat) : Nat :=
  if n = 0 then 0 else (Nat.toDigits 10 n).length

/-- `num / den` to the nearest integer, a half to the even one. -/
def roundHalfEven (num den : Nat) : Nat :=
  let quotient := num / den
  let twice := 2 * (num % den)
  if twice < den || (twice == den && quotient % 2 == 0) then quotient else quotient + 1

/-- `num / (den * 2 ^ e)` as a fraction of naturals. -/
def scaled (num den : Nat) (e : Int) : Nat × Nat :=
  if 0 ≤ e then (num, den * twoTo e.toNat) else (num * twoTo (-e).toNat, den)

/-- The number nearest to `num / den`, for a positive fraction. The exponent is the
least for which the quotient stays below `2 ^ 53`, as far as the range allows. -/
def ofFraction (negative : Bool) (num den : Nat) : Binary64 :=
  let guess : Int := Int.ofNat num.log2 - Int.ofNat den.log2 - 52
  let (n, d) := scaled num den guess
  let e := max leastExponent (if n < twoTo 52 * d then guess - 1 else guess)
  let (n, d) := scaled num den e
  let significand := roundHalfEven n d
  let (significand, e) := if significand = twoTo 53 then (twoTo 52, e + 1) else (significand, e)
  if greatestExponent < e then .infinite negative else .finite negative significand e

/-- The number nearest to `digits * 10 ^ scale`. Magnitudes far outside the range are
decided by their length alone, so that no huge power is formed. -/
def ofDecimal (negative : Bool) (digits : Nat) (scale : Int) : Binary64 :=
  let magnitude := Int.ofNat (decimalLength digits) + scale
  if digits = 0 || magnitude < -330 then zero negative
  else if 310 < magnitude then .infinite negative
  else if 0 ≤ scale then ofFraction negative (digits * tenTo scale.toNat) 1
  else ofFraction negative digits (tenTo (-scale).toNat)

end Binary64

end RuleTransducer
