import RuleTransducer.Number.Binary64

/-! The shortest decimal text of a floating-point number: the fewest digits that read
back as the number, the nearest of those where several do. It is found on the decimal
grids of one, two, up to seventeen digits by testing the two grid points beside the
number, in exact integer arithmetic. -/

namespace RuleTransducer.Binary64

/-- A decimal `digits * 10 ^ scale`. -/
structure Decimal where
  digits : Nat
  scale : Int
  deriving DecidableEq

/-- The fraction `significand * 2 ^ exponent`. -/
def fraction (significand : Nat) (exponent : Int) : Nat × Nat :=
  if 0 ≤ exponent then (significand * twoTo exponent.toNat, 1)
  else (significand, twoTo (-exponent).toNat)

/-- The place of the leading digit of `num / den`: the integer `p` with
`10 ^ (p - 1) ≤ num / den < 10 ^ p`. -/
def leadingPlace (num den : Nat) : Int :=
  if den ≤ num then Int.ofNat (decimalLength (num / den))
  else 1 - Int.ofNat (decimalLength ((den + num - 1) / num - 1))

/-- Whether a decimal reads back as `significand * 2 ^ exponent`: it lies between the
midpoints to the two neighbours, which count if the significand is even. Below a power
of two the lower neighbour is twice as near. -/
def readsBack (significand : Nat) (exponent : Int) (decimal : Decimal) : Bool :=
  let below := if significand = twoTo 52 && leastExponent < exponent then 1 else 2
  let (low, unit) := fraction (4 * significand - below) (exponent - 2)
  let (high, _) := fraction (4 * significand + 2) (exponent - 2)
  let (num, den) :=
    if 0 ≤ decimal.scale then (decimal.digits * tenTo decimal.scale.toNat, 1)
    else (decimal.digits, tenTo (-decimal.scale).toNat)
  if significand % 2 = 0 then low * den ≤ num * unit && num * unit ≤ high * den
  else low * den < num * unit && num * unit < high * den

/-- The grid points beside `num / den` on the grid of step `10 ^ scale`, the nearer one
first and the even one of two equally near. -/
def neighbours (num den : Nat) (scale : Int) : List Decimal :=
  let (n, d) :=
    if 0 ≤ scale then (num, den * tenTo scale.toNat) else (num * tenTo (-scale).toNat, den)
  let nearest := roundHalfEven n d
  let other := if nearest = n / d then nearest + 1 else n / d
  [⟨nearest, scale⟩, ⟨other, scale⟩]

/-- The shortest decimal of `significand * 2 ^ exponent`. -/
def shortest (significand : Nat) (exponent : Int) : Decimal :=
  let (num, den) := fraction significand exponent
  let place := leadingPlace num den
  let candidates := (List.range 17).flatMap fun k => neighbours num den (place - Int.ofNat (k + 1))
  (candidates.find? (readsBack significand exponent)).getD ⟨num, 0⟩

/-- The digits of `n` without trailing zeros. -/
def significantDigits (n : Nat) : List Char :=
  ((Nat.toDigits 10 n).reverse.dropWhile (· = '0')).reverse

def zeros (n : Nat) : List Char := List.replicate n '0'

/-- The text of `0.digits * 10 ^ place`: positional with at least one decimal while the
point is at most sixteen places right and three places left of the leading digit, else
with an exponent of at least two digits. -/
def placed (digits : List Char) (place : Int) : List Char :=
  if -4 < place && place ≤ 16 then
    if place ≤ 0 then '0' :: '.' :: zeros (-place).toNat ++ digits
    else
      let whole := place.toNat
      if digits.length ≤ whole then digits ++ zeros (whole - digits.length) ++ ['.', '0']
      else digits.take whole ++ '.' :: digits.drop whole
  else
    let exponent := place - 1
    let tail := Nat.toDigits 10 exponent.natAbs
    let mantissa := digits.take 1 ++ if digits.length ≤ 1 then [] else '.' :: digits.drop 1
    mantissa ++ 'e' :: (if exponent < 0 then '-' else '+') :: zeros (2 - tail.length) ++ tail

/-- The decimal text of a number; `infinity` and `nan` name the two that have none. -/
def text (infinity nan : String) : Binary64 → String
  | .finite negative significand exponent =>
    let sign := if negative then "-" else ""
    if significand = 0 then sign ++ "0.0"
    else
      let decimal := shortest significand exponent
      let place := Int.ofNat (decimalLength decimal.digits) + decimal.scale
      sign ++ String.ofList (placed (significantDigits decimal.digits) place)
  | .infinite negative => (if negative then "-" else "") ++ infinity
  | .notANumber => nan

end RuleTransducer.Binary64
