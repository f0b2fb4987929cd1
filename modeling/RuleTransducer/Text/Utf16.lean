import RuleTransducer.Text.Basic

/-! UTF-16. A code point beyond the basic plane is a pair of surrogates, a high one and a
low one; every other code point is one unit. A surrogate outside of a pair stands for no
character and is read as itself. -/

namespace RuleTransducer.Text.Utf16

def isHighSurrogate (unit : Nat) : Bool := 0xD800 ≤ unit && unit < 0xDC00

def isLowSurrogate (unit : Nat) : Bool := 0xDC00 ≤ unit && unit < 0xE000

/-- The code point that a surrogate pair encodes. -/
def joinSurrogates (high low : Nat) : CodePoint :=
  .ofNat (0x10000 + (high - 0xD800) * 0x400 + (low - 0xDC00))

/-- The text of units. -/
def ofUnits : List Nat → List CodePoint
  | [] => []
  | [unit] => [.ofNat unit]
  | high :: low :: rest =>
    if isHighSurrogate high && isLowSurrogate low then joinSurrogates high low :: ofUnits rest
    else .ofNat high :: ofUnits (low :: rest)

/-- The units in octets, two octets each. -/
def units? (bigEndian : Bool) : List UInt8 → Option (List Nat)
  | [] => some []
  | [_] => none
  | a :: b :: rest =>
    let (high, low) := if bigEndian then (a, b) else (b, a)
    (units? bigEndian rest).map fun units => (high.toNat * 0x100 + low.toNat) :: units

/-- The text of octets. -/
def decode? (bigEndian : Bool) (octets : List UInt8) : Option (List CodePoint) :=
  (units? bigEndian octets).map ofUnits

end RuleTransducer.Text.Utf16
