import RuleTransducer.Text.Utf16
import RuleTransducer.Text.Utf8

/-! The encoding of a text that comes as octets. A byte order mark tells it. Without one,
the text is taken to start with characters of ASCII, so that the zeros among the first
octets tell how wide its units are and which end comes first. Surrogates on their own pass in
every encoding. -/

namespace RuleTransducer.Text

/-- An encoding of texts as octets. -/
inductive Encoding
  | utf8
  | utf16 (bigEndian : Bool)
  | utf32 (bigEndian : Bool)
  deriving DecidableEq

namespace Encoding

/-- The encoding of a text, and its octets without a byte order mark. -/
def detect (octets : List UInt8) : Encoding × List UInt8 :=
  match octets with
  | 0 :: 0 :: 0xFE :: 0xFF :: rest => (utf32 true, rest)
  | 0xFF :: 0xFE :: 0 :: 0 :: rest => (utf32 false, rest)
  | 0xFE :: 0xFF :: rest => (utf16 true, rest)
  | 0xFF :: 0xFE :: rest => (utf16 false, rest)
  | 0xEF :: 0xBB :: 0xBF :: rest => (utf8, rest)
  | 0 :: 0 :: _ :: _ :: _ => (utf32 true, octets)
  | 0 :: _ :: _ :: _ :: _ => (utf16 true, octets)
  | _ :: 0 :: 0 :: 0 :: _ => (utf32 false, octets)
  | _ :: 0 :: _ :: _ :: _ => (utf16 false, octets)
  | [0, _] => (utf16 true, octets)
  | [_, 0] => (utf16 false, octets)
  | _ => (utf8, octets)

/-- The text of octets, four to a code point. -/
def ofQuads? (bigEndian : Bool) : List UInt8 → Option (List CodePoint)
  | [] => some []
  | a :: b :: c :: d :: rest => do
    let quad := if bigEndian then [a, b, c, d] else [d, c, b, a]
    let code := quad.foldl (fun n octet => n * 0x100 + octet.toNat) 0
    if 0x10FFFF < code then none else return .ofNat code :: (← ofQuads? bigEndian rest)
  | _ => none

/-- The text of octets in an encoding. -/
def decode? : Encoding → List UInt8 → Option (List CodePoint)
  | utf8, octets => Utf8.decodePassing? octets
  | utf16 bigEndian, octets => Utf16.decode? bigEndian octets
  | utf32 bigEndian, octets => ofQuads? bigEndian octets

end Encoding

/-- The text of octets in the encoding that they tell. -/
def ofOctets? (octets : List UInt8) : Option (List CodePoint) :=
  let (encoding, octets) := Encoding.detect octets
  encoding.decode? octets

end RuleTransducer.Text
