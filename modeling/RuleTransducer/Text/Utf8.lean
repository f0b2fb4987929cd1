import RuleTransducer.Text.Basic

/-! UTF-8. A sequence of octets falls into code points and ill-formed pieces, a piece being
the longest beginning of a code point that could not go on. Decoding either refuses an
ill-formed piece or puts the replacement character in its place. A surrogate, encoded as if it
were a character, is ill-formed too, unless surrogates are to pass. -/

namespace RuleTransducer.Text.Utf8

/-- What a first octet announces: the number of octets to follow, the range of the next
one, and the bits of the code point so far. -/
structure Lead where
  more : Nat
  low : Nat
  high : Nat
  bits : Nat

/-- The announcement of a first octet, if a code point can start with it. Narrowed ranges
keep out overlong forms and numbers beyond the last code point, and surrogates if these are
not to pass. -/
def lead? (passSurrogates : Bool) (octet : Nat) : Option Lead :=
  if octet < 0x80 then some ⟨0, 0x80, 0xBF, octet⟩
  else if octet < 0xC2 then none
  else if octet < 0xE0 then some ⟨1, 0x80, 0xBF, octet - 0xC0⟩
  else if octet < 0xF0 then
    some ⟨2, if octet = 0xE0 then 0xA0 else 0x80,
      if octet = 0xED && !passSurrogates then 0x9F else 0xBF, octet - 0xE0⟩
  else if octet < 0xF5 then
    some ⟨3, if octet = 0xF0 then 0x90 else 0x80, if octet = 0xF4 then 0x8F else 0xBF, octet - 0xF0⟩
  else none

/-- Reads the octets that follow a first one; gives the code point, unless it is cut short,
and the number of octets read. -/
def follow (low high bits taken : Nat) : Nat → List UInt8 → Option Nat × Nat
  | 0, _ => (some bits, taken)
  | _ + 1, [] => (none, taken)
  | more + 1, octet :: rest =>
    let n := octet.toNat
    if low ≤ n && n ≤ high then
      follow 0x80 0xBF (bits * 64 + (n - 0x80)) (taken + 1) more rest
    else (none, taken)

/-- The numbers of the code points in a sequence of octets, and `none` for each ill-formed
piece. The first `taken` octets belong to a piece that is already read. -/
def pieces (passSurrogates : Bool) : Nat → List UInt8 → List (Option Nat)
  | _, [] => []
  | taken + 1, _ :: rest => pieces passSurrogates taken rest
  | 0, octet :: rest =>
    match lead? passSurrogates octet.toNat with
    | none => none :: pieces passSurrogates 0 rest
    | some lead =>
      let (code?, taken) := follow lead.low lead.high lead.bits 0 lead.more rest
      code? :: pieces passSurrogates taken rest

/-- The characters of well-formed octets. -/
def decode? (octets : List UInt8) : Option (List Char) :=
  (pieces false 0 octets).mapM fun code? => code?.map Char.ofNat

/-- The code points of octets that are well-formed but for surrogates. -/
def decodePassing? (octets : List UInt8) : Option (List CodePoint) :=
  (pieces true 0 octets).mapM fun code? => code?.map CodePoint.ofNat

/-- The characters of any octets. -/
def decodeLossy (octets : List UInt8) : List Char :=
  (pieces false 0 octets).map fun code? => (code?.map Char.ofNat).getD '\ufffd'

def encode (text : List Char) : List UInt8 := text.flatMap String.utf8EncodeChar

end RuleTransducer.Text.Utf8
