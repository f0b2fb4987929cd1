import RuleTransducer.Text.Unprintable

/-! Quoted text, the form in which messages and log lines show a piece of text. The
quote is `'`, or `"` if the text holds the first and not the second; the backslash
and the quote are escaped, as is everything without a visible form. -/

namespace RuleTransducer.Text

/-- The lower-case hexadecimal digits of `n`, padded with zeros to `width`. -/
def hexadecimal (width n : Nat) : String :=
  let digits := Nat.toDigits 16 n
  String.ofList (List.replicate (width - digits.length) '0' ++ digits)

/-- A code point by number: two, four or eight digits, whichever is enough. -/
def numericEscape (n : Nat) : String :=
  if n < 0x100 then "\\x" ++ hexadecimal 2 n
  else if n < 0x10000 then "\\u" ++ hexadecimal 4 n
  else "\\U" ++ hexadecimal 8 n

/-- The quote for a text: the single one unless only the double one avoids escapes. -/
def quoteFor (text : List CodePoint) : Char :=
  if text.contains (.char '\x27') && !text.contains (.char '\x22') then '\x22' else '\x27'

/-- One code point between quotes `quote`; `visible` tells which characters stand for
themselves. -/
def escaped (visible : CodePoint → Bool) (quote : Char) : CodePoint → String
  | .char c =>
    if c = quote || c = '\\' then String.ofList ['\\', c]
    else if c = '\n' then "\\n"
    else if c = '\r' then "\\r"
    else if c = '\t' then "\\t"
    else if visible c then String.singleton c
    else numericEscape c.toNat
  | .surrogate offset => numericEscape (CodePoint.surrogate offset).toNat

/-- A text between quotes, with `visible` deciding what is escaped. -/
def quotedWith (visible : CodePoint → Bool) (text : List CodePoint) : String :=
  let quote := quoteFor text
  let body := text.foldl (fun written c => written ++ escaped visible quote c) ""
  String.singleton quote ++ body ++ String.singleton quote

/-- The quoted form of a text. -/
def quoted (text : Text) : String :=
  quotedWith isPrintable text.toList

/-- The quoted form of a byte sequence: a `b`, then the bytes as code points of which
only printable ASCII is visible. -/
def quotedBytes (bytes : List UInt8) : String :=
  "b" ++ quotedWith (fun c => 0x20 ≤ c.toNat && c.toNat ≤ 0x7E)
    (bytes.map fun byte => CodePoint.ofNat byte.toNat)

end RuleTransducer.Text
