import RuleTransducer.Json.Basic
import RuleTransducer.Number.Shortest
import RuleTransducer.Text.Quoted

/-! Writing JSON text: on one line without blanks, or laid out with two more columns of
margin per level. In both, a text escapes its quotes, backslashes and control characters
and keeps every other code point as it is. -/

namespace RuleTransducer.Json

/-- One code point inside a quoted text. -/
def escapedCodePoint (c : CodePoint) : List CodePoint :=
  if c = '\x22' then ['\\', '\x22']
  else if c = '\\' then ['\\', '\\']
  else if c = '\n' then ['\\', 'n']
  else if c = '\r' then ['\\', 'r']
  else if c = '\t' then ['\\', 't']
  else if c = '\x08' then ['\\', 'b']
  else if c = '\x0c' then ['\\', 'f']
  else if c.toNat < 0x20 then '\\' :: 'u' :: (Text.hexadecimal 4 c.toNat : Text).toList
  else [c]

/-- A text between quotes. -/
def quotedText (s : List CodePoint) : List CodePoint :=
  .char '\x22' :: s.flatMap escapedCodePoint ++ [.char '\x22']

/-- A document that has no parts, apart from the empty array and object. -/
def atomText : Json → List CodePoint
  | .null => ("null" : Text).toList
  | .bool true => ("true" : Text).toList
  | .bool false => ("false" : Text).toList
  | .int n => (toString n : Text).toList
  | .float x => (x.text "Infinity" "NaN" : Text).toList
  | .text s => quotedText s.toList
  | .array _ => ['[', ']']
  | .object _ => ['\x7b', '\x7d']

/-! ### On one line -/

mutual

/-- The document on one line. -/
def line : Json → List CodePoint
  | .array (element :: rest) => .char '[' :: line element ++ lineElements rest
  | .object ((name, content) :: rest) =>
    .char '\x7b' :: quotedText name.toList ++ .char ':' :: line content ++ lineFields rest
  | atom => atomText atom

/-- The elements after the first, and the end of the array. -/
def lineElements : List Json → List CodePoint
  | [] => [']']
  | element :: rest => .char ',' :: line element ++ lineElements rest

/-- The fields after the first, and the end of the object. -/
def lineFields : List (Text × Json) → List CodePoint
  | [] => ['\x7d']
  | (name, content) :: rest =>
    .char ',' :: quotedText name.toList ++ .char ':' :: line content ++ lineFields rest

end

/-- The document on one line. -/
def compact (document : Json) : Text := .ofList document.line

/-! ### Laid out -/

/-- A new line with its margin. -/
def newLine (margin : Nat) : List CodePoint := .char '\n' :: List.replicate margin ' '

mutual

/-- The document with its inner lines `margin` columns from the left. -/
def layout (margin : Nat) : Json → List CodePoint
  | .array (element :: rest) =>
    .char '[' :: newLine (margin + 2) ++ layout (margin + 2) element ++ layoutElements margin rest
  | .object ((name, content) :: rest) =>
    .char '\x7b' :: newLine (margin + 2) ++ quotedText name.toList ++ .char ':' :: .char ' ' ::
      layout (margin + 2) content ++ layoutFields margin rest
  | atom => atomText atom

/-- The elements after the first, and the end of the array. -/
def layoutElements (margin : Nat) : List Json → List CodePoint
  | [] => newLine margin ++ [.char ']']
  | element :: rest =>
    .char ',' :: newLine (margin + 2) ++ layout (margin + 2) element ++ layoutElements margin rest

/-- The fields after the first, and the end of the object. -/
def layoutFields (margin : Nat) : List (Text × Json) → List CodePoint
  | [] => newLine margin ++ [.char '\x7d']
  | (name, content) :: rest =>
    .char ',' :: newLine (margin + 2) ++ quotedText name.toList ++ .char ':' :: .char ' ' ::
      layout (margin + 2) content ++ layoutFields margin rest

end

/-- The document laid out, without a line end. -/
def indented (document : Json) : Text := .ofList (layout 0 document)

end RuleTransducer.Json
