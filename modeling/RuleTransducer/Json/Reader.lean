import RuleTransducer.Json.Basic
import RuleTransducer.Text.Utf16

/-! Reading JSON text. Positions count code points from zero. Only space, tab, carriage
return and line feed are blank; `NaN`, `Infinity` and `-Infinity` are numbers; a number
ends where it stops being one; a repeated name keeps its first place and last value. The
reader reports the first fault with its position. -/

namespace RuleTransducer.Json

open Text.Utf16 (isHighSurrogate isLowSurrogate joinSurrogates)

/-- What is wrong with a text that is no JSON document. -/
inductive Fault
  | expectingValue
  | expectingComma
  | expectingColon
  | expectingName
  | extraData
  | openText
  | controlCharacter
  | badEscape
  | badCodePoint
  | byteOrderMark
  /-- An integer with more digits than are converted. -/
  | longInteger (digits : Nat)
  /-- An array or object inside of too many others. -/
  | deepArray
  | deepObject
  deriving DecidableEq

/-- Whether the reader gives up on a text that may well be a document. -/
def Fault.isSurrender : Fault → Bool
  | longInteger _ | deepArray | deepObject => true
  | _ => false

def Fault.message : Fault → String
  | .expectingValue => "Expecting value"
  | .expectingComma => "Expecting ',' delimiter"
  | .expectingColon => "Expecting ':' delimiter"
  | .expectingName => "Expecting property name enclosed in double quotes"
  | .extraData => "Extra data"
  | .openText => "Unterminated string starting at"
  | .controlCharacter => "Invalid control character at"
  | .badEscape => "Invalid \\escape"
  | .badCodePoint => "Invalid \\uXXXX escape"
  | .byteOrderMark => "Unexpected UTF-8 BOM (decode using utf-8-sig)"
  | .longInteger digits => "Exceeds the limit (4300 digits) for integer string conversion: " ++
      s!"value has {digits} digits; use sys.set_int_max_str_digits() to increase the limit"
  | .deepArray =>
    "maximum recursion depth exceeded while decoding a JSON array from a unicode string"
  | .deepObject =>
    "maximum recursion depth exceeded while decoding a JSON object from a unicode string"

/-- A fault and the position it is reported at. -/
structure ReadError where
  fault : Fault
  position : Nat
  deriving DecidableEq

/-- The message with line and column, both counted from one, of the position in `text`. -/
def ReadError.describe (text : List CodePoint) (e : ReadError) : String :=
  let before := text.take e.position
  let line := before.count (.char '\n') + 1
  let column := (before.reverse.takeWhile (· ≠ .char '\n')).length + 1
  s!"{e.fault.message}: line {line} column {column} (char {e.position})"

/-- A part read from a text, with the position after it and the text from there. -/
structure Parsed (α : Type) where
  value : α
  position : Nat
  rest : List CodePoint

abbrev Reading (α : Type) := Except ReadError (Parsed α)

def fail {α : Type} (fault : Fault) (position : Nat) : Reading α := .error ⟨fault, position⟩

def isBlank (c : CodePoint) : Bool := c = ' ' || c = '\t' || c = '\n' || c = '\r'

/-- Skips blanks. -/
def skipBlanks : Nat → List CodePoint → Nat × List CodePoint
  | p, [] => (p, [])
  | p, c :: rest => if isBlank c then skipBlanks (p + 1) rest else (p, c :: rest)

/-! ### Texts -/

def hexDigit? (c : Char) : Option Nat :=
  if '0' ≤ c && c ≤ '9' then some (c.toNat - '0'.toNat)
  else if 'a' ≤ c && c ≤ 'f' then some (c.toNat - 'a'.toNat + 10)
  else if 'A' ≤ c && c ≤ 'F' then some (c.toNat - 'A'.toNat + 10)
  else none

/-- The number that four hexadecimal digits write. -/
def hexQuad? (a b c d : CodePoint) : Option Nat := do
  let a ← a.char?.bind hexDigit?
  let b ← b.char?.bind hexDigit?
  let c ← c.char?.bind hexDigit?
  let d ← d.char?.bind hexDigit?
  return ((a * 16 + b) * 16 + c) * 16 + d

/-- What the letter of a short escape stands for. -/
def shortEscape? : CodePoint → Option CodePoint
  | .char '\x22' => some '\x22'
  | .char '\\' => some '\\'
  | .char '/' => some '/'
  | .char 'b' => some '\x08'
  | .char 'f' => some '\x0c'
  | .char 'n' => some '\n'
  | .char 'r' => some '\r'
  | .char 't' => some '\t'
  | _ => none

/-- The code point that the code unit `unit` begins, given the text behind it, and the
number of characters that belong to the escape from its `u` on: a high surrogate takes a
second escape in if that one is a low surrogate. `p` is the position of the backslash. -/
def paired (p unit : Nat) : List CodePoint → Except ReadError (CodePoint × Nat)
  | .char '\\' :: .char 'u' :: a :: b :: c :: d :: _ :: _ =>
    if isHighSurrogate unit then
      match hexQuad? a b c d with
      | none => .error ⟨.badCodePoint, p + 7⟩
      | some low =>
        if isLowSurrogate low then .ok (joinSurrogates unit low, 11) else .ok (.ofNat unit, 5)
    else .ok (.ofNat unit, 5)
  | _ => .ok (.ofNat unit, 5)

/-- The code point of the escape whose backslash stands at `p`, and the number of
characters behind the backslash that belong to it. A numeric escape needs a character
behind it, so one that ends the input is bad. -/
def escape (opening p : Nat) : List CodePoint → Except ReadError (CodePoint × Nat)
  | [] => .error ⟨.openText, opening⟩
  | .char 'u' :: a :: b :: c :: d :: next :: rest =>
    match hexQuad? a b c d with
    | none => .error ⟨.badCodePoint, p + 1⟩
    | some unit => paired p unit (next :: rest)
  | .char 'u' :: _ => .error ⟨.badCodePoint, p + 1⟩
  | letter :: _ =>
    match shortEscape? letter with
    | some c => .ok (c, 1)
    | none => .error ⟨.badEscape, p⟩

/-- Reads the inside of a text whose quote stands at `opening`, from position `p`. The
next `skipped` characters belong to an escape that is already read, and `read` holds the
characters so far in reverse. -/
def textFrom (opening : Nat) : Nat → Nat → List CodePoint → List CodePoint → Reading Text
  | _, _, [], _ => fail .openText opening
  | p, skipped + 1, _ :: rest, read => textFrom opening (p + 1) skipped rest read
  | p, 0, c :: rest, read =>
    if c = '\x22' then .ok ⟨.ofList read.reverse, p + 1, rest⟩
    else if c = '\\' then
      match escape opening p rest with
      | .error e => .error e
      | .ok (c, skipped) => textFrom opening (p + 1) skipped rest (c :: read)
    else if c.toNat < 0x20 then fail .controlCharacter p
    else textFrom opening (p + 1) 0 rest (c :: read)

/-! ### Numbers -/

/-- The value of decimal digits. -/
def decimalValue (digits : List CodePoint) : Nat :=
  digits.foldl (fun n c => n * 10 + (c.toNat - '0'.toNat)) 0

/-- Splits the whole part off: a zero, or digits of which the first is not zero. -/
def wholePart? : List CodePoint → Option (List CodePoint × List CodePoint)
  | .char '0' :: rest => some (['0'], rest)
  | c :: rest => if c.isDigit then some ((c :: rest).span CodePoint.isDigit) else none
  | [] => none

/-- Splits a fraction off, a point and at least one digit; none is there otherwise. -/
def fractionPart (input : List CodePoint) : Option (List CodePoint) × List CodePoint :=
  match input with
  | .char '.' :: rest =>
    match rest.span CodePoint.isDigit with
    | ([], _) => (none, input)
    | (digits, rest) => (some digits, rest)
  | _ => (none, input)

/-- Splits an exponent off: its letter, perhaps a sign, and at least one digit. -/
def exponentPart (input : List CodePoint) : Option Int × List CodePoint :=
  match input with
  | letter :: rest =>
    if letter = 'e' || letter = 'E' then
      let (negative, rest) := match rest with
        | .char '-' :: rest => (true, rest)
        | .char '+' :: rest => (false, rest)
        | rest => (false, rest)
      match rest.span CodePoint.isDigit with
      | ([], _) => (none, input)
      | (digits, rest) =>
        let magnitude := Int.ofNat (decimalValue digits)
        (some (if negative then -magnitude else magnitude), rest)
    else (none, input)
  | [] => (none, input)

/-- The most digits that an integer may have. -/
def integerDigits : Nat := 4300

/-- Reads a number whose sign is already read, from position `p`; one with a fraction or
an exponent is a floating-point number. `start` is where the number begins, sign
included. -/
def number (negative : Bool) (start p : Nat) (input : List CodePoint) : Reading Json :=
  match wholePart? input with
  | none => fail .expectingValue start
  | some (whole, rest) =>
    let (fraction, rest) := fractionPart rest
    let (exponent, rest) := exponentPart rest
    let position := p + (input.length - rest.length)
    match fraction, exponent with
    | none, none =>
      if integerDigits < whole.length then fail (.longInteger whole.length) start
      else
        let magnitude := Int.ofNat (decimalValue whole)
        .ok ⟨.int (if negative then -magnitude else magnitude), position, rest⟩
    | _, _ =>
      let decimals := fraction.getD []
      let scale := exponent.getD 0 - Int.ofNat decimals.length
      .ok ⟨.float (.ofDecimal negative (decimalValue (whole ++ decimals)) scale), position, rest⟩

/-! ### Documents -/

/-- The documents that are written as a word. -/
def words : List (Text × Json) :=
  [("null", .null), ("true", .bool true), ("false", .bool false), ("NaN", .float .notANumber),
    ("Infinity", .float (.infinite false)), ("-Infinity", .float (.infinite true))]

/-- Reads a document that is neither a text, an array nor an object. -/
def scalar (p : Nat) (input : List CodePoint) : Reading Json :=
  match words.find? fun word => word.1.toList.isPrefixOf input with
  | some (word, document) => .ok ⟨document, p + word.length, input.drop word.length⟩
  | none =>
    match input with
    | .char '-' :: rest => number true p (p + 1) rest
    | _ => number false p p input

mutual

/-- Reads one document that starts at position `p` and may nest arrays and objects `depth`
deep. The fuel bounds the calls; twice the length of the text is enough, as every second
call takes a character. -/
def value : Nat → Nat → Nat → List CodePoint → Reading Json
  | 0, _, p, _ => fail .expectingValue p
  | fuel + 1, depth, p, input =>
    match input with
    | .char '\x22' :: rest =>
      match textFrom p (p + 1) 0 rest [] with
      | .error e => .error e
      | .ok read => .ok ⟨.text read.value, read.position, read.rest⟩
    | .char '[' :: rest =>
      match depth with
      | 0 => fail .deepArray p
      | depth + 1 =>
        let (p, rest) := skipBlanks (p + 1) rest
        match rest with
        | .char ']' :: rest => .ok ⟨.array [], p + 1, rest⟩
        | _ => elements fuel depth p rest []
    | .char '{' :: rest =>
      match depth with
      | 0 => fail .deepObject p
      | depth + 1 =>
        let (p, rest) := skipBlanks (p + 1) rest
        match rest with
        | .char '}' :: rest => .ok ⟨.object [], p + 1, rest⟩
        | _ => members fuel depth p rest []
    | _ => scalar p input
termination_by structural fuel => fuel

/-- Reads the elements of an array from one of them on; `read` holds those before it in
reverse. -/
def elements : Nat → Nat → Nat → List CodePoint → List Json → Reading Json
  | 0, _, p, _, _ => fail .expectingValue p
  | fuel + 1, depth, p, input, read =>
    match value fuel depth p input with
    | .error e => .error e
    | .ok element =>
      let read := element.value :: read
      let (p, rest) := skipBlanks element.position element.rest
      match rest with
      | .char ']' :: rest => .ok ⟨.array read.reverse, p + 1, rest⟩
      | .char ',' :: rest =>
        let (p, rest) := skipBlanks (p + 1) rest
        elements fuel depth p rest read
      | _ => fail .expectingComma p
termination_by structural fuel => fuel

/-- Reads the fields of an object from one of them on; `read` holds those before it. -/
def members : Nat → Nat → Nat → List CodePoint → List (Text × Json) → Reading Json
  | 0, _, p, _, _ => fail .expectingName p
  | fuel + 1, depth, p, input, read =>
    match input with
    | .char '\x22' :: rest =>
      match textFrom p (p + 1) 0 rest [] with
      | .error e => .error e
      | .ok name =>
        let (p, rest) := skipBlanks name.position name.rest
        match rest with
        | .char ':' :: rest =>
          let (p, rest) := skipBlanks (p + 1) rest
          match value fuel depth p rest with
          | .error e => .error e
          | .ok content =>
            let read := setField read name.value content.value
            let (p, rest) := skipBlanks content.position content.rest
            match rest with
            | .char '}' :: rest => .ok ⟨.object read, p + 1, rest⟩
            | .char ',' :: rest =>
              let (p, rest) := skipBlanks (p + 1) rest
              members fuel depth p rest read
            | _ => fail .expectingComma p
        | _ => fail .expectingColon p
    | _ => fail .expectingName p
termination_by structural fuel => fuel

end

/-- Reads one document that nests at most `depth` deep, with blanks around it. -/
def documentWithin (depth : Nat) (input : List CodePoint) : Except ReadError Json :=
  let (p, rest) := skipBlanks 0 input
  match value (2 * input.length + 2) depth p rest with
  | .error e => .error e
  | .ok read =>
    match skipBlanks read.position read.rest with
    | (_, []) => .ok read.value
    | (p, _) => .error ⟨.extraData, p⟩

/-- Reads a text as one document; a text that still has its byte order mark is none. -/
def decodeWithin (depth : Nat) (input : List CodePoint) : Except ReadError Json :=
  match input with
  | .char '\ufeff' :: _ => .error ⟨.byteOrderMark, 0⟩
  | _ => documentWithin depth input

/-- How deep a document may nest. -/
def nesting : Nat := 990

/-- Reads a text as one document, with blanks around it. -/
def decode (input : List CodePoint) : Except ReadError Json := decodeWithin nesting input

end RuleTransducer.Json
