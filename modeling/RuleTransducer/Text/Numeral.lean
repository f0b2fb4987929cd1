/-! Decimal numerals in any script. Every script with decimal digits has ten of them in a
row, so a digit is known by the zero of its row. -/

namespace RuleTransducer.Text

/-- The zeros of the rows of decimal digits, by the Unicode 14 character database. -/
def digitZeros : List Nat :=
  [0x30, 0x660, 0x6f0, 0x7c0, 0x966, 0x9e6, 0xa66, 0xae6, 0xb66, 0xbe6, 0xc66, 0xce6, 0xd66,
  0xde6, 0xe50, 0xed0, 0xf20, 0x1040, 0x1090, 0x17e0, 0x1810, 0x1946, 0x19d0, 0x1a80, 0x1a90,
  0x1b50, 0x1bb0, 0x1c40, 0x1c50, 0xa620, 0xa8d0, 0xa900, 0xa9d0, 0xa9f0, 0xaa50, 0xabf0,
  0xff10, 0x104a0, 0x10d30, 0x11066, 0x110f0, 0x11136, 0x111d0, 0x112f0, 0x11450, 0x114d0,
  0x11650, 0x116c0, 0x11730, 0x118e0, 0x11950, 0x11c50, 0x11d50, 0x11da0, 0x16a60, 0x16ac0,
  0x16b50, 0x1d7ce, 0x1d7d8, 0x1d7e2, 0x1d7ec, 0x1d7f6, 0x1e140, 0x1e2f0, 0x1e950, 0x1fbf0]

/-- The value of a decimal digit. -/
def digit? (c : Char) : Option Nat :=
  (digitZeros.find? fun n => n ≤ c.toNat && c.toNat < n + 10).map (c.toNat - ·)

def isDigit (c : Char) : Bool := (digit? c).isSome

/-- The blanks that may surround a numeral. -/
def isNumeralBlank (c : Char) : Bool :=
  let n := c.toNat
  (9 ≤ n && n ≤ 13) || n = 0x20 || n = 0x85 || n = 0xa0 || n = 0x1680 ||
    (0x2000 ≤ n && n ≤ 0x200a) || n = 0x2028 || n = 0x2029 || n = 0x202f || n = 0x205f ||
    n = 0x3000

/-- The most digits that a numeral may have. -/
def numeralDigits : Nat := 4300

/-- The values of digits of which each two may have one underscore between them. -/
def digitRun? : List Char → Option (List Nat)
  | [] => none
  | [c] => (digit? c).map ([·])
  | c :: '_' :: rest => do return (← digit? c) :: (← digitRun? rest)
  | c :: rest => do return (← digit? c) :: (← digitRun? rest)

/-- The integer that a numeral writes: blanks, perhaps a sign, digits, blanks. -/
def integer? (s : String) : Option Int := do
  let body := s.toList.dropWhile isNumeralBlank
  let body := (body.reverse.dropWhile isNumeralBlank).reverse
  let (negative, body) := match body with
    | '-' :: rest => (true, rest)
    | '+' :: rest => (false, rest)
    | rest => (false, rest)
  let digits ← digitRun? body
  if numeralDigits < digits.length then none
  else
    let magnitude := Int.ofNat (digits.foldl (fun n d => n * 10 + d) 0)
    return if negative then -magnitude else magnitude

/-- Whether a text looks like a negative number: a minus sign, then digits, or digits, a
point and digits. A line end after it does not count. -/
def isNegativeNumber (s : String) : Bool :=
  match s.toList with
  | '-' :: rest =>
    let rest := if rest.getLast? = some '\n' then rest.dropLast else rest
    match rest.dropWhile isDigit with
    | [] => !rest.isEmpty
    | '.' :: decimals => !decimals.isEmpty && decimals.all isDigit
    | _ => false
  | _ => false

end RuleTransducer.Text
