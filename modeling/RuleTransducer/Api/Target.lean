import RuleTransducer.Json.Reader
import RuleTransducer.Text.Segments
import RuleTransducer.Text.Utf8

/-! Targets of requests. A target names a path, perhaps with a scheme and an authority
before it and a query behind it. Of the path the dot segments are resolved as it is
written; then percent escapes are decoded, once on the way and once on arrival. -/

namespace RuleTransducer.Api

/-! ### Percent escapes -/

/-- The octet of a percent escape behind its percent sign. -/
def escape? : List Char → Option UInt8
  | a :: b :: _ => do return ((← Json.hexDigit? a) * 16 + (← Json.hexDigit? b)).toUInt8
  | _ => none

/-- Replaces percent escapes by octets and other characters by their UTF-8 octets. The first
`taken` characters belong to an escape that is already read. -/
def pathOctets : Nat → List Char → List UInt8
  | _, [] => []
  | taken + 1, _ :: rest => pathOctets taken rest
  | 0, c :: rest =>
    match if c = '%' then escape? rest else none with
    | some octet => octet :: pathOctets 2 rest
    | none => String.utf8EncodeChar c ++ pathOctets 0 rest

/-- A text with its percent escapes decoded. -/
def unescaped (text : List Char) : List Char := Text.Utf8.decodeLossy (pathOctets 0 text)

/-! ### Paths -/

/-- Whether a text can be a scheme, or is none at all. -/
def isScheme : List Char → Bool
  | [] => true
  | first :: rest =>
    first.isAlpha && rest.all fun c => c.isAlphanum || c = '+' || c = '.' || c = '-'

/-- A target without its scheme, which ends at the first colon. -/
def withoutScheme (target : List Char) : List Char :=
  match target.span (· != ':') with
  | (scheme, _ :: rest) => if isScheme scheme then rest else target
  | (_, []) => target

/-- A target without its authority, which stands between two slashes and a third. -/
def withoutAuthority : List Char → List Char
  | '/' :: '/' :: rest => rest.dropWhile (· != '/')
  | target => target

/-- Resolves the dot segments of a path: one dot stays where it is, two dots go back by one
segment but not beyond the start. `behind` holds the segments so far in reverse. -/
def resolveDots (behind : List (List Char)) : List (List Char) → List (List Char)
  | [] => behind.reverse
  | segment :: rest =>
    if segment = ['.'] then resolveDots behind rest
    else if segment = ['.', '.'] then
      resolveDots (if behind = [[]] then behind else behind.drop 1) rest
    else resolveDots (segment :: behind) rest

/-- The decoded path of a target, without its first slash. -/
def decodedPath (target : String) : List Char :=
  let written := target.toList.takeWhile fun c => c != '?' && c != '#'
  let path := (withoutAuthority (withoutScheme written)).dropWhile (· = '/')
  let resolved := resolveDots [] (Text.segments ('/' :: path))
  (unescaped (unescaped (Text.joinSegments resolved))).drop 1

end RuleTransducer.Api
