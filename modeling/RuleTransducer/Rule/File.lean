import RuleTransducer.Datum.Basic
import RuleTransducer.Files
import RuleTransducer.Json.Reader
import RuleTransducer.Text.Utf8

/-! Rules files. A rules file is a JSON list of rules in UTF-8; a rule is a list of items, a
text item a literal and a list item a pair. The items may be anything at this point, since
the rules are validated later. -/

namespace RuleTransducer

/-- Why a file gives no rules. -/
inductive RulesFileError
  | unreadable (fault : FileFault)
  | notUtf8
  | notJson (text : List CodePoint) (e : Json.ReadError)
  | notList

/-- The message for an error that the program reports; on any other it gives up. -/
def RulesFileError.message? (path : String) : RulesFileError → Option String
  | unreadable .missing => some ("Error: File not found: " ++ path)
  | unreadable _ | notUtf8 => none
  | notJson text e =>
    if e.fault.isSurrender then none
    else some (s!"Error: Invalid JSON in {path}: " ++ e.describe text)
  | notList => some (s!"Error: {path} must contain a list of rules")

namespace RulesFile

/-- Writes every line end as a line feed: a carriage return counts as one, alone or before
a line feed. -/
def plainLineEnds : List Char → List Char
  | '\r' :: '\n' :: rest => '\n' :: plainLineEnds rest
  | '\r' :: rest => '\n' :: plainLineEnds rest
  | c :: rest => c :: plainLineEnds rest
  | [] => []

/-- An item of a rule, where a list is a pair. -/
def item : Json → Datum
  | .array parts => .tuple (Datum.ofElements parts)
  | document => .ofJson document

/-- A rule as it stands in a file. -/
def rule : Json → Datum
  | .array items => .list (items.map item)
  | document => .ofJson document

/-- The rules that a document declares. -/
def ofJson : Json → Except RulesFileError (List Datum)
  | .array rules => .ok (rules.map rule)
  | _ => .error .notList

/-- The rules in the text of a file that nests at most `depth` deep. -/
def ofText (depth : Nat) (text : List Char) : Except RulesFileError (List Datum) :=
  let text := (plainLineEnds text).map CodePoint.char
  match Json.decodeWithin depth text with
  | .ok document => ofJson document
  | .error e => .error (.notJson text e)

/-- The rules in a file that nests at most `depth` deep. -/
def ofContent (depth : Nat) : FileContent → Except RulesFileError (List Datum)
  | .error fault => .error (.unreadable fault)
  | .ok octets =>
    match Text.Utf8.decode? octets with
    | some text => ofText depth text
    | none => .error .notUtf8

end RulesFile

end RuleTransducer
