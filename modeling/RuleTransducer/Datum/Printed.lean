import RuleTransducer.Datum.Basic
import RuleTransducer.Number.Shortest
import RuleTransducer.Text.Quoted

/-! The printed form of a value, in which messages and log lines show it: texts quoted,
lists in brackets, tuples in parentheses with a comma after a single element, dicts in
braces, items and rules as their constructors. -/

namespace RuleTransducer.Datum

def printedBool (b : Bool) : String := if b then "True" else "False"

mutual

def printed : Datum → String
  | null => "None"
  | bool b => printedBool b
  | int n => toString n
  | float x => x.text "inf" "nan"
  | text s => Text.quoted s
  | list elements => "[" ++ ", ".intercalate (printedAll elements) ++ "]"
  | tuple [element] => "(" ++ printed element ++ ",)"
  | tuple elements => "(" ++ ", ".intercalate (printedAll elements) ++ ")"
  | dict fields => "\x7b" ++ ", ".intercalate (printedFields fields) ++ "\x7d"
  | bytes octets => Text.quotedBytes octets
  | generator _ _ => "<generator object>"
  | item part => printedItem part
  | rule [part] => "Rule(items=(" ++ printedItem part ++ ",))"
  | rule items => "Rule(items=(" ++ ", ".intercalate (printedItems items) ++ "))"

def printedAll : List Datum → List String
  | [] => []
  | element :: rest => printed element :: printedAll rest

def printedFields : List (Text × Datum) → List String
  | [] => []
  | (name, content) :: rest => (Text.quoted name ++ ": " ++ printed content) :: printedFields rest

def printedItem : Item Datum → String
  | .literal content => "Literal(text=" ++ printed content ++ ")"
  | .transform source destination =>
    "Transform(source=" ++ printed source ++ ", destination=" ++ printed destination ++ ")"

def printedItems : List (Item Datum) → List String
  | [] => []
  | part :: rest => printedItem part :: printedItems rest

end

end RuleTransducer.Datum
