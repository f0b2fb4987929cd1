import RuleTransducer.Datum.Printed

/-! Declared rules: what values stand for items, and the raw form of items. A text is a
literal and a pair of texts is a transform; finished items stand for themselves. -/

namespace RuleTransducer

/-- Why a value declares no rule. -/
inductive DeclarationError
  /-- A value of the named type has no elements. -/
  | notIterable (typeName : String)
  /-- A value that stands for no item. -/
  | invalidItem (value : Datum)

def DeclarationError.message : DeclarationError → String
  | notIterable typeName => s!"'{typeName}' object is not iterable"
  | invalidItem value => "Invalid rule item: " ++ value.printed

namespace Datum

/-- The elements of a value, or the error that it has none. -/
def elements (value : Datum) : Except DeclarationError (List Datum) :=
  match value.elements? with
  | some elements => .ok elements
  | none => .error (.notIterable value.typeName)

/-- The item that a value stands for. -/
def toItem : Datum → Except DeclarationError (Item Datum)
  | item part => .ok part
  | text s => .ok (.literal (text s))
  | list [text source, text destination] => .ok (.transform (text source) (text destination))
  | tuple [text source, text destination] => .ok (.transform (text source) (text destination))
  | value => .error (.invalidItem value)

/-- The items that a value declares; the first element that stands for none decides. -/
def toItems (value : Datum) : Except DeclarationError (List (Item Datum)) := do
  (← value.elements).mapM toItem

end Datum

namespace Item

/-- The raw form of an item: a literal's text, a transform's pair. -/
def raw : Item Datum → Datum
  | literal text => text
  | transform source destination => .tuple [source, destination]

/-- The item over texts, if its parts are texts. -/
def texts? : Item Datum → Option (Item Text)
  | literal text => text.text?.map literal
  | transform source destination => do
    return transform (← source.text?) (← destination.text?)

end Item

namespace Rule

/-- A rule as a value. -/
def toDatum (rule : Rule) : Datum := .rule (rule.items.map (Item.map .text))

/-- The raw form of a rule: its items' raw forms in a list. -/
def raw (rule : Rule) : List Datum := rule.items.map fun item => (item.map .text).raw

end Rule

end RuleTransducer
