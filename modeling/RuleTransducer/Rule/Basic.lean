import RuleTransducer.Alignment

/-! Transducing rules. A rule is a list of items: a literal copies a text, a transform
reads one text and writes another. -/

namespace RuleTransducer

/-- A part of a rule, over the values that stand for its texts. -/
inductive Item (α : Type)
  /-- A text copied to the output. -/
  | literal (text : α)
  /-- A source text read and a destination text written in its place. -/
  | transform (source destination : α)
  deriving DecidableEq, Inhabited

namespace Item

variable {α β : Type}

def map (f : α → β) : Item α → Item β
  | literal text => literal (f text)
  | transform source destination => transform (f source) (f destination)

/-- What the item reads. -/
def source : Item α → α
  | literal text => text
  | transform source _ => source

/-- What the item writes. -/
def destination : Item α → α
  | literal text => text
  | transform _ destination => destination

/-- The edit steps of an item. -/
def steps : Item Text → Except Insertion (List Step)
  | literal text => .ok (Alignment.identity text)
  | transform source destination => Alignment.align source destination

end Item

/-- An ordered list of items. -/
structure Rule where
  items : List (Item Text)
  deriving DecidableEq, Inhabited

namespace Rule

/-- The input that the rule accepts. -/
def inputText (rule : Rule) : Text := Text.join (rule.items.map Item.source)

/-- The output that the rule writes for its input. -/
def outputText (rule : Rule) : Text := Text.join (rule.items.map Item.destination)

end Rule

end RuleTransducer
