import RuleTransducer.Graph.Threading
import RuleTransducer.Rule.Declared

/-! Building declared rules without validation. Where all parts are texts, the rule is
threaded as it stands. The parts of a finished item may also be other values; then the
rule fails at the first value that cannot serve, and the edges made before it stay. -/

namespace RuleTransducer

/-- Why a declared rule was not built. -/
inductive BuildError
  | declaration (e : DeclarationError)
  | insertion (destination : Datum)
  | part (e : PartError)

def BuildError.message : BuildError → String
  | declaration e => e.message
  | insertion destination => "Cannot align empty source with destination " ++ destination.printed
  | part e => e.message

/-- The pairs of input and fragment of an item whose parts are any values. -/
def Item.pairs : Item Datum → Except BuildError (List (Datum × Datum))
  | literal content =>
    match content.measured with
    | .ok elements => .ok (elements.map fun value => (value, value))
    | .error e => .error (.part e)
  | transform source destination =>
    if source.isPresent then (source.alignedPairs destination).mapError .part
    else if destination.isPresent then .error (.insertion destination)
    else .ok []

variable {α : Type}

namespace Cursor

variable [BEq α] [Fragment α]

/-- Takes or makes the edges of pairs of values; the last edge is closing if the pairs end
the rule. The cursor stays at the pair that cannot serve. -/
def followPairs (c : Cursor α) (ending : Bool) :
    List (Datum × Datum) → Cursor α × Option PartError
  | [] => (c, none)
  | (input, output) :: rest =>
    match input.text?, Fragment.ofDatum output with
    | none, _ => (c, some (.notText input.typeName))
    | some _, .error e => (c, some e)
    | some input, .ok output =>
      (c.advance ⟨input, output⟩ (ending && rest.isEmpty)).followPairs ending rest

/-- Threads items whose parts are any values. -/
def followItems (c : Cursor α) : List (Item Datum) → Cursor α × Option BuildError
  | [] => (c, none)
  | item :: rest =>
    match item.pairs with
    | .error e => (c, some e)
    | .ok pairs =>
      match c.followPairs rest.isEmpty pairs with
      | (c, some e) => (c, some (.part e))
      | (c, none) => c.followItems rest

end Cursor

/-- A finished or failed build: the graph with every edge that was made, the input of the
rule, the number of new edges and the status of the last vertex. -/
structure Build (α : Type) where
  graph : Graph α
  input : Text
  added : Nat
  ending : Status
  error? : Option BuildError

namespace Graph

variable [BEq α] [Fragment α]

/-- Builds items whose parts are any values. The input of the rule is joined last, so an
item whose source is no text fails after its edges are made. -/
def buildLoose (g : Graph α) (items : List (Item Datum)) : Build α :=
  let (c, failure?) := (Cursor.atRoot g).followItems items
  match failure?, Datum.joinTexts (items.map Item.source) with
  | some e, _ => ⟨c.graph, c.consumed, c.added, c.vertex.status, some e⟩
  | none, .error e => ⟨c.graph, c.consumed, c.added, c.vertex.status, some (.part e)⟩
  | none, .ok input => ⟨c.graph, input, c.added, c.vertex.status, none⟩

/-- Builds a rule over texts. -/
def buildRule (g : Graph α) (rule : Rule) : Build α :=
  let (c, failure?) := g.thread rule
  let error? := failure?.map fun e => .insertion (.text e.destination)
  ⟨c.graph, rule.inputText, c.added, c.vertex.status, error?⟩

/-- Builds items: as a rule if their parts are texts. -/
def buildItems (g : Graph α) (items : List (Item Datum)) : Build α :=
  match items.mapM Item.texts? with
  | some items => g.buildRule ⟨items⟩
  | none => g.buildLoose items

/-- Builds a declared rule without validation. A value that declares no items changes
nothing. -/
def buildDeclared (g : Graph α) (declared : Datum) : Build α :=
  match declared.toItems with
  | .ok items => g.buildItems items
  | .error e => ⟨g, "", 0, g.root.status, some (.declaration e)⟩

end Graph

end RuleTransducer
