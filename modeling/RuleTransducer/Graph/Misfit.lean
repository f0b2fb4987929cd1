import RuleTransducer.Graph.Traversal

/-! Traversal of a graph over loosely typed fragments. Fragments are appended to the output
as the branches open, so a traversal fails as soon as a branch would append a fragment
that is no text, whether or not the branch would accept. Without such a fragment it is the
traversal of any graph. -/

namespace RuleTransducer.Graph

/-- The type of the first fragment that a traversal meets and that is no text. The edges of
a vertex are tried from the last to the first, all of them before any branch goes on. -/
def misfit? (g : Graph Datum) (v : Vertex Datum) : List CodePoint → Option String
  | [] => none
  | c :: rest =>
    let edges := g.outEdgesOn v (Text.singleton c)
    (edges.reverse.findSome? fun e => e.label.output.misfit?).or
      (edges.findSome? fun e => g.misfit? e.target rest)

/-- The outputs of every accepting path from `start`, if all fragments on the way are
texts. -/
def tryTransduceFrom (g : Graph Datum) (start : Vertex Datum) (text : Text) :
    Except PartError (List Text) :=
  match g.misfit? start text.toList with
  | some typeName => .error (.notText typeName)
  | none => .ok (g.transduceFrom start text)

/-- The outputs of every accepting path from the root. -/
def tryTransduce (g : Graph Datum) (text : Text) : Except PartError (List Text) :=
  g.tryTransduceFrom g.root text

/-- Runs the graph on one input. -/
def tryParse (g : Graph Datum) (text : Text) : Except PartError (Outcome Text) :=
  (g.tryTransduce text).map .ofOutputs

/-- Runs the graph on several inputs; the first failure ends all. -/
def tryParseBatch (g : Graph Datum) (texts : List Text) :
    Except PartError (List (Outcome Text)) := texts.mapM g.tryParse

/-- Whether the graph accepts an input. -/
def tryCanParse (g : Graph Datum) (text : Text) : Except PartError Bool :=
  (g.tryParse text).map Outcome.isAccepted

end RuleTransducer.Graph
