import RuleTransducer.Graph.Basic
import RuleTransducer.Rule.Basic

/-! Threading rules into a graph. Every rule starts at the root and adds one edge per edit
step, so rules with a common beginning share its vertices, and outputs that part at the
same place fork from a shared vertex. Only the last step of the last item ends on a
terminal vertex. A rule with an insertion fails where the insertion stands; the steps
before it stay. -/

namespace RuleTransducer

/-- The label of the edge for a step. -/
def Step.label {α : Type} [Fragment α] (step : Step) : Label α :=
  ⟨Text.singleton step.input, Fragment.ofText step.output⟩

namespace Rule

/-- The steps of a run of items up to the first insertion. Only the last item closes. -/
def planItems : List (Item Text) → List Step × Option Insertion
  | [] => ([], none)
  | [item] =>
    match item.steps with
    | .ok steps => (steps, none)
    | .error e => ([], some e)
  | item :: rest =>
    match item.steps with
    | .ok steps =>
      let (later, failure?) := planItems rest
      (steps.map Step.opened ++ later, failure?)
    | .error e => ([], some e)

/-- The steps of a rule up to its first insertion. -/
def plan (rule : Rule) : List Step × Option Insertion := planItems rule.items

end Rule

variable {α : Type}

/-- A place in a growing graph: the vertex reached, the input consumed since the root, and
the number of edges that were new. -/
structure Cursor (α : Type) where
  graph : Graph α
  vertex : Vertex α
  consumed : Text
  added : Nat

namespace Cursor

/-- At the root of a graph. -/
def atRoot (g : Graph α) : Cursor α := ⟨g, g.root, "", 0⟩

/-- Takes or makes the edge of a given label. -/
def advance [BEq α] (c : Cursor α) (label : Label α) (closing : Bool) : Cursor α :=
  let consumed := c.consumed ++ label.input
  let target := Vertex.afterStep consumed label.output closing
  let (graph, isNew) := c.graph.addEdge ⟨c.vertex, target, label⟩
  ⟨graph, target, consumed, if isNew then c.added + 1 else c.added⟩

/-- Takes or makes the edges of a run of steps. -/
def follow [BEq α] [Fragment α] (c : Cursor α) (steps : List Step) : Cursor α :=
  steps.foldl (fun c step => c.advance step.label step.closing) c

end Cursor

namespace Graph

variable [BEq α] [Fragment α]

/-- Threads a rule through the graph: where its steps lead, and the insertion that stopped
them. -/
def thread (g : Graph α) (rule : Rule) : Cursor α × Option Insertion :=
  let (steps, failure?) := rule.plan
  ((Cursor.atRoot g).follow steps, failure?)

/-- The graph with a rule threaded through it, as far as the rule has steps. -/
def build (g : Graph α) (rule : Rule) : Graph α := (g.thread rule).1.graph

end Graph

end RuleTransducer
