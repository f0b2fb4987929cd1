import RuleTransducer.Graph.Fragment

/-! The directed multigraph behind a transducer. Vertices are plain values: the input
consumed so far, the fragment that the last edge emitted, and a status. Several edges may
leave a vertex on the same input, which is the only way that ambiguity is represented. A
graph only grows, and it is its own record: vertices and edges in the order of their first
insertion, each once. The fragments of a graph are of one type; for the rules that pass
validation it is `Text`. -/

namespace RuleTransducer

/-- The role of a vertex, part of its identity. -/
inductive Status
  | initial
  | transitional
  | terminal
  deriving DecidableEq

namespace Status

def name : Status → String
  | initial => "initial"
  | transitional => "transitional"
  | terminal => "terminal"

def all : List Status := [initial, transitional, terminal]

/-- The status of a given name. -/
def ofName? (name : String) : Option Status := all.find? fun status => status.name = name

end Status

/-- A vertex. -/
structure Vertex (α : Type) where
  /-- The input consumed on the way. -/
  consumed : Text
  /-- The fragment that the last edge emitted, and not all of the output. -/
  emitted : α
  status : Status
  deriving DecidableEq, BEq, ReflBEq, LawfulBEq

namespace Vertex

variable {α : Type}

/-- The vertex at which every rule starts. -/
def root [Fragment α] : Vertex α := ⟨"", Fragment.ofText "", .initial⟩

/-- The vertex reached by consuming `consumed` with `emitted` as the last fragment. -/
def afterStep (consumed : Text) (emitted : α) (closing : Bool) : Vertex α :=
  ⟨consumed, emitted, if closing then .terminal else .transitional⟩

def isTerminal (v : Vertex α) : Bool := v.status = .terminal

/-- The display form. It is no key: different vertices may share it. -/
def signature [Fragment α] (v : Vertex α) : Text :=
  if v.status = .initial then "root" else v.consumed ++ ":" ++ Fragment.written v.emitted

end Vertex

/-- What an edge consumes and emits. -/
structure Label (α : Type) where
  input : Text
  output : α
  deriving DecidableEq, BEq, ReflBEq, LawfulBEq

/-- A labelled transition between two vertices. -/
structure Edge (α : Type) where
  source : Vertex α
  target : Vertex α
  label : Label α
  deriving DecidableEq, BEq, ReflBEq, LawfulBEq

/-- A multigraph with a root. -/
structure Graph (α : Type) where
  root : Vertex α
  /-- Every vertex once, in order of first insertion, the root first. -/
  vertices : List (Vertex α)
  /-- Every edge once, in order of first insertion. -/
  edges : List (Edge α)

namespace Graph

variable {α : Type}

/-- The graph that holds only its root. -/
def rooted (root : Vertex α) : Graph α := ⟨root, [root], []⟩

/-- The graph of no rule. -/
def empty [Fragment α] : Graph α := rooted .root

/-- Inserts a vertex if it is not already present. -/
def addVertex [BEq α] (g : Graph α) (v : Vertex α) : Graph α :=
  if g.vertices.contains v then g else { g with vertices := g.vertices ++ [v] }

/-- Inserts an edge with its ends if it is not already present, and tells whether it was
new. -/
def addEdge [BEq α] (g : Graph α) (e : Edge α) : Graph α × Bool :=
  if g.edges.contains e then (g, false)
  else
    let g := (g.addVertex e.source).addVertex e.target
    ({ g with edges := g.edges ++ [e] }, true)

/-- The edges that leave a vertex, in order of insertion. -/
def outEdges [BEq α] (g : Graph α) (v : Vertex α) : List (Edge α) :=
  g.edges.filter fun e => e.source == v

/-- The edges that leave a vertex on a given input, in order of insertion. -/
def outEdgesOn [BEq α] (g : Graph α) (v : Vertex α) (input : Text) : List (Edge α) :=
  g.edges.filter fun e => e.source == v && e.label.input == input

/-- All edges, grouped by their sources in the order of the vertices. -/
def edgesBySource [BEq α] (g : Graph α) : List (Edge α) := g.vertices.flatMap g.outEdges

def terminals (g : Graph α) : List (Vertex α) := g.vertices.filter Vertex.isTerminal

/-- The display form of a graph. -/
def display (g : Graph α) : String :=
  s!"TransitionGraph(vertices={g.vertices.length}, edges={g.edges.length})"

end Graph

/-- The size of a graph. -/
structure Stats where
  vertices : Nat
  edges : Nat
  terminals : Nat
  deriving DecidableEq

def Graph.stats {α : Type} (g : Graph α) : Stats :=
  ⟨g.vertices.length, g.edges.length, g.terminals.length⟩

end RuleTransducer
