import RuleTransducer.Graph.Basic

/-! The tables behind a graph. The edges that leave a vertex are kept in a list under the vertex,
and once more under the vertex and their input, so that a traversal finds the edges for a code
point without a search; a set of all edges tells which ones are known. A graph as the record of
its insertions says the same: its look-ups are those of the tables. -/

namespace RuleTransducer

/-- Lists under keys, in the order in which the keys came up. -/
abbrev Table (κ β : Type) := List (κ × List β)

namespace Table

variable {κ β : Type} [BEq κ]

/-- The list under a key, empty for an unknown one. -/
def get (t : Table κ β) (key : κ) : List β := (t.lookup key).getD []

/-- Makes room for a key, if it is not known. -/
def enter (t : Table κ β) (key : κ) : Table κ β :=
  if (t.map Prod.fst).contains key then t else t ++ [(key, [])]

/-- Appends to the list under a known key. -/
def add (t : Table κ β) (key : κ) (b : β) : Table κ β :=
  t.map fun (known, list) => (known, if known == key then list ++ [b] else list)

end Table

/-- The tables of a graph. -/
structure Tables (α : Type) where
  root : Vertex α
  /-- The edges that leave a vertex. The keys are the vertices of the graph. -/
  adjacency : Table (Vertex α) (Edge α)
  /-- The edges that leave a vertex on an input. -/
  byInput : Table (Vertex α × Text) (Edge α)
  /-- Every edge once. -/
  known : List (Edge α)

namespace Tables

variable {α : Type}

/-- The tables of the graph that holds only its root. -/
def rooted (root : Vertex α) : Tables α := ⟨root, [(root, [])], [], []⟩

def vertices (t : Tables α) : List (Vertex α) := t.adjacency.map Prod.fst

/-- All edges, grouped by their sources in the order of the vertices. -/
def edges (t : Tables α) : List (Edge α) := t.adjacency.flatMap Prod.snd

def edgeCount (t : Tables α) : Nat := t.known.length

variable [BEq α]

/-- Inserts a vertex if it is not already present. -/
def addVertex (t : Tables α) (v : Vertex α) : Tables α :=
  { t with adjacency := t.adjacency.enter v }

/-- Inserts an edge with its ends if it is not already present, and tells whether it was
new. -/
def addEdge (t : Tables α) (e : Edge α) : Tables α × Bool :=
  if t.known.contains e then (t, false)
  else
    let t := (t.addVertex e.source).addVertex e.target
    ({ t with
      known := t.known ++ [e]
      adjacency := t.adjacency.add e.source e
      byInput := (t.byInput.enter (e.source, e.label.input)).add (e.source, e.label.input) e },
      true)

/-- The edges that leave a vertex, in order of insertion. -/
def outEdges (t : Tables α) (v : Vertex α) : List (Edge α) := t.adjacency.get v

/-- The edges that leave a vertex on a given input, in order of insertion. -/
def outEdgesOn (t : Tables α) (v : Vertex α) (input : Text) : List (Edge α) :=
  t.byInput.get (v, input)

end Tables

end RuleTransducer
