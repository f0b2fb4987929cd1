import RuleTransducer.Graph.Basic
import RuleTransducer.Outcome

/-! Exhaustive traversal of a graph. Every path from a start vertex that consumes the whole
input and ends on a terminal vertex contributes its output, in the order of discovery and
without removal of repetitions. The search keeps a stack of open branches; `walk` is the
same traversal as a recursion on the input. -/

namespace RuleTransducer

variable {α : Type}

/-- An open branch: the input left, the vertex reached, the output produced so far. -/
structure Branch (α : Type) where
  rest : List CodePoint
  vertex : Vertex α
  produced : Text

namespace Graph

/-- A bound on the branches that one with `n` code points left stands for: it opens at most
as many as the graph has edges, each with one code point fewer. -/
def spread (g : Graph α) : Nat → Nat
  | 0 => 1
  | n + 1 => (g.edges.length + 1) * g.spread n

/-- A bound on the branches that a stack stands for. -/
def pending (g : Graph α) : List (Branch α) → Nat
  | [] => 0
  | b :: stack => g.spread b.rest.length + g.pending stack

theorem spread_pos (g : Graph α) (n : Nat) : 0 < g.spread n := by
  induction n with
  | zero => exact Nat.one_pos
  | succ n ih => exact Nat.mul_pos (Nat.succ_pos _) ih

@[simp] theorem pending_cons (g : Graph α) (b : Branch α) (stack : List (Branch α)) :
    g.pending (b :: stack) = g.spread b.rest.length + g.pending stack := rfl

theorem pending_append (g : Graph α) (s t : List (Branch α)) :
    g.pending (s ++ t) = g.pending s + g.pending t := by
  induction s with
  | nil => exact (Nat.zero_add _).symm
  | cons b s ih => rw [List.cons_append, pending_cons, pending_cons, ih, Nat.add_assoc]

variable [BEq α] [Fragment α]

/-- The branches after consuming `c`, in the order of the edges. -/
def branches (g : Graph α) (v : Vertex α) (produced : Text) (c : CodePoint)
    (rest : List CodePoint) : List (Branch α) :=
  (g.outEdgesOn v (Text.singleton c)).map fun e =>
    ⟨rest, e.target, produced ++ Fragment.written e.label.output⟩

theorem length_branches_le (g : Graph α) (v : Vertex α) (produced : Text) (c : CodePoint)
    (rest : List CodePoint) : (g.branches v produced c rest).length ≤ g.edges.length := by
  rw [branches, List.length_map]
  exact List.length_filter_le _ _

theorem pending_branches (g : Graph α) (v : Vertex α) (produced : Text) (c : CodePoint)
    (rest : List CodePoint) :
    g.pending (g.branches v produced c rest) =
      (g.branches v produced c rest).length * g.spread rest.length := by
  simp only [branches]
  induction g.outEdgesOn v (Text.singleton c) with
  | nil => simp [pending]
  | cons e edges ih =>
    rw [List.map_cons, pending_cons, ih, List.length_cons, Nat.add_one_mul, Nat.add_comm]

theorem pending_branches_lt (g : Graph α) (v : Vertex α) (produced : Text) (c : CodePoint)
    (rest : List CodePoint) :
    g.pending (g.branches v produced c rest) < g.spread (c :: rest).length := by
  rw [pending_branches, List.length_cons, spread]
  exact Nat.mul_lt_mul_of_pos_right
    (Nat.lt_succ_of_le (length_branches_le g v produced c rest)) (spread_pos g _)

/-- Runs the topmost branch of a stack until none is open; `found` holds the outputs in
reverse. -/
def search (g : Graph α) (stack : List (Branch α)) (found : List Text) : List Text :=
  match stack with
  | [] => found.reverse
  | ⟨[], v, produced⟩ :: stack =>
    g.search stack (if v.isTerminal then produced :: found else found)
  | ⟨c :: rest, v, produced⟩ :: stack =>
    g.search (g.branches v produced c rest ++ stack) found
termination_by g.pending stack
decreasing_by
  · simp [spread]
  · rw [pending_append, pending_cons]
    exact Nat.add_lt_add_right (pending_branches_lt g v produced c rest) _

/-- The outputs of every accepting path from `start`. -/
def transduceFrom (g : Graph α) (start : Vertex α) (text : Text) : List Text :=
  g.search [⟨text.toList, start, ""⟩] []

/-- The outputs of every accepting path from the root. -/
def transduce (g : Graph α) (text : Text) : List Text := g.transduceFrom g.root text

/-- The outputs of every accepting path from a vertex, each behind what is produced. -/
def walk (g : Graph α) (v : Vertex α) (produced : Text) : List CodePoint → List Text
  | [] => if v.isTerminal then [produced] else []
  | c :: rest => (g.outEdgesOn v (Text.singleton c)).flatMap fun e =>
      g.walk e.target (produced ++ Fragment.written e.label.output) rest

/-- Runs the graph on one input. -/
def parse (g : Graph α) (text : Text) : Outcome Text := .ofOutputs (g.transduce text)

/-- Runs the graph on several inputs, each on its own. -/
def parseBatch (g : Graph α) (texts : List Text) : List (Outcome Text) := texts.map g.parse

/-- Whether the graph accepts an input. -/
def canParse (g : Graph α) (text : Text) : Bool := (g.parse text).isAccepted

end Graph

end RuleTransducer
