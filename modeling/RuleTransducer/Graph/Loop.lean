import RuleTransducer.Graph.Traversal

/-! The traversal as a loop over a stack of positions. A turn takes the topmost frame: at the end
of the input its output is kept if its vertex is terminal, and before the end the edges on the
code point at its position are pushed, the last one first. The loop is run a number of turns at a
time, so that neither its end nor that every position it reads is one of the input is taken for
granted. -/

namespace RuleTransducer

variable {α : Type}

/-- An entry of the stack. -/
structure Frame (α : Type) where
  /-- The position in the input. -/
  position : Nat
  vertex : Vertex α
  produced : Text

/-- The state of the loop. The top of the stack is its first entry. -/
structure Loop (α : Type) where
  stack : List (Frame α)
  outputs : List Text

/-- The loop at its start. -/
def Loop.initial (start : Vertex α) : Loop α := ⟨[⟨0, start, ""⟩], []⟩

/-- What a turn leads to. -/
inductive Turn (α : Type)
  | next (loop : Loop α)
  | finished (outputs : List Text)
  /-- A position without a code point was read. -/
  | outside (position : Nat)

namespace Graph

variable [BEq α] [Fragment α]

/-- One turn of the loop. -/
def turn (g : Graph α) (text : Text) (loop : Loop α) : Turn α :=
  match loop.stack with
  | [] => .finished loop.outputs
  | ⟨position, v, produced⟩ :: stack =>
    if position = text.length then
      .next ⟨stack, if v.isTerminal then loop.outputs ++ [produced] else loop.outputs⟩
    else match text.toList[position]? with
      | none => .outside position
      | some c =>
        let edges := g.outEdgesOn v (Text.singleton c)
        let push (stack : List (Frame α)) (e : Edge α) : List (Frame α) :=
          ⟨position + 1, e.target, produced ++ Fragment.written e.label.output⟩ :: stack
        .next ⟨edges.reverse.foldl push stack, loop.outputs⟩

/-- At most `n` turns of the loop. -/
def turns (g : Graph α) (text : Text) : Nat → Loop α → Turn α
  | 0, loop => .next loop
  | n + 1, loop =>
    match g.turn text loop with
    | .next loop => g.turns text n loop
    | .finished outputs => .finished outputs
    | .outside position => .outside position

end Graph

end RuleTransducer
