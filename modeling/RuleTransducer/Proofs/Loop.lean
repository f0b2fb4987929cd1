import RuleTransducer.Graph.Loop
import RuleTransducer.Proofs.Paths

/-! The loop is the walk. A frame inside the input is a branch of the search with the rest of the
input from its position, and a turn takes the topmost branch: what is found and what the stack
stands for stay together the same, and the bound on the branches falls, also in a graph with
cycles. So the loop ends, having read inside the input only, with the outputs of the recursive
walk. -/

namespace RuleTransducer

variable {α : Type}

/-- The branch that a frame stands for. -/
def Frame.branch (text : Text) (frame : Frame α) : Branch α :=
  ⟨text.toList.drop frame.position, frame.vertex, frame.produced⟩

namespace Loop

def branches (loop : Loop α) (text : Text) : List (Branch α) := loop.stack.map (Frame.branch text)

/-- Whether every position on the stack is one of the input or its end. -/
def Inside (loop : Loop α) (text : Text) : Prop :=
  ∀ frame ∈ loop.stack, frame.position ≤ text.length

theorem inside_initial (start : Vertex α) (text : Text) : (initial start).Inside text := by
  intro frame hframe
  rw [List.mem_singleton.mp hframe]
  exact Nat.zero_le _

end Loop

namespace Graph

variable [BEq α] [Fragment α] {g : Graph α} {text : Text}

/-! ### One turn -/

/-- The frames for the edges on the code point `c` at a position, in the order of the edges. -/
def frames (g : Graph α) (position : Nat) (v : Vertex α) (produced : Text) (c : CodePoint) :
    List (Frame α) :=
  (g.outEdgesOn v (Text.singleton c)).map fun e =>
    ⟨position + 1, e.target, produced ++ Fragment.written e.label.output⟩

theorem map_branch_frames (g : Graph α) (text : Text) (position : Nat) (v : Vertex α)
    (produced : Text) (c : CodePoint) :
    (g.frames position v produced c).map (Frame.branch text) =
      g.branches v produced c (text.toList.drop (position + 1)) := by
  rw [frames, List.map_map]
  rfl

section Turn
variable {position : Nat} {v : Vertex α} {produced : Text} {stack : List (Frame α)}
  {outputs : List Text}

theorem turn_at_end (h : position = text.length) :
    g.turn text ⟨⟨position, v, produced⟩ :: stack, outputs⟩ =
      .next ⟨stack, if v.isTerminal then outputs ++ [produced] else outputs⟩ := if_pos h

/-- Pushed in reverse, the frames are on the stack in the order of the edges. -/
theorem turn_before_end (h : position < text.toList.length) :
    g.turn text ⟨⟨position, v, produced⟩ :: stack, outputs⟩ =
      .next ⟨g.frames position v produced text.toList[position] ++ stack, outputs⟩ := by
  have hne : position ≠ text.length := by
    rw [← Text.length_toList]
    exact Nat.ne_of_lt h
  simp only [turn, if_neg hne, List.getElem?_eq_getElem h, List.foldl_reverse, frames]
  refine congrArg (fun stack => Turn.next ⟨stack, outputs⟩) ?_
  induction g.outEdgesOn v (Text.singleton text.toList[position]) with
  | nil => rfl
  | cons e edges ih => rw [List.foldr_cons, ih, List.map_cons, List.cons_append]

end Turn

/-! ### Runs of turns -/

/-- What a loop ends with: the outputs it holds and those that its stack stands for. -/
def answers (g : Graph α) (text : Text) (loop : Loop α) : List Text :=
  loop.outputs ++ g.walks (loop.branches text)

/-- A turn with a frame on the stack stays inside the input, keeps the answers and leaves fewer
branches. -/
theorem exists_turn_eq_next {frame : Frame α} {stack : List (Frame α)} {outputs : List Text}
    (h : Loop.Inside ⟨frame :: stack, outputs⟩ text) :
    ∃ loop, g.turn text ⟨frame :: stack, outputs⟩ = .next loop ∧ loop.Inside text ∧
      g.answers text loop = g.answers text ⟨frame :: stack, outputs⟩ ∧
      g.pending (loop.branches text) <
        g.pending (Loop.branches ⟨frame :: stack, outputs⟩ text) := by
  obtain ⟨position, v, produced⟩ := frame
  obtain ⟨hposition, hstack⟩ := List.forall_mem_cons.mp h
  by_cases hend : position = text.length
  case pos =>
    have hrest : text.toList.drop position = [] := by
      rw [hend, ← Text.length_toList, List.drop_length]
    refine ⟨_, turn_at_end hend, hstack, ?_, ?_⟩
    · simp only [answers, Loop.branches, List.map_cons, Frame.branch, hrest, walks,
        List.flatMap_cons, walk]
      split
      · exact List.append_assoc _ _ _
      · rfl
    · rw [Loop.branches, Loop.branches, List.map_cons, pending_cons]
      exact Nat.lt_add_of_pos_left (spread_pos g _)
  case neg =>
    have hlt : position < text.toList.length := by
      rw [Text.length_toList]
      exact Nat.lt_of_le_of_ne hposition hend
    have hrest := List.drop_eq_getElem_cons hlt
    refine ⟨_, turn_before_end hlt, ?_, ?_, ?_⟩
    · refine List.forall_mem_append.mpr ⟨fun frame hframe => ?_, hstack⟩
      obtain ⟨e, -, rfl⟩ := List.mem_map.mp hframe
      rw [Text.length_toList] at hlt
      exact hlt
    · simp only [answers, Loop.branches, List.map_append, map_branch_frames, List.map_cons,
        Frame.branch, hrest]
      rw [walks, List.flatMap_append, ← walks, walks_branches, walks, List.flatMap_cons]
    · simp only [Loop.branches, List.map_append, map_branch_frames, List.map_cons, Frame.branch,
        hrest]
      rw [pending_append, pending_cons]
      exact Nat.add_lt_add_right (pending_branches_lt g v produced _ _) _

/-- A loop that is given more turns than it has branches ends with its answers. -/
theorem turns_of_pending_lt {loop : Loop α} (h : loop.Inside text) {n : Nat}
    (hn : g.pending (loop.branches text) < n) :
    g.turns text n loop = .finished (g.answers text loop) := by
  induction n generalizing loop with
  | zero => exact absurd hn (Nat.not_lt_zero _)
  | succ n ih =>
    obtain ⟨stack, outputs⟩ := loop
    cases stack with
    | nil => exact congrArg Turn.finished (List.append_nil outputs).symm
    | cons frame stack =>
      obtain ⟨next, hnext, hinside, hanswers, hless⟩ := exists_turn_eq_next (g := g) h
      simp only [turns, hnext]
      rw [← hanswers]
      exact ih hinside (Nat.lt_of_lt_of_le hless (Nat.le_of_lt_succ hn))

/-- No turn reads outside the input. -/
theorem turns_ne_outside {loop : Loop α} (h : loop.Inside text) (n position : Nat) :
    g.turns text n loop ≠ .outside position := by
  induction n generalizing loop with
  | zero =>
    intro heq
    cases heq
  | succ n ih =>
    obtain ⟨stack, outputs⟩ := loop
    cases stack with
    | nil =>
      intro heq
      cases heq
    | cons frame stack =>
      obtain ⟨next, hnext, hinside, -, -⟩ := exists_turn_eq_next (g := g) h
      simp only [turns, hnext]
      exact ih hinside

/-- The loop ends, reads inside the input only, and returns the outputs of the recursive walk, as
the search does. -/
theorem turns_initial (g : Graph α) (start : Vertex α) (text : Text) :
    (∃ n, g.turns text n (.initial start) = .finished (g.walk start "" text.toList)) ∧
      (∀ n position, g.turns text n (.initial start) ≠ .outside position) ∧
      g.transduceFrom start text = g.walk start "" text.toList := by
  have hinside := Loop.inside_initial start text
  have hanswers : g.answers text (.initial start) = g.walk start "" text.toList :=
    List.append_nil _
  refine ⟨⟨g.pending ((Loop.initial start).branches text) + 1, ?_⟩, turns_ne_outside hinside,
    transduceFrom_eq_walk g start text⟩
  rw [turns_of_pending_lt hinside (Nat.lt_succ_self _), hanswers]

end Graph

end RuleTransducer
